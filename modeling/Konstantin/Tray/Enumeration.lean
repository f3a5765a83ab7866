import Mathlib.Data.List.Sort
import Mathlib.Data.String.Basic
import Konstantin.Tray.Configure
import Konstantin.Tray.Pictures
import Konstantin.Tray.Users

/-!
# The accounts of the window

`enumerate` and `current_user_is_admin` of `crates/tray/src/users.rs`, from what the
programs that they run print.  Names are compared by their code points, which is the order
of their bytes.
-/

namespace Konstantin
namespace Tray

open Text Daemon

namespace Users

/-- A line of `dscl . -list /Users UniqueID`. -/
def listedUser (line : List Char) : Option (String × UInt32) :=
  let line := trim line
  if line = [] then none
  else
    match words line with
    | name :: uid :: _ =>
      (parseSigned (2 ^ 63) uid).bind fun uid =>
        if 0 ≤ uid ∧ uid ≤ 2 ^ 32 - 1 then
          some (String.ofList name, UInt32.ofNat uid.toNat)
        else none
    | _ => none

def parseListUsers (stdout : String) : List (String × UInt32) :=
  (lines stdout.toList).filterMap listedUser

def listUsers : Except String DsclOutput → Except String (List (String × UInt32))
  | .error _ => .error "running `dscl . -list /Users UniqueID`"
  | .ok output =>
    if !output.success then .error ("dscl list failed: " ++ output.stderr)
    else .ok (parseListUsers output.stdout)

def denylist : List String := ["nobody", "daemon", "root", "Guest", "Shared"]

def isRealUser (name : String) (uid : UInt32) : Bool :=
  if uid < 500 then false
  else if name.toList.head? = some '_' then false
  else if name ∈ denylist then false
  else true

/-- What a run of `dscl -plist` leaves: the root of what it printed, none where that is
no dictionary. -/
structure PlistOutput where
  success : Bool
  root : Except String (Option Pictures.Dictionary)
  stderr : String

def readUserAttributes (isFile : String → Bool) (username : String) :
    Except String PlistOutput → Except String Pictures.UserAttributes
  | .error _ => .error ("dscl read for " ++ username)
  | .ok output =>
    if !output.success then .error ("dscl -plist read failed: " ++ output.stderr)
    else
      match output.root with
      | .error _ => .error "parsing dscl -plist output"
      | .ok none => .error "dscl plist root is not a dict"
      | .ok (some dict) => .ok (Pictures.parseUserPlist isFile dict)

/-- What the machine answers. -/
structure Mac where
  listing : Except String DsclOutput
  admins : Except String DsclOutput
  isDir : String → Bool
  isFile : String → Bool
  attributes : String → Except String PlistOutput

structure LocalUser where
  username : String
  uid : UInt32
  home : String
  isAdmin : Bool
  picture : Option Pictures.UserPicture

/-- `Path::new("/Users").join(&username)`. -/
def homeGuess (username : String) : String :=
  if username.toList.head? = some '/' then username else "/Users/" ++ username

/-- A turn of the loop of `enumerate`. -/
def addUser (mac : Mac) (admins : Finset String) (candidate : String × UInt32) :
    Option LocalUser :=
  if !isRealUser candidate.1 candidate.2 then none
  else if !mac.isDir (homeGuess candidate.1) then none
  else
    match readUserAttributes mac.isFile candidate.1 (mac.attributes candidate.1) with
    | .ok attrs => some
        { username := candidate.1
          uid := candidate.2
          home := attrs.home.getD (homeGuess candidate.1)
          isAdmin := decide (candidate.1 ∈ admins)
          picture := attrs.picture }
    | .error _ => none

def adminsOf (dscl : Except String DsclOutput) : Finset String :=
  match readAdminMembers dscl with
  | .ok admins => admins
  | .error _ => ∅

def byName (u v : LocalUser) : Bool := decide (u.username ≤ v.username)

def enumerate (mac : Mac) : Except String (List LocalUser) :=
  (listUsers mac.listing).map fun candidates =>
    (candidates.filterMap (addUser mac (adminsOf mac.admins))).mergeSort byName

/-- `current_username`, from what `id -un` prints. -/
def currentUsername : Except String DsclOutput → Except String String
  | .error _ => .error "reading current username"
  | .ok output =>
    if !output.success then .error ("id -un failed: " ++ output.stderr)
    else
      let username := trim output.stdout.toList
      if username = [] then .error "id -un returned an empty username"
      else .ok (String.ofList username)

def currentUserIsAdmin (id dscl : Except String DsclOutput) : Except String Bool := do
  let username ← currentUsername id
  if username = "root" then return true
  let admins ← readAdminMembers dscl
  return decide (username ∈ admins)

/-! ## What dscl prints -/

def Blank (cs : List Char) : Prop := ∀ c ∈ cs, isWhitespace c = true ∧ c ≠ '\n'

instance : DecidablePred Blank :=
  fun cs => List.decidableBAll (fun c => isWhitespace c = true ∧ c ≠ '\n') cs

/-- An account and the blanks around its two columns. -/
structure Record where
  name : String
  uid : Int
  lead : List Char
  gap : List Char
  trail : List Char

/-- A name is a word, and a uid is read as an `i64`. -/
structure Record.WellFormed (r : Record) : Prop where
  named : r.name ≠ ""
  word : ∀ c ∈ r.name.toList, isWhitespace c = false
  low : -2 ^ 63 ≤ r.uid
  high : r.uid < 2 ^ 63
  lead : Blank r.lead
  gap : Blank r.gap ∧ r.gap ≠ []
  trail : Blank r.trail

inductive ListingLine where
  | blank (blanks : List Char)
  | account (r : Record)

namespace ListingLine

def WellFormed : ListingLine → Prop
  | blank blanks => Blank blanks
  | account r => r.WellFormed

def chars : ListingLine → List Char
  | blank blanks => blanks
  | account r => r.lead ++ (r.name.toList ++ r.gap ++ (signedDigits r.uid ++ r.trail ++ []))

def account? : ListingLine → Option Record
  | blank _ => none
  | account r => some r

end ListingLine

def print (ls : List ListingLine) : String :=
  String.ofList (ls.flatMap fun l => l.chars ++ ['\n'])

def accounts (ls : List ListingLine) : List Record := ls.filterMap ListingLine.account?

theorem listedUser_blank {line : List Char} (h : words line = []) : listedUser line = none := by
  unfold listedUser
  dsimp only
  rw [words_trim, h]
  split <;> rfl

theorem listedUser_words {line name uid : List Char} (h : words line = [name, uid]) :
    listedUser line = (parseSigned (2 ^ 63) uid).bind fun uid =>
      if 0 ≤ uid ∧ uid ≤ 2 ^ 32 - 1 then some (String.ofList name, UInt32.ofNat uid.toNat)
      else none := by
  have hne : trim line ≠ [] := by
    intro hnil
    rw [← words_trim, hnil] at h
    cases h
  unfold listedUser
  dsimp only
  rw [if_neg hne, words_trim, h]

/-- What a turn of the loop of `enumerate` starts from. -/
def Record.candidate (r : Record) : Option (String × UInt32) :=
  if 0 ≤ r.uid ∧ r.uid ≤ 2 ^ 32 - 1 then some (r.name, UInt32.ofNat r.uid.toNat) else none

theorem words_account {r : Record} (h : r.WellFormed) :
    words (ListingLine.account r).chars = [r.name.toList, signedDigits r.uid] := by
  have hname : r.name.toList ≠ [] := fun hnil => h.named (String.toList_eq_nil_iff.mp hnil)
  have hdigits := signedDigits_clear r.uid
  show words (r.lead ++ (r.name.toList ++ r.gap ++ (signedDigits r.uid ++ r.trail ++ []))) = _
  rw [words_blanks_append fun c hc => (h.lead c hc).1,
    words_word_append (fun c hc => (h.gap.1 c hc).1) hname h.word (Or.inl h.gap.2),
    words_word_append (fun c hc => (h.trail c hc).1) hdigits.1 hdigits.2 (Or.inr rfl), words_nil]

theorem listedUser_chars {l : ListingLine} (h : l.WellFormed) :
    listedUser (withoutCr l.chars) = l.account?.bind Record.candidate := by
  cases l with
  | blank blanks =>
    have hwords := words_blanks_append (fun c hc => (h c hc).1) []
    rw [List.append_nil, words_nil] at hwords
    exact listedUser_blank ((words_withoutCr blanks).trans hwords)
  | account r =>
    have hwords := (words_withoutCr _).trans (words_account h)
    have hread : parseSigned (2 ^ 63) (signedDigits r.uid) = some r.uid :=
      parseSigned_signedDigits h.low h.high
    rw [listedUser_words hwords, hread, String.ofList_toList]
    rfl

theorem one_line {l : ListingLine} (h : l.WellFormed) : '\n' ∉ l.chars := by
  have hblank : ∀ cs, Blank cs → '\n' ∉ cs := fun cs hcs hmem => (hcs _ hmem).2 rfl
  have hword : ∀ cs : List Char, (∀ c ∈ cs, isWhitespace c = false) → '\n' ∉ cs := by
    intro cs hcs hmem
    cases hcs _ hmem
  cases l with
  | blank blanks => exact hblank blanks h
  | account r =>
    have h : r.WellFormed := h
    have hdigits := signedDigits_clear r.uid
    unfold ListingLine.chars
    simp only [List.mem_append, List.append_nil, not_or]
    exact ⟨hblank _ h.lead, ⟨hword _ h.word, hblank _ h.gap.1⟩,
      hword _ hdigits.2, hblank _ h.trail⟩

/-- The accounts of a listing with a uid of the right size, whatever the layout. -/
theorem parseListUsers_print {ls : List ListingLine} (h : ∀ l ∈ ls, l.WellFormed) :
    parseListUsers (print ls) = (accounts ls).filterMap Record.candidate := by
  rw [parseListUsers, print, String.toList_ofList, accounts, List.filterMap_filterMap]
  induction ls with
  | nil => rfl
  | cons l ls ih =>
    have hl := h l List.mem_cons_self
    rw [List.flatMap_cons, List.append_assoc, List.singleton_append, lines_line (one_line hl),
      List.filterMap_cons, List.filterMap_cons, listedUser_chars hl,
      ih fun m hm => h m (List.mem_cons_of_mem l hm)]

/-! ## Whom the window lists -/

/-- How an account of the directory is shown. -/
structure Shown (mac : Mac) (r : Record) (u : LocalUser) : Prop where
  username : u.username = r.name
  uid : (u.uid.toNat : Int) = r.uid
  real : 500 ≤ r.uid ∧ r.name.toList.head? ≠ some '_' ∧ r.name ∉ denylist
  isDir : mac.isDir (homeGuess r.name) = true
  isAdmin : u.isAdmin = Users.isAdmin mac.admins r.name
  read : ∃ attrs, readUserAttributes mac.isFile r.name (mac.attributes r.name) = .ok attrs ∧
    u.home = attrs.home.getD (homeGuess r.name) ∧ u.picture = attrs.picture

theorem isRealUser_iff (name : String) (uid : UInt32) :
    isRealUser name uid = true ↔
      500 ≤ uid.toNat ∧ name.toList.head? ≠ some '_' ∧ name ∉ denylist := by
  have hlow : uid < 500 ↔ ¬ 500 ≤ uid.toNat := UInt32.lt_iff_toNat_lt.trans Nat.not_le.symm
  unfold isRealUser
  split
  · rename_i h
    exact ⟨(fun hf => nomatch hf), fun hr => absurd hr.1 (hlow.mp h)⟩
  · rename_i h
    have hhigh := Decidable.not_not.mp (hlow.not.mp h)
    split
    · rename_i hhead
      exact ⟨(fun hf => nomatch hf), fun hr => absurd hhead hr.2.1⟩
    · rename_i hhead
      split
      · rename_i hdenied
        exact ⟨(fun hf => nomatch hf), fun hr => absurd hdenied hr.2.2⟩
      · rename_i hdenied
        exact ⟨fun _ => ⟨hhigh, hhead, hdenied⟩, fun _ => rfl⟩

theorem isAdmin_eq (dscl : Except String DsclOutput) (name : String) :
    Users.isAdmin dscl name = decide (name ∈ adminsOf dscl) := by
  unfold Users.isAdmin adminsOf
  cases readAdminMembers dscl with
  | ok admins => rfl
  | error e => exact (decide_eq_false (Finset.notMem_empty name)).symm

theorem candidate_eq_some {r : Record} {c : String × UInt32} :
    r.candidate = some c ↔ c.1 = r.name ∧ (c.2.toNat : Int) = r.uid := by
  unfold Record.candidate
  constructor
  · intro h
    split at h
    · rename_i hrange
      cases h
      refine ⟨rfl, ?_⟩
      show ((UInt32.ofNat r.uid.toNat).toNat : Int) = r.uid
      rw [UInt32.toNat_ofNat']
      omega
    · cases h
  · rintro ⟨hname, huid⟩
    have hlt := c.2.toNat_lt
    rw [if_pos (by omega), ← hname, ← huid, Int.toNat_natCast, UInt32.ofNat_toNat]

theorem addUser_eq_some {mac : Mac} {admins : Finset String} {c : String × UInt32}
    {u : LocalUser} :
    addUser mac admins c = some u ↔ isRealUser c.1 c.2 = true ∧
      mac.isDir (homeGuess c.1) = true ∧
      ∃ attrs, readUserAttributes mac.isFile c.1 (mac.attributes c.1) = .ok attrs ∧
        u = { username := c.1
              uid := c.2
              home := attrs.home.getD (homeGuess c.1)
              isAdmin := decide (c.1 ∈ admins)
              picture := attrs.picture } := by
  unfold addUser
  cases isRealUser c.1 c.2 with
  | false => simp
  | true =>
    cases mac.isDir (homeGuess c.1) with
    | false => simp
    | true =>
      cases readUserAttributes mac.isFile c.1 (mac.attributes c.1) with
      | error e => simp
      | ok attrs => simp [eq_comm]

def Record.shown (mac : Mac) (r : Record) : Option LocalUser :=
  r.candidate.bind (addUser mac (adminsOf mac.admins))

theorem shown_iff (mac : Mac) (r : Record) (u : LocalUser) :
    r.shown mac = some u ↔ Shown mac r u := by
  rw [Record.shown, Option.bind_eq_some_iff]
  constructor
  · rintro ⟨⟨name, uid⟩, hcandidate, hadd⟩
    obtain ⟨rfl, huid⟩ := candidate_eq_some.mp hcandidate
    obtain ⟨hreal, hdir, attrs, hread, rfl⟩ := addUser_eq_some.mp hadd
    obtain ⟨hlow, hname⟩ := (isRealUser_iff _ _).mp hreal
    have huid : (uid.toNat : Int) = r.uid := huid
    exact ⟨rfl, huid, ⟨by omega, hname⟩, hdir, (isAdmin_eq _ _).symm, attrs, hread, rfl, rfl⟩
  · intro h
    obtain ⟨attrs, hread, hhome, hpicture⟩ := h.read
    refine ⟨(r.name, u.uid), candidate_eq_some.mpr ⟨rfl, h.uid⟩, addUser_eq_some.mpr
      ⟨(isRealUser_iff _ _).mpr ⟨?_, h.real.2⟩, h.isDir, attrs, hread, ?_⟩⟩
    · have huid := h.uid
      have hlow := h.real.1
      show 500 ≤ u.uid.toNat
      omega
    · obtain ⟨username, uid, home, isAdmin, picture⟩ := u
      obtain rfl : username = r.name := h.username
      obtain rfl : home = _ := hhome
      obtain rfl : picture = _ := hpicture
      obtain rfl : isAdmin = _ := h.isAdmin.trans (isAdmin_eq _ _)
      rfl

theorem enumerate_eq {mac : Mac} {ls : List ListingLine} {stderr : String}
    (hls : ∀ l ∈ ls, l.WellFormed) (hlisting : mac.listing = .ok ⟨true, print ls, stderr⟩) :
    enumerate mac = .ok (((accounts ls).filterMap (Record.shown mac)).mergeSort byName) := by
  have hlist : listUsers mac.listing = .ok (parseListUsers (print ls)) := by
    rw [hlisting]
    rfl
  rw [enumerate, hlist, parseListUsers_print hls]
  show Except.ok (((((accounts ls).filterMap Record.candidate).filterMap _).mergeSort byName)) = _
  rw [List.filterMap_filterMap]
  rfl

/-- The names of the users that are listed are among those of the directory. -/
theorem names_sublist (mac : Mac) (rs : List Record) :
    ((rs.filterMap (Record.shown mac)).map LocalUser.username).Sublist (rs.map Record.name) := by
  induction rs with
  | nil => exact List.Sublist.slnil
  | cons r rs ih =>
    cases hshown : r.shown mac with
    | none =>
      rw [List.filterMap_cons_none hshown, List.map_cons]
      exact ih.cons _
    | some u =>
      rw [List.filterMap_cons_some hshown, List.map_cons, List.map_cons,
        ((shown_iff mac r u).mp hshown).username]
      exact ih.cons_cons _

theorem pairwise_byName (users : List LocalUser) :
    (users.mergeSort byName).Pairwise fun u v => u.username ≤ v.username := by
  have htrans : ∀ u v w, byName u v = true → byName v w = true → byName u w = true :=
    fun u v w huv hvw => decide_eq_true (le_trans (of_decide_eq_true huv) (of_decide_eq_true hvw))
  have htotal : ∀ u v, (byName u v || byName v u) = true := by
    intro u v
    rcases le_total u.username v.username with hle | hle
    · rw [byName, decide_eq_true hle, Bool.true_or]
    · rw [byName, byName, decide_eq_true hle, Bool.or_true]
  exact (List.pairwise_mergeSort htrans htotal users).imp fun h => of_decide_eq_true h

theorem currentUsername_printed {name stderr : String} (hne : name ≠ "")
    (hword : ∀ c ∈ name.toList, isWhitespace c = false) :
    currentUsername (.ok ⟨true, name ++ "\n", stderr⟩) = .ok name := by
  have htrim : trim (name ++ "\n").toList = name.toList := by
    rw [String.toList_append]
    exact trim_concat hword (by decide)
  have hsome : name.toList ≠ [] := fun hnil => hne (String.toList_eq_nil_iff.mp hnil)
  unfold currentUsername
  dsimp only
  rw [htrim, if_neg (by decide), if_neg hsome, String.ofList_toList]

/-- The mark of a user is what `current_user_is_admin` says when he is logged in. -/
theorem isAdmin_of_current {u : LocalUser} {mac : Mac} {r : Record} (hr : r.WellFormed)
    (hu : Shown mac r u) {stderr : String} {b : Bool}
    (h : currentUserIsAdmin (.ok ⟨true, u.username ++ "\n", stderr⟩) mac.admins = .ok b) :
    u.isAdmin = b := by
  have hroot : r.name ≠ "root" := by
    intro heq
    apply hu.real.2.2
    rw [heq]
    decide
  rw [hu.username] at h
  rw [hu.isAdmin, isAdmin_eq]
  unfold currentUserIsAdmin at h
  rw [currentUsername_printed hr.named hr.word] at h
  dsimp only [bind, Except.bind] at h
  rw [if_neg hroot] at h
  unfold adminsOf
  cases hmembers : readAdminMembers mac.admins with
  | error e =>
    rw [hmembers] at h
    cases h
  | ok admins =>
    rw [hmembers] at h
    exact Except.ok.inj h

/-- The window lists the accounts that are people, each once and in order, and marks
exactly those that `current_user_is_admin` lets repair the daemon. -/
theorem enumerate_lists (mac : Mac) (ls : List ListingLine) (stderr : String)
    (hls : ∀ l ∈ ls, l.WellFormed) (hlisting : mac.listing = .ok ⟨true, print ls, stderr⟩) :
    ∃ users, enumerate mac = .ok users ∧
      (users.Pairwise fun u v => u.username ≤ v.username) ∧
      (∀ u, u ∈ users ↔ ∃ r ∈ accounts ls, Shown mac r u) ∧
      (((accounts ls).map Record.name).Nodup →
        ∃ shown : Tray.Accounts, shown.users = users.map fun u => ⟨u.username⟩) ∧
      ∀ u ∈ users, ∀ stderr b,
        currentUserIsAdmin (.ok ⟨true, u.username ++ "\n", stderr⟩) mac.admins = .ok b →
          u.isAdmin = b := by
  have hperm := List.mergeSort_perm ((accounts ls).filterMap (Record.shown mac)) byName
  have hmem : ∀ u, u ∈ ((accounts ls).filterMap (Record.shown mac)).mergeSort byName ↔
      ∃ r ∈ accounts ls, Shown mac r u := by
    intro u
    rw [hperm.mem_iff, List.mem_filterMap]
    simp only [shown_iff]
  refine ⟨_, enumerate_eq hls hlisting, pairwise_byName _, hmem, fun hnodup => ?_,
    fun u hu stderr b h => ?_⟩
  · have hnames := (hperm.map LocalUser.username).nodup_iff.mpr
      (hnodup.sublist (names_sublist mac (accounts ls)))
    refine ⟨⟨_, ?_⟩, rfl⟩
    rw [List.map_map]
    exact hnames
  · obtain ⟨r, hr, hshown⟩ := (hmem u).mp hu
    obtain ⟨l, hl, haccount⟩ := List.mem_filterMap.mp hr
    cases l with
    | blank blanks => cases haccount
    | account r' =>
      cases haccount
      exact isAdmin_of_current (hls _ hl) hshown h

/-- A service account, a line of blanks, and a person. -/
def someLines : List ListingLine :=
  [.account ⟨"nobody", -2, [], [' ', ' '], []⟩, .blank [' '],
    .account ⟨"alice", 501, [], ['\t'], [' ']⟩]

def someMac : Mac where
  listing := .ok ⟨true, print someLines, ""⟩
  admins := .ok ⟨true, "GroupMembership: root alice\n", ""⟩
  isDir _ := true
  isFile _ := false
  attributes _ := .ok ⟨true, .ok (some fun _ => none), ""⟩

theorem enumerate_lists_alice :
    ∃ users, enumerate someMac = .ok users ∧ ∀ u ∈ users, u.username = "alice" := by
  have hlines : ∀ l ∈ someLines, l.WellFormed := by
    intro l hl
    simp only [someLines, List.mem_cons, List.not_mem_nil, or_false] at hl
    have hwords : ∀ name ∈ ["nobody", "alice"], name.toList.all (!isWhitespace ·) = true := by
      decide
    have hword : ∀ name ∈ ["nobody", "alice"], ∀ c ∈ name.toList, isWhitespace c = false :=
      fun name hname c hc => by simpa using List.all_eq_true.mp (hwords name hname) c hc
    rcases hl with rfl | rfl | rfl
    · exact ⟨by decide, hword _ (by simp), by decide, by decide, by decide, by decide, by decide⟩
    · show Blank [' ']
      decide
    · exact ⟨by decide, hword _ (by simp), by decide, by decide, by decide, by decide, by decide⟩
  obtain ⟨users, henumerate, -, hmem, -⟩ := enumerate_lists someMac someLines "" hlines rfl
  refine ⟨users, henumerate, fun u hu => ?_⟩
  obtain ⟨r, hr, hshown⟩ := (hmem u).mp hu
  rcases List.mem_cons.mp hr with rfl | hr
  · exact absurd hshown.real.1 (by decide)
  · rw [hshown.username, List.mem_singleton.mp hr]

end Users

end Tray
end Konstantin
