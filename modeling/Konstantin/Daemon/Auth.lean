import Mathlib.Data.Finset.Dedup
import Mathlib.Data.Finset.Lattice.Lemmas
import Konstantin.Daemon.Control
import Konstantin.Text.Lines

/-!
# Who is an operator

`crates/daemon/src/control/auth.rs`.  The members of the admin group are read from
what `dscl` prints of it.  `section` says in which lines they are looked for: from
the first header on, up to a line that is blank or has a colon and is no header.
-/

namespace Konstantin
namespace Daemon

open Text

/-- The names in a piece of text. -/
def names (cs : List Char) : Finset String := ((words cs).map String.ofList).toFinset

def membershipLabel : String := "GroupMembership:"

/-- The loop of `parse_admin_members`. -/
def collectMembers : List (List Char) → Finset String → Bool → Finset String
  | [], out, _ => out
  | line :: rest, out, inMembers =>
    match behindLabel membershipLabel line with
    | some behind => collectMembers rest (out ∪ names behind) true
    | none =>
      if inMembers then
        let trimmed := trim line
        if trimmed = [] ∨ ':' ∈ trimmed then out
        else collectMembers rest (out ∪ names trimmed) inMembers
      else collectMembers rest out inMembers

def parseAdminMembers (stdout : String) : Finset String :=
  collectMembers (lines stdout.toList) ∅ false

/-- What a run of `dscl` leaves. -/
structure DsclOutput where
  success : Bool
  stdout : String
  stderr : String

/-- Errors carry the outermost message. -/
def adminMembers : Except String DsclOutput → Except String (Finset String)
  | .error _ => .error "reading admin group membership"
  | .ok output =>
    if output.success then .ok (parseAdminMembers output.stdout)
    else .error ("dscl admin group lookup failed: " ++ output.stderr)

def resolveUsername (uid : UInt32) : Except String (Option String) → Except String String
  | .error _ => .error "looking up uid"
  | .ok none => .error ("uid " ++ toString uid.toNat ++ " does not resolve to a local user")
  | .ok (some name) => .ok name

/-- The operator behind a uid, given what the lookups answer. -/
def operatorFromUid (lookup : Except String (Option String)) (dscl : Except String DsclOutput)
    (uid : UInt32) : Operator :=
  match resolveUsername uid lookup with
  | .ok username =>
    if uid = 0 then ⟨uid, username, true, "root"⟩
    else
      match adminMembers dscl with
      | .ok admins =>
        if username ∈ admins then ⟨uid, username, true, "admin group member"⟩
        else ⟨uid, username, false, "user is not in the local admin group"⟩
      | .error e => ⟨uid, username, false, "could not read local admin group: " ++ e⟩
  | .error e => ⟨uid, "uid:" ++ toString uid.toNat, false, e⟩

/-! ## The lines that are read -/

/-- The names a line lists. -/
def listed (line : List Char) : Finset String :=
  names ((behindLabel membershipLabel line).getD line)

def listedIn (ls : List (List Char)) : Finset String := (ls.map listed).foldr (· ∪ ·) ∅

def isHeader (line : List Char) : Bool := (behindLabel membershipLabel line).isSome

/-- A line that ends the section. -/
def endsMembers (line : List Char) : Bool :=
  !isHeader line && (decide (trim line = []) || decide (':' ∈ trim line))

def fromHeader (ls : List (List Char)) : List (List Char) := ls.dropWhile fun l => !isHeader l

theorem names_trim (line : List Char) : names (trim line) = names line := by
  rw [names, words_trim, names]

theorem listed_of_header {line behind : List Char}
    (h : behindLabel membershipLabel line = some behind) : listed line = names behind := by
  rw [listed, h, Option.getD_some]

theorem listed_of_not_header {line : List Char} (h : behindLabel membershipLabel line = none) :
    listed line = names line := by
  rw [listed, h, Option.getD_none]

theorem listedIn_cons (line : List Char) (ls : List (List Char)) :
    listedIn (line :: ls) = listed line ∪ listedIn ls := rfl

theorem listedIn_append (ls ms : List (List Char)) :
    listedIn (ls ++ ms) = listedIn ls ∪ listedIn ms := by
  induction ls with
  | nil => exact (Finset.empty_union _).symm
  | cons line ls ih => rw [List.cons_append, listedIn_cons, listedIn_cons, ih, Finset.union_assoc]

/-- Inside the section the loop takes what the lines list, up to its end. -/
theorem collectMembers_inside (ls : List (List Char)) (out : Finset String) :
    collectMembers ls out true = out ∪ listedIn (ls.takeWhile fun l => !endsMembers l) := by
  induction ls generalizing out with
  | nil => exact (Finset.union_empty out).symm
  | cons line ls ih =>
    rw [List.takeWhile_cons]
    cases hlabel : behindLabel membershipLabel line with
    | some behind =>
      have hends : endsMembers line = false := by rw [endsMembers, isHeader, hlabel]; rfl
      rw [hends, collectMembers, hlabel]
      dsimp only
      rw [ih, if_pos (by rfl), listedIn_cons, listed_of_header hlabel, Finset.union_assoc]
    | none =>
      have hends : endsMembers line = (decide (trim line = []) || decide (':' ∈ trim line)) := by
        rw [endsMembers, isHeader, hlabel]
        rfl
      rw [collectMembers, hlabel]
      dsimp only
      rw [if_pos rfl]
      by_cases hend : trim line = [] ∨ ':' ∈ trim line
      · have hstop : endsMembers line = true := by
          rw [hends]
          simpa using hend
        rw [if_pos hend, hstop]
        exact (Finset.union_empty out).symm
      · have hgo : endsMembers line = false := by
          rw [hends]
          simpa using hend
        rw [if_neg hend, hgo, ih, if_pos (by rfl), listedIn_cons, listed_of_not_header hlabel,
          names_trim, Finset.union_assoc]

/-- A loop that passes over the lines before the first header, and takes a header
the same outside the section and in it. -/
theorem outside_eq {β : Type} {f : List (List Char) → β → Bool → β}
    (hnil : ∀ out, f [] out false = f [] out true)
    (hskip : ∀ line ls out, behindLabel membershipLabel line = none →
      f (line :: ls) out false = f ls out false)
    (hheader : ∀ line behind ls out, behindLabel membershipLabel line = some behind →
      f (line :: ls) out false = f (line :: ls) out true) (ls : List (List Char)) (out : β) :
    f ls out false = f (fromHeader ls) out true := by
  induction ls with
  | nil => exact hnil out
  | cons line ls ih =>
    rw [fromHeader, List.dropWhile_cons]
    cases hlabel : behindLabel membershipLabel line with
    | some behind =>
      have hfirst : isHeader line = true := by rw [isHeader, hlabel]; rfl
      rw [hfirst, if_neg (by decide), hheader line behind ls out hlabel]
    | none =>
      have hfirst : isHeader line = false := by rw [isHeader, hlabel]; rfl
      rw [hfirst, if_pos (by rfl), hskip line ls out hlabel]
      exact ih

/-- The members are those listed from the first header up to the end of the section. -/
theorem parseAdminMembers_eq (stdout : String) :
    parseAdminMembers stdout =
      listedIn ((fromHeader (lines stdout.toList)).takeWhile fun l => !endsMembers l) := by
  rw [parseAdminMembers, outside_eq (f := collectMembers) (fun _ => rfl)
    (fun line ls out hlabel => by rw [collectMembers, hlabel]; rfl)
    (fun line behind ls out hlabel => by rw [collectMembers, collectMembers, hlabel]),
    collectMembers_inside, Finset.empty_union]

theorem allowed_iff {lookup : Except String (Option String)} {dscl : Except String DsclOutput}
    {uid : UInt32} {username : String} (huid : uid ≠ 0)
    (hname : resolveUsername uid lookup = .ok username) :
    (operatorFromUid lookup dscl uid).allowed = true ↔
      ∃ admins, adminMembers dscl = .ok admins ∧ username ∈ admins := by
  rw [operatorFromUid, hname]
  dsimp only
  rw [if_neg huid]
  cases adminMembers dscl with
  | error e => simp
  | ok admins =>
    dsimp only
    by_cases hmem : username ∈ admins <;> simp [hmem]

end Daemon
end Konstantin
