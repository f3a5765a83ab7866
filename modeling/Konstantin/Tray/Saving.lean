import Mathlib.Data.List.Induction
import Konstantin.Tray.Configure

/-!
# What a save sends

A save should send what the fields say or refuse.  The minutes of a checked row
that say nothing become `0`, which is refused.  Thresholds that say nothing become
the empty list, which is sent.
-/

namespace Konstantin
namespace Tray

open Toml Text

/-- `ns` is what the thresholds text lists, between commas and white space. -/
def DenotesThresholds (text : String) (ns : List UInt32) : Prop :=
  Separated isSeparator parseU32 text.toList ns

/-- The minutes text is a number of minutes within a day. -/
def DenotesMinutes (text : String) (n : UInt32) : Prop :=
  parseU32 (trim text.toList) = some n ∧ n ≠ 0 ∧ n ≤ 1440

/-- The printer prints the table, and the parser reads it back. -/
def ReadsBack (toml : Parser) (print : Printer) (t : Table) : Prop :=
  ∃ text, print t = .ok text ∧ toml text = some t

def limitEntry (n : UInt32) : Value := .table [("daily_limit_minutes", .integer n.toNat)]

/-- A text that is sent holds the listed thresholds, and a limit for each checked
row and for no one else. -/
def SaysFields (toml : Parser) (h : UiHandle) : SaveFlow → Prop
  | .invalidConfiguration _ => True
  | .setConfig text => ∃ (t : Table) (ns : List UInt32) (users : Table), toml text = some t ∧
      DenotesThresholds h.thresholdsField ns ∧
      t.get "warn_thresholds_minutes" = some (.array (ns.map fun n => .integer n.toNat)) ∧
      t.get "users" = some (.table users) ∧
      (∀ row ∈ h.rows, row.limitCheck = true → ∃ n, DenotesMinutes row.minutesField n ∧
        users.get row.user.username = some (limitEntry n)) ∧
      ∀ name v, users.get name = some v →
        ∃ row ∈ h.rows, row.limitCheck = true ∧ row.user.username = name

/-! ## The thresholds -/

theorem isDigit_not_separator {c : Char} (h : c.isDigit = true) : isSeparator c = false := by
  have hrange := Char.isDigit_iff_toNat.mp h
  have hlow : 48 ≤ c.toNat := hrange.1
  have hhigh : c.toNat ≤ 57 := hrange.2
  have hcomma : (c == ',') = false := by
    refine beq_eq_false_iff_ne.mpr ?_
    rintro rfl
    revert hlow
    decide
  have hspace : isWhitespace c = false := by
    rw [isWhitespace, decide_eq_false_iff_not]
    omega
  rw [isSeparator, hcomma, hspace]
  rfl

theorem solid_parseU32 : Solid isSeparator parseU32 := by
  intro tok n htok
  obtain ⟨m, hm, -⟩ := Option.map_eq_some_iff.mp htok
  obtain ⟨hne, hchars⟩ := chars_of_parseUnsigned hm
  refine ⟨hne, fun c hc => ?_⟩
  rcases hchars c hc with rfl | hdigit
  · decide
  · exact isDigit_not_separator hdigit

theorem trim_of_clear {piece : List Char} (h : ∀ c ∈ piece, isSeparator c = false) :
    trim piece = piece := by
  refine trim_of_no_whitespace fun c hc => ?_
  have hsep := h c hc
  rw [isSeparator, Bool.or_eq_false_iff] at hsep
  exact hsep.2

theorem parsePieces_ok_iff {pieces : List (List Char)} (ns : List UInt32)
    (h : ∀ piece ∈ pieces, ∀ c ∈ piece, isSeparator c = false) :
    parsePieces pieces = .ok ns ↔ readPieces parseU32 pieces = some ns := by
  induction pieces generalizing ns with
  | nil => simp [parsePieces, readPieces]
  | cons piece pieces ih =>
    have hrest := fun ns => ih ns fun p hp => h p (List.mem_cons_of_mem _ hp)
    rw [parsePieces, readPieces, trim_of_clear (h piece List.mem_cons_self)]
    by_cases hpiece : piece = []
    · rw [if_pos hpiece, if_pos hpiece]
      exact hrest ns
    · rw [if_neg hpiece, if_neg hpiece]
      cases parseU32 piece with
      | none => simp
      | some n =>
        simp only [Option.bind_some, Option.map_eq_some_iff]
        constructor
        · intro hok
          cases hp : parsePieces pieces with
          | error e => simp [hp, Except.map] at hok
          | ok ms =>
            simp only [hp, Except.map, Except.ok.injEq] at hok
            exact ⟨ms, (hrest ms).mp hp, hok⟩
        · intro h
          obtain ⟨ms, hms, rfl⟩ := h
          rw [(hrest ms).mpr hms]
          rfl

theorem parseThresholds_ok_iff (text : String) (ns : List UInt32) :
    parseThresholds text = .ok ns ↔ DenotesThresholds text ns := by
  rw [parseThresholds, parsePieces_ok_iff ns fun piece hp => clear_of_mem_splitOnP hp,
    DenotesThresholds, separated_iff solid_parseU32]

/-! ## The rows -/

/-- The checked rows are in range. -/
theorem checkRows_ok_iff (rows : List RowSnapshot) :
    checkRows rows = .ok () ↔ ∀ row ∈ rows, row.limited = true → row.minutes ≠ 0 ∧
      row.minutes ≤ 1440 := by
  induction rows with
  | nil => simp [checkRows]
  | cons row rows ih =>
    rw [checkRows, List.forall_mem_cons, ← ih]
    split
    · rename_i hzero
      simp [hzero.1, hzero.2]
    · rename_i hzero
      split
      · rename_i hlarge
        have hnot : ¬ row.minutes ≤ 1440 := by
          rw [UInt32.not_le]
          exact hlarge.2
        simp [hlarge.1, hnot]
      · rename_i hlarge
        have hrow : row.limited = true → row.minutes ≠ 0 ∧ row.minutes ≤ 1440 := by
          intro hlimited
          refine ⟨fun h => hzero ⟨hlimited, h⟩, ?_⟩
          rw [← UInt32.not_lt]
          exact fun h => hlarge ⟨hlimited, h⟩
        exact (and_iff_right hrow).symm

theorem usersTable_concat (rows : List RowSnapshot) (row : RowSnapshot) :
    usersTable (rows ++ [row]) =
      if row.limited then (usersTable rows).insert row.username (userEntry row)
      else usersTable rows := by
  rw [usersTable, List.foldl_concat]
  rfl

/-- A name has the entry of the last checked row of that name. -/
theorem get_usersTable (rows : List RowSnapshot) (name : String) :
    (usersTable rows).get name =
      (rows.filter fun row => row.limited && row.username == name).getLast?.map userEntry := by
  induction rows using List.reverseRecOn with
  | nil => rfl
  | append_singleton rows row ih =>
    rw [usersTable_concat, List.filter_append]
    by_cases hlimited : row.limited = true
    · rw [if_pos hlimited, Table.get_insert]
      by_cases hname : name = row.username
      · rw [if_pos hname, List.filter_singleton, hlimited, hname]
        simp
      · have hne : (row.username == name) = false := beq_eq_false_iff_ne.mpr (Ne.symm hname)
        rw [if_neg hname, List.filter_singleton, hne, ih]
        simp
    · rw [if_neg hlimited, List.filter_singleton, ih]
      simp [hlimited]

theorem mem_usersTable {rows : List RowSnapshot} {e : String × Value}
    (h : e ∈ usersTable rows) : ∃ row ∈ rows, row.limited = true ∧ e.2 = userEntry row := by
  induction rows using List.reverseRecOn with
  | nil => cases h
  | append_singleton rows row ih =>
    have hkeep : e ∈ usersTable rows →
        ∃ r ∈ rows ++ [row], r.limited = true ∧ e.2 = userEntry r := by
      intro hold
      obtain ⟨r, hr, hrest⟩ := ih hold
      exact ⟨r, List.mem_append_left _ hr, hrest⟩
    rw [usersTable_concat] at h
    split at h
    · rename_i hlimited
      rcases Table.mem_insert h with rfl | hold
      · exact ⟨row, by simp, hlimited, rfl⟩
      · exact hkeep hold
    · exact hkeep h

theorem getD_eq {text : String} :
    (∃ n, DenotesMinutes text n) ↔
      (parseU32 (trim text.toList)).getD 0 ≠ 0 ∧ (parseU32 (trim text.toList)).getD 0 ≤ 1440 := by
  unfold DenotesMinutes
  cases parseU32 (trim text.toList) with
  | none => simp
  | some n => simp

theorem captureRow_ok_iff (row : Row) :
    ((captureRow row).limited = true → (captureRow row).minutes ≠ 0 ∧
      (captureRow row).minutes ≤ 1440) ↔
      (row.limitCheck = true → ∃ n, DenotesMinutes row.minutesField n) :=
  imp_congr_right fun _ => getD_eq.symm

theorem DenotesMinutes.captured {row : Row} {n : UInt32}
    (h : DenotesMinutes row.minutesField n) : (captureRow row).minutes = n := by
  rw [captureRow, h.1, Option.getD_some]

/-! ## What is sent -/

section

variable {toml : Parser} {print : Printer} {h : UiHandle} {t : Table}

theorem saveFlow_of_rows (ht : h.configValue = .table t)
    (hrows : ∀ row ∈ h.rows, row.limitCheck = true → ∃ n, DenotesMinutes row.minutesField n)
    {text : String} (hprint : print (newTable t (captureSnapshot h)) = .ok text) :
    saveFlow print h = .setConfig text := by
  have hcheck : checkRows (captureSnapshot h).rows = .ok () := by
    rw [checkRows_ok_iff]
    intro row hrow
    obtain ⟨r, hr, rfl⟩ := List.mem_map.mp hrow
    exact (captureRow_ok_iff r).mpr (hrows r hr)
  have hvalue : (captureSnapshot h).configValue.asTable = some t := by
    rw [captureSnapshot, ht]
    rfl
  rw [saveFlow, buildNewConfigToml, hcheck]
  simp only [hvalue, hprint]
  rfl

theorem saveFlow_refused {row : Row} (hrow : row ∈ h.rows) (hlimit : row.limitCheck = true)
    (hbad : ¬ ∃ n, DenotesMinutes row.minutesField n) :
    ∃ message, saveFlow print h = .invalidConfiguration message := by
  cases hcheck : checkRows (captureSnapshot h).rows with
  | ok u =>
    have hall := (checkRows_ok_iff _).mp hcheck (captureRow row) (List.mem_map_of_mem hrow)
    exact absurd ((captureRow_ok_iff row).mp hall hlimit) hbad
  | error message =>
    refine ⟨message, ?_⟩
    rw [saveFlow, buildNewConfigToml, hcheck]
    rfl

theorem get_users_checked {row : Row} (hrow : row ∈ h.rows) (hlimit : row.limitCheck = true)
    {n : UInt32} (hn : DenotesMinutes row.minutesField n) :
    (usersTable (captureSnapshot h).rows).get row.user.username = some (limitEntry n) := by
  have hmem : captureRow row ∈ (captureSnapshot h).rows.filter fun r =>
      r.limited && r.username == row.user.username := by
    refine List.mem_filter.mpr ⟨List.mem_map_of_mem hrow, ?_⟩
    simp [captureRow, hlimit]
  rw [get_usersTable, List.getLast?_eq_some_getLast (List.ne_nil_of_mem hmem), Option.map_some]
  -- the last row of that name is this one
  have hlast := List.mem_filter.mp (List.getLast_mem (List.ne_nil_of_mem hmem))
  obtain ⟨other, hother, hcapture⟩ := List.mem_map.mp hlast.1
  have hname : other.user.username = row.user.username := by
    have hboth := hlast.2
    rw [← hcapture] at hboth
    simpa [captureRow] using (Bool.and_eq_true_iff.mp hboth).2
  have hsame : other = row := List.inj_on_of_nodup_map h.distinct hother hrow hname
  rw [← hcapture, hsame, userEntry, hn.captured]
  rfl

theorem checked_of_get_users {name : String} {v : Value}
    (hget : (usersTable (captureSnapshot h).rows).get name = some v) :
    ∃ row ∈ h.rows, row.limitCheck = true ∧ row.user.username = name := by
  rw [get_usersTable] at hget
  obtain ⟨r, hr, -⟩ := Option.map_eq_some_iff.mp hget
  obtain ⟨hmem, hchecked⟩ := List.mem_filter.mp (List.mem_of_getLast? hr)
  obtain ⟨row, hrow, rfl⟩ := List.mem_map.mp hmem
  have hboth := Bool.and_eq_true_iff.mp hchecked
  exact ⟨row, hrow, hboth.1, by simpa [captureRow] using hboth.2⟩

theorem get_newTable_users (t : Table) (snap : Snapshot) :
    (newTable t snap).get "users" = some (.table (usersTable snap.rows)) := by
  rw [newTable, Table.get_insert, if_pos rfl]

theorem get_newTable_thresholds (t : Table) (snap : Snapshot) :
    (newTable t snap).get "warn_thresholds_minutes" =
      some (.array (snap.thresholds.map fun n => .integer n.toNat)) := by
  rw [newTable, Table.get_insert, if_neg (by decide), Table.get_insert, if_pos rfl]

theorem get_newTable_other (t : Table) (snap : Snapshot) {key : String} (husers : key ≠ "users")
    (hwarn : key ≠ "warn_thresholds_minutes") : (newTable t snap).get key = t.get key := by
  rw [newTable, Table.get_insert, if_neg husers, Table.get_insert, if_neg hwarn]

/-- A save sends what the fields say, or refuses, exactly when the thresholds text
is a list of numbers or some checked row has no minutes within a day. -/
theorem saysFields_iff (ht : h.configValue = .table t)
    (hcrate : ReadsBack toml print (newTable t (captureSnapshot h))) :
    SaysFields toml h (saveFlow print h) ↔
      (∃ ns, DenotesThresholds h.thresholdsField ns) ∨
        ∃ row ∈ h.rows, row.limitCheck = true ∧ ¬ ∃ n, DenotesMinutes row.minutesField n := by
  by_cases hrows : ∀ row ∈ h.rows, row.limitCheck = true → ∃ n, DenotesMinutes row.minutesField n
  · obtain ⟨text, hprint, hread⟩ := hcrate
    rw [saveFlow_of_rows ht hrows hprint]
    constructor
    · intro h
      obtain ⟨-, ns, -, -, hns, -⟩ := h
      exact Or.inl ⟨ns, hns⟩
    · rintro (⟨ns, hns⟩ | ⟨row, hrow, hlimit, hbad⟩)
      · have hthresholds : (captureSnapshot h).thresholds = ns := by
          rw [captureSnapshot, (parseThresholds_ok_iff h.thresholdsField ns).mpr hns]
          rfl
        refine ⟨newTable t (captureSnapshot h), ns, usersTable (captureSnapshot h).rows, hread,
          hns, ?_, get_newTable_users t _, fun row hrow hlimit => ?_,
          fun name v hget => checked_of_get_users hget⟩
        · rw [get_newTable_thresholds, hthresholds]
        · obtain ⟨n, hn⟩ := hrows row hrow hlimit
          exact ⟨n, hn, get_users_checked hrow hlimit hn⟩
      · exact absurd (hrows row hrow hlimit) hbad
  · obtain ⟨row, hrow, hlimit, hbad⟩ : ∃ row ∈ h.rows, row.limitCheck = true ∧
        ¬ ∃ n, DenotesMinutes row.minutesField n := by simpa using hrows
    have hflow : ∃ message, saveFlow print h = .invalidConfiguration message :=
      saveFlow_refused hrow hlimit hbad
    obtain ⟨message, hrefused⟩ := hflow
    rw [hrefused]
    exact ⟨fun _ => Or.inr ⟨row, hrow, hlimit, hbad⟩, fun _ => trivial⟩

end

/-! ## Two saves -/

def savedText (thresholds : String) : String :=
  "tick_seconds = 5\nwarn_thresholds_minutes = " ++ thresholds ++
    "\n\n[users.alice]\ndaily_limit_minutes = 60\n"

def savedTable (thresholds : List Value) : Table :=
  [("tick_seconds", .integer 5), ("users", .table [("alice", limitEntry 60)]),
    ("warn_thresholds_minutes", .array thresholds)]

def fifteen : List Value := [.integer 15, .integer 5, .integer 1]

/-- The printer on the two tables of the saves below. -/
def samplePrinter : Printer := fun t =>
  match t.get "warn_thresholds_minutes" with
  | some (.array []) => .ok (savedText "[]")
  | _ => .ok (savedText "[\n    15,\n    5,\n    1,\n]")

def sampleParser : Parser := fun text =>
  if text = savedText "[]" then some (savedTable [])
  else if text = savedText "[\n    15,\n    5,\n    1,\n]" then some (savedTable fifteen)
  else none

def sampleWindow (thresholds : String) : UiHandle where
  configValue := .table [("tick_seconds", .integer 5)]
  rows := [⟨⟨"alice"⟩, true, " 60 "⟩, ⟨⟨"bob"⟩, false, "soon"⟩]
  thresholdsField := thresholds
  distinct := by decide

theorem saysFields_iff_alice :
    SaysFields sampleParser (sampleWindow "15,5 +1")
        (saveFlow samplePrinter (sampleWindow "15,5 +1")) ↔
      (∃ ns, DenotesThresholds (sampleWindow "15,5 +1").thresholdsField ns) ∨
        ∃ row ∈ (sampleWindow "15,5 +1").rows, row.limitCheck = true ∧
          ¬ ∃ n, DenotesMinutes row.minutesField n :=
  saysFields_iff (t := [("tick_seconds", .integer 5)]) rfl
    ⟨savedText "[\n    15,\n    5,\n    1,\n]", rfl, rfl⟩

/-- Thresholds that are no numbers are saved as no thresholds. -/
theorem saysFields_fails :
    ¬ SaysFields sampleParser (sampleWindow "15, abc, 1")
      (saveFlow samplePrinter (sampleWindow "15, abc, 1")) := by
  have hflow : saveFlow samplePrinter (sampleWindow "15, abc, 1") =
      .setConfig (savedText "[]") := by decide +kernel
  rw [hflow]
  intro h
  obtain ⟨t, ns, users, -, hns, -⟩ := h
  have hparse := (parseThresholds_ok_iff "15, abc, 1" ns).mpr hns
  have herror : (parseThresholds "15, abc, 1").isOk = false := by decide +kernel
  rw [hparse] at herror
  cases herror

end Tray
end Konstantin
