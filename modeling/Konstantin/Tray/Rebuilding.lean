import Konstantin.Daemon.Config
import Konstantin.Tray.Saving

/-!
# What the daemon reads of a save

The window edits two keys of an untyped table, and the daemon reads the printed
text back with typed fields and checks of its own.
-/

namespace Konstantin
namespace Tray

open Toml Text Daemon

theorem asU32_integer (n : UInt32) : (Value.integer n.toNat).asU32 = some n := by
  have hlt := n.toNat_lt
  rw [Value.asU32, if_pos (by omega), Int.toNat_natCast, UInt32.ofNat_toNat]

theorem mapM_asU32 (ns : List UInt32) :
    (ns.map fun n => Value.integer n.toNat).mapM Value.asU32 = some ns := by
  induction ns with
  | nil => rfl
  | cons n ns ih =>
    rw [List.map_cons, List.mapM_cons, asU32_integer, ih]
    rfl

theorem deserialize_limitEntry (n : UInt32) :
    UserConfig.deserialize (limitEntry n) = some ⟨n⟩ := by
  have hread : (limitEntry n).asRecord "daily_limit_minutes" Value.asU32 = some n := by
    rw [limitEntry, Value.asRecord, Table.require, Table.get_cons, if_pos rfl, Option.bind_some,
      asU32_integer]
  rw [UserConfig.deserialize, hread]
  rfl

/-- The last checked row of a name. -/
def lastChecked (rows : List RowSnapshot) (name : String) : Option RowSnapshot :=
  (rows.filter fun row => row.limited && row.username == name).getLast?

theorem checked_of_lastChecked {rows : List RowSnapshot} {name : String} {row : RowSnapshot}
    (h : lastChecked rows name = some row) :
    row ∈ rows ∧ row.limited = true ∧ row.username = name := by
  obtain ⟨hmem, hchecked⟩ := List.mem_filter.mp (List.mem_of_getLast? h)
  obtain ⟨hlimited, hname⟩ := Bool.and_eq_true_iff.mp hchecked
  exact ⟨hmem, hlimited, eq_of_beq hname⟩

theorem asMap_usersTable (rows : List RowSnapshot) :
    ∃ users, Value.asMap UserConfig.deserialize (.table (usersTable rows)) = some users ∧
      ∀ name, users.lookup name = (lastChecked rows name).map fun row => ⟨row.minutes⟩ := by
  obtain ⟨users, husers⟩ : ∃ users,
      Value.asMap UserConfig.deserialize (.table (usersTable rows)) = some users := by
    refine Value.asMap_isSome fun e he => ?_
    obtain ⟨row, -, -, hentry⟩ := mem_usersTable he
    rw [hentry]
    exact Option.isSome_iff_exists.mpr ⟨_, deserialize_limitEntry row.minutes⟩
  refine ⟨users, husers, fun name => ?_⟩
  have hget : (usersTable rows).get name = (lastChecked rows name).map userEntry :=
    get_usersTable rows name
  rcases Value.lookup_asMap husers name with ⟨hnone, hlookup⟩ | ⟨v, a, hsome, hread, hlookup⟩
  · rw [hnone] at hget
    rw [hlookup, Option.map_eq_none_iff.mp hget.symm, Option.map_none]
  · rw [hsome] at hget
    obtain ⟨row, hrow, rfl⟩ := Option.map_eq_some_iff.mp hget.symm
    have hentry : UserConfig.deserialize (userEntry row) = some ⟨row.minutes⟩ :=
      deserialize_limitEntry row.minutes
    rw [hentry] at hread
    cases hread
    rw [hlookup, hrow, Option.map_some]

section

variable {t : Table} {cfg : Config} {snap : Snapshot}

/-- The rebuilt table is read like the one it was rebuilt from, but for the two
keys of the window. -/
theorem deserialize_newTable (snap : Snapshot) (h : Config.deserialize t = some cfg) :
    ∃ users, Config.deserialize (newTable t snap) =
        some { cfg with users := users, warnThresholdsMinutes := snap.thresholds } ∧
      ∀ name, users.lookup name = (lastChecked snap.rows name).map fun row => ⟨row.minutes⟩ := by
  obtain ⟨users, husers, hlookup⟩ := asMap_usersTable snap.rows
  refine ⟨users, ?_, hlookup⟩
  obtain ⟨h₁, h₂, h₃, -, h₅, h₆, h₇, -⟩ := (Config.deserialize_eq_some_iff t cfg).mp h
  have hother : ∀ {α : Type} {key : String} (default : α) (read : Value → Option α),
      key ≠ "users" → key ≠ "warn_thresholds_minutes" →
      (newTable t snap).getOr key default read = t.getOr key default read :=
    fun default read hkey hwarn =>
      Table.getOr_congr (get_newTable_other t snap hkey hwarn) default read
  rw [Config.deserialize_eq_some_iff]
  refine ⟨?_, ?_, ?_, ?_, ?_, ?_, ?_, ?_⟩
  · rw [hother _ _ (by decide) (by decide), h₁]
  · rw [hother _ _ (by decide) (by decide), h₂]
  · rw [hother _ _ (by decide) (by decide), h₃]
  · rw [Table.getOr, get_newTable_thresholds]
    exact mapM_asU32 snap.thresholds
  · rw [hother _ _ (by decide) (by decide), h₅]
  · rw [hother _ _ (by decide) (by decide), h₆]
  · rw [hother _ _ (by decide) (by decide), h₇]
  · rw [Table.getOr, get_newTable_users]
    exact husers

theorem validate_rebuilt {users : AList fun _ : String => UserConfig}
    (hvalid : cfg.validate = .ok ()) (hcheck : checkRows snap.rows = .ok ())
    (hlookup : ∀ name,
      users.lookup name = (lastChecked snap.rows name).map fun row => ⟨row.minutes⟩) :
    Config.validate { cfg with users := users, warnThresholdsMinutes := snap.thresholds } =
      .ok () := by
  rw [Config.validate_ok_iff]
  refine ⟨((Config.validate_ok_iff cfg).mp hvalid).1, fun e he => ?_⟩
  have hentry : users.lookup e.1 = some e.2 := AList.mem_lookup_iff.mpr he
  rw [hlookup] at hentry
  obtain ⟨row, hrow, hminutes⟩ := Option.map_eq_some_iff.mp hentry
  obtain ⟨hmem, hlimited, -⟩ := checked_of_lastChecked hrow
  rw [← hminutes]
  exact ((checkRows_ok_iff snap.rows).mp hcheck row hmem hlimited).1

theorem checkRows_error_iff (rows : List RowSnapshot) :
    (∃ message, checkRows rows = .error message) ↔
      ∃ row ∈ rows, row.limited = true ∧ (row.minutes = 0 ∨ 1440 < row.minutes) := by
  have hok := checkRows_ok_iff rows
  cases hcheck : checkRows rows with
  | ok u =>
    have hall := hok.mp hcheck
    constructor
    · intro h
      obtain ⟨message, hmessage⟩ := h
      cases hmessage
    · intro h
      obtain ⟨row, hrow, hlimited, hbad⟩ := h
      obtain ⟨hne, hle⟩ := hall row hrow hlimited
      rcases hbad with hzero | hlong
      · exact absurd hzero hne
      · exact absurd hle (UInt32.not_le.mpr hlong)
  | error message =>
    refine ⟨fun _ => ?_, fun _ => ⟨message, rfl⟩⟩
    by_contra hnone
    have hall : checkRows rows = .ok () := by
      refine hok.mpr fun row hrow hlimited => ⟨fun hzero => ?_, ?_⟩
      · exact hnone ⟨row, hrow, hlimited, Or.inl hzero⟩
      · rw [← UInt32.not_lt]
        exact fun hlong => hnone ⟨row, hrow, hlimited, Or.inr hlong⟩
    rw [hcheck] at hall
    cases hall

theorem buildNewConfigToml_error_iff {toml : Parser} {print : Printer}
    (hsnap : snap.configValue = .table t) (hcrate : ReadsBack toml print (newTable t snap)) :
    (∃ message, buildNewConfigToml print snap = .error message) ↔
      ∃ message, checkRows snap.rows = .error message := by
  obtain ⟨text, hprint, -⟩ := hcrate
  have htable : snap.configValue.asTable = some t := by
    rw [hsnap]
    rfl
  rw [buildNewConfigToml]
  cases checkRows snap.rows with
  | ok u =>
    simp only [htable, hprint]
    constructor
    · intro h
      obtain ⟨message, hmessage⟩ := h
      cases hmessage
    · intro h
      obtain ⟨message, hmessage⟩ := h
      cases hmessage
  | error message => exact ⟨fun _ => ⟨message, rfl⟩, fun _ => ⟨message, rfl⟩⟩

theorem buildNewConfigToml_of_checked {print : Printer} {text : String}
    (hsnap : snap.configValue = .table t) (hcheck : checkRows snap.rows = .ok ())
    (hprint : print (newTable t snap) = .ok text) :
    buildNewConfigToml print snap = .ok text := by
  have htable : snap.configValue.asTable = some t := by
    rw [hsnap]
    rfl
  rw [buildNewConfigToml, hcheck]
  simp only [htable, hprint]
  rfl

/-- The daemon accepts what is saved, and finds the checked rows and the thresholds
in it and everything else as it was.  Only minutes that are out of range are
refused. -/
theorem rebuilt_accepted {toml : Parser} {print : Printer} {text : String}
    (hcfg : Config.parseToml toml text = .ok cfg) (ht : toml text = some t)
    (hsnap : snap.configValue = .table t) (hcrate : ReadsBack toml print (newTable t snap)) :
    ((∃ message, buildNewConfigToml print snap = .error message) ↔
        ∃ row ∈ snap.rows, row.limited = true ∧ (row.minutes = 0 ∨ 1440 < row.minutes)) ∧
      ∀ saved, buildNewConfigToml print snap = .ok saved →
        (∃ users, Config.parseToml toml saved =
            .ok { cfg with users := users, warnThresholdsMinutes := snap.thresholds } ∧
          ∀ name, users.lookup name =
            (lastChecked snap.rows name).map fun row => ⟨row.minutes⟩) ∧
        ∃ t', toml saved = some t' ∧ ∀ key, key ≠ "users" → key ≠ "warn_thresholds_minutes" →
          t'.get key = t.get key := by
  refine ⟨(buildNewConfigToml_error_iff hsnap hcrate).trans (checkRows_error_iff snap.rows), ?_⟩
  intro saved hsaved
  obtain ⟨printed, hprint, hread⟩ := hcrate
  obtain ⟨⟨t', ht', hdeserialized⟩, hvalid⟩ := (Config.parseToml_ok_iff toml text cfg).mp hcfg
  rw [ht] at ht'
  cases ht'
  cases hcheck : checkRows snap.rows with
  | error message =>
    rw [buildNewConfigToml, hcheck] at hsaved
    cases hsaved
  | ok u =>
    rw [buildNewConfigToml_of_checked hsnap hcheck hprint] at hsaved
    cases hsaved
    refine ⟨?_, newTable t snap, hread, fun key => get_newTable_other t snap⟩
    obtain ⟨users, hnew, hlookup⟩ := deserialize_newTable snap hdeserialized
    refine ⟨users, ?_, hlookup⟩
    rw [Config.parseToml_ok_iff]
    exact ⟨⟨newTable t snap, hread, hnew⟩, validate_rebuilt hvalid hcheck hlookup⟩

end

/-! ## A config with a key of a later version -/

def laterText : String := "enforcement = \"logout\"\nquiet_hours = \"22-06\"\n"

def laterTable : Table := [("enforcement", .string "logout"), ("quiet_hours", .string "22-06")]

def laterConfig : Config := { Config.defaults with enforcement := .logout }

/-- Two rows of one name, of which the last is the one that is saved. -/
def laterSnapshot : Snapshot where
  thresholds := [10, 2]
  rows := [⟨"alice", true, 30⟩, ⟨"bob", false, 0⟩, ⟨"alice", true, 45⟩]
  configValue := .table laterTable

def rebuiltText : String :=
  "enforcement = \"logout\"\nquiet_hours = \"22-06\"\nwarn_thresholds_minutes = [\n    10,\n" ++
    "    2,\n]\n\n[users.alice]\ndaily_limit_minutes = 45\n"

def rebuiltTable : Table :=
  [("enforcement", .string "logout"), ("quiet_hours", .string "22-06"),
    ("users", .table [("alice", limitEntry 45)]),
    ("warn_thresholds_minutes", .array [.integer 10, .integer 2])]

def laterParser : Parser := fun text =>
  if text = laterText then some laterTable
  else if text = rebuiltText then some rebuiltTable
  else none

theorem rebuilt_accepted_alice :
    ∃ users, Config.parseToml laterParser rebuiltText =
        .ok { laterConfig with users := users, warnThresholdsMinutes := [10, 2] } ∧
      users.lookup "alice" = some ⟨45⟩ ∧ users.lookup "bob" = none := by
  have hcfg : Config.parseToml laterParser laterText = .ok laterConfig := rfl
  have hprinted : buildNewConfigToml (fun _ => .ok rebuiltText) laterSnapshot =
      .ok rebuiltText := rfl
  have hsnap : laterSnapshot.configValue = .table laterTable := rfl
  obtain ⟨users, hparse, hlookup⟩ :=
    ((rebuilt_accepted hcfg rfl hsnap ⟨rebuiltText, rfl, rfl⟩).2 rebuiltText hprinted).1
  exact ⟨users, hparse, hlookup "alice", hlookup "bob"⟩

end Tray
end Konstantin
