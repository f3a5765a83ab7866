import Konstantin.Tray.Rebuilding

/-!
# Open, then save

What the settings window makes of a config text the daemon accepts, when it is
saved as it was opened.  The window shows the accounts of the machine and allows
at most a day, so it keeps the users it shows, drops the others, and refuses a
longer limit.  What it keeps is the limit that it shows, which is that of the text
where the entry of the user is a table.
-/

namespace Konstantin
namespace Tray

open Toml Text Daemon

/-! ## The thresholds field -/

theorem parseU32_toString (n : UInt32) : parseU32 (toString (n.toNat : Int)).toList = some n := by
  have hdigits : (toString (n.toNat : Int)).toList = Nat.toDigits 10 n.toNat := by
    show (toString n.toNat).toList = _
    rw [Nat.toString_eq_ofList_toDigits, String.toList_ofList]
  rw [hdigits, parseU32, parseUnsigned_toDigits n.toNat_lt, Option.map_some, UInt32.ofNat_toNat]

theorem denotes_intercalate (ns : List UInt32) :
    DenotesThresholds (", ".intercalate (ns.map fun n => toString (n.toNat : Int))) ns := by
  unfold DenotesThresholds
  induction ns with
  | nil => exact .nil
  | cons n ns ih =>
    cases ns with
    | nil =>
      rw [List.map_cons, List.map_nil, String.intercalate_singleton,
        ← List.append_nil (toString _).toList]
      exact .item (parseU32_toString n) (Or.inl rfl) .nil
    | cons m ns =>
      rw [List.map_cons, List.map_cons, String.intercalate_cons_cons, String.toList_append,
        String.toList_append, List.append_assoc]
      exact .item (parseU32_toString n) (Or.inr ⟨',', _, rfl, by decide⟩)
        (.separator (by decide) (.separator (by decide) ih))

theorem asU32_eq_some {v : Value} {n : UInt32} (h : v.asU32 = some n) :
    v.asInteger = some (n.toNat : Int) := by
  unfold Value.asU32 at h
  split at h
  · rename_i i
    split at h
    · rename_i hrange
      obtain rfl := Option.some.inj h
      have hlt : i.toNat < 2 ^ 32 := by omega
      rw [Value.asInteger, UInt32.toNat_ofNat_of_lt' hlt, Int.toNat_of_nonneg hrange.1]
    · cases h
  · cases h

theorem filterMap_asInteger {items : List Value} {ns : List UInt32}
    (h : items.mapM Value.asU32 = some ns) :
    items.filterMap Value.asInteger = ns.map fun n => (n.toNat : Int) := by
  induction items generalizing ns with
  | nil =>
    cases h
    rfl
  | cons v items ih =>
    rw [List.mapM_cons] at h
    obtain ⟨n, hn, hrest⟩ := Option.bind_eq_some_iff.mp h
    obtain ⟨ms, hms, hcons⟩ := Option.bind_eq_some_iff.mp hrest
    cases hcons
    rw [List.filterMap_cons_some (asU32_eq_some hn), ih hms, List.map_cons]

/-- The field lists the thresholds that the daemon goes by. -/
theorem denotes_currentThresholds {t : Table} {ns : List UInt32}
    (h : t.getOr "warn_thresholds_minutes" Config.defaultWarnThresholds
      (Value.asArray Value.asU32) = some ns) :
    DenotesThresholds (currentThresholds (.table t)) ns := by
  unfold Table.getOr at h
  cases hget : t.get "warn_thresholds_minutes" with
  | none =>
    rw [hget] at h
    cases h
    have htext : currentThresholds (.table t) = "15, 5, 1" := by
      simp [currentThresholds, Value.asTable, hget]
    rw [htext, ← parseThresholds_ok_iff]
    rfl
  | some v =>
    rw [hget] at h
    cases v with
    | array items =>
      have hitems : items.mapM Value.asU32 = some ns := h
      have htext : currentThresholds (.table t) =
          ", ".intercalate (ns.map fun n => toString (n.toNat : Int)) := by
        have hfield : ((Value.table t).asTable.bind fun t =>
            t.get "warn_thresholds_minutes").bind Value.items = some items := by
          simp [Value.asTable, hget, Value.items]
        rw [currentThresholds, hfield]
        dsimp only
        rw [filterMap_asInteger hitems, List.map_map]
        rfl
      rw [htext]
      exact denotes_intercalate ns
    | _ => cases h

/-! ## The rows -/

/-- What the users table of a document has for a name. -/
def configuredEntry (t : Table) (name : String) : Option Value :=
  ((t.get "users").bind Value.asTable).bind fun users => users.get name

theorem rows_openWindow (t : Table) (accounts : Accounts) :
    (openWindow (.table t) accounts).rows =
      accounts.users.map fun u =>
        buildRow u (initialUserSetting (configuredEntry t u.username)) :=
  zipWith_buildRow accounts.users (.table t)

theorem configuredEntry_cases {t : Table} {users : AList fun _ : String => UserConfig}
    (h : t.getOr "users" ∅ (Value.asMap UserConfig.deserialize) = some users) (name : String) :
    (configuredEntry t name = none ∧ users.lookup name = none) ∨
      ∃ v limit, configuredEntry t name = some v ∧ UserConfig.deserialize v = some limit ∧
        users.lookup name = some limit := by
  unfold Table.getOr at h
  unfold configuredEntry
  cases hget : t.get "users" with
  | none =>
    rw [hget] at h
    cases h
    exact Or.inl ⟨rfl, AList.lookup_empty name⟩
  | some v =>
    rw [hget] at h
    cases v with
    | table entries => exact Value.lookup_asMap h name
    | _ => cases h

theorem initialUserSetting_table {entries : Table} {limit : UserConfig}
    (h : UserConfig.deserialize (.table entries) = some limit)
    (hne : limit.dailyLimitMinutes ≠ 0) :
    initialUserSetting (some (.table entries)) = ⟨true, limit.dailyLimitMinutes⟩ := by
  obtain ⟨minutes, hminutes, hlimit⟩ := Option.bind_eq_some_iff.mp h
  cases hlimit
  obtain ⟨w, hw, hread⟩ := Option.bind_eq_some_iff.mp hminutes
  have hentry : ((some (Value.table entries)).bind Value.asTable).bind (fun t =>
      (t.get "daily_limit_minutes").bind Value.asInteger) = some (minutes.toNat : Int) := by
    rw [Option.bind_some, Value.asTable, Option.bind_some, hw, Option.bind_some,
      asU32_eq_some hread]
  have hpos : minutes.toNat ≠ 0 := fun hzero => hne (UInt32.toNat_inj.mp hzero)
  have hmax : max (minutes.toNat : Int) 1 = (minutes.toNat : Int) := by omega
  have hcast : UInt32.ofInt (minutes.toNat : Int) = minutes := by
    have hlt := minutes.toNat_lt
    rw [UInt32.ofInt, Int.emod_eq_of_lt (by omega) (by omega), Int.toNat_natCast,
      UInt32.ofNat_toNat]
  rw [initialUserSetting, hentry, Option.elim_some, hmax, hcast]
  rfl

/-- The limit that the row of a name shows when the window opens on a document. -/
def shownLimit (t : Table) (name : String) : Option UserConfig :=
  (configuredEntry t name).map fun v => ⟨(initialUserSetting (some v)).minutes⟩

/-- The row of an account: checked with the limit it shows, or not checked. -/
theorem buildRow_shown (t : Table) (u : LocalUser) :
    buildRow u (initialUserSetting (configuredEntry t u.username)) =
      match shownLimit t u.username with
      | some limit => ⟨u, true, toString limit.dailyLimitMinutes.toNat⟩
      | none => ⟨u, false, "60"⟩ := by
  unfold shownLimit
  cases configuredEntry t u.username <;> rfl

theorem parseU32_trim_toString (m : UInt32) :
    parseU32 (trim (toString m.toNat).toList) = some m := by
  have hdigits : (toString m.toNat).toList = (toString (m.toNat : Int)).toList := rfl
  have hclear := (solid_parseU32 _ _ (parseU32_toString m)).2
  rw [hdigits, trim_of_clear hclear, parseU32_toString]

theorem denotesMinutes_toString (m n : UInt32) :
    DenotesMinutes (toString m.toNat) n ↔ n = m ∧ m ≠ 0 ∧ m ≤ 1440 := by
  rw [DenotesMinutes, parseU32_trim_toString, Option.some.injEq]
  constructor
  · intro h
    obtain ⟨rfl, hne, hle⟩ := h
    exact ⟨rfl, hne, hle⟩
  · intro h
    obtain ⟨rfl, hne, hle⟩ := h
    exact ⟨rfl, hne, hle⟩

/-! ## A document the daemon accepts, and the window on it -/

structure Opened (t : Table) (cfg : Config) : Prop where
  deserialized : Config.deserialize t = some cfg
  valid : cfg.validate = .ok ()

section

variable {t : Table} {cfg : Config} {accounts : Accounts}

theorem Opened.limit_ne_zero (h : Opened t cfg) {name : String} {limit : UserConfig}
    (hlimit : cfg.users.lookup name = some limit) : limit.dailyLimitMinutes ≠ 0 := by
  have hentry : (⟨name, limit⟩ : Sigma fun _ : String => UserConfig) ∈ cfg.users.entries :=
    AList.mem_lookup_iff.mp hlimit
  exact ((Config.validate_ok_iff cfg).mp h.valid).2 _ hentry

theorem Opened.users (h : Opened t cfg) :
    t.getOr "users" ∅ (Value.asMap UserConfig.deserialize) = some cfg.users :=
  ((Config.deserialize_eq_some_iff t cfg).mp h.deserialized).2.2.2.2.2.2.2

/-- A configured user has a row that shows a limit; an entry that is an array shows
an hour. -/
theorem Opened.shown (h : Opened t cfg) (name : String) :
    (shownLimit t name = none ∧ cfg.users.lookup name = none) ∨
      ∃ shown limit, shownLimit t name = some shown ∧ cfg.users.lookup name = some limit ∧
        shown.dailyLimitMinutes ≠ 0 ∧
        ∀ entries, configuredEntry t name = some (.table entries) → shown = limit := by
  unfold shownLimit
  rcases configuredEntry_cases h.users name with ⟨hnone, hlookup⟩ |
    ⟨v, limit, hsome, hread, hlookup⟩
  · left
    rw [hnone]
    exact ⟨rfl, hlookup⟩
  · right
    have hlimit := h.limit_ne_zero hlookup
    rw [hsome]
    cases v with
    | table entries =>
      have hrow := initialUserSetting_table hread hlimit
      refine ⟨limit, limit, ?_, hlookup, hlimit, fun _ _ => rfl⟩
      rw [Option.map_some, hrow]
    | array items =>
      refine ⟨⟨60⟩, limit, rfl, hlookup, by decide, fun entries hentry => ?_⟩
      cases hentry
    | _ => cases hread

theorem Opened.shown_ne_zero (h : Opened t cfg) {name : String} {limit : UserConfig}
    (hlimit : shownLimit t name = some limit) : limit.dailyLimitMinutes ≠ 0 := by
  rcases h.shown name with ⟨hnone, -⟩ | ⟨shown, limit', hshown, -, hne, -⟩
  · rw [hnone] at hlimit
    cases hlimit
  · rw [hshown] at hlimit
    cases hlimit
    exact hne

/-- The row of a user whose entry is a table shows the limit the daemon goes by. -/
theorem Opened.shown_table (h : Opened t cfg) {name : String} {entries : Table}
    (hentry : configuredEntry t name = some (.table entries)) :
    shownLimit t name = cfg.users.lookup name := by
  rcases h.shown name with ⟨hnone, hlookup⟩ | ⟨shown, limit, hshown, hlookup, -, hsame⟩
  · rw [hnone, hlookup]
  · rw [hshown, hlookup, hsame entries hentry]

/-- The checked rows are those of the accounts that show a limit. -/
theorem mem_rows_checked {row : Row} (hlimit : row.limitCheck = true) :
    row ∈ (openWindow (.table t) accounts).rows ↔
      row.user ∈ accounts.users ∧ ∃ limit, shownLimit t row.user.username = some limit ∧
        row.minutesField = toString limit.dailyLimitMinutes.toNat := by
  rw [rows_openWindow, List.mem_map]
  constructor
  · intro h
    obtain ⟨u, hu, rfl⟩ := h
    rw [buildRow_shown] at hlimit ⊢
    cases hshown : shownLimit t u.username with
    | none =>
      rw [hshown] at hlimit
      cases hlimit
    | some limit => exact ⟨hu, limit, hshown, rfl⟩
  · intro h
    obtain ⟨hu, limit, hshown, hfield⟩ := h
    refine ⟨row.user, hu, ?_⟩
    obtain ⟨user, limitCheck, minutesField⟩ := row
    have hshown : shownLimit t user.username = some limit := hshown
    rw [buildRow_shown, hshown]
    cases hlimit
    cases hfield
    rfl

/-! ## What is saved -/

/-- No row of an account shows more than a day. -/
def WithinDay (t : Table) (accounts : Accounts) : Prop :=
  ∀ u ∈ accounts.users, ∀ limit, shownLimit t u.username = some limit →
    limit.dailyLimitMinutes ≤ 1440

theorem Opened.denotes_iff (h : Opened t cfg) :
    (∀ row ∈ (openWindow (.table t) accounts).rows, row.limitCheck = true →
      ∃ n, DenotesMinutes row.minutesField n) ↔ WithinDay t accounts := by
  constructor
  · intro hrows u hu limit hshown
    have hrow : (⟨u, true, toString limit.dailyLimitMinutes.toNat⟩ : Row) ∈
        (openWindow (.table t) accounts).rows :=
      (mem_rows_checked rfl).mpr ⟨hu, limit, hshown, rfl⟩
    obtain ⟨n, hn⟩ := hrows _ hrow rfl
    exact ((denotesMinutes_toString _ n).mp hn).2.2
  · intro hday row hrow hlimit
    obtain ⟨hu, limit, hshown, hfield⟩ := (mem_rows_checked hlimit).mp hrow
    rw [hfield]
    exact ⟨_, (denotesMinutes_toString _ _).mpr
      ⟨rfl, h.shown_ne_zero hshown, hday row.user hu limit hshown⟩⟩

/-- The users of the saved document are the configured ones among the accounts, with
the limits their rows show. -/
theorem Opened.lookup_saved (h : Opened t cfg) (hday : WithinDay t accounts) (name : String) :
    (lastChecked (captureSnapshot (openWindow (.table t) accounts)).rows name).map
        (fun row => (⟨row.minutes⟩ : UserConfig)) =
      if name ∈ accounts.users.map LocalUser.username then shownLimit t name else none := by
  have hsaved : ∀ u ∈ accounts.users, ∀ limit, shownLimit t u.username = some limit →
      (usersTable (captureSnapshot (openWindow (.table t) accounts)).rows).get u.username =
        some (limitEntry limit.dailyLimitMinutes) := by
    intro u hu limit hshown
    have hrow : (⟨u, true, toString limit.dailyLimitMinutes.toNat⟩ : Row) ∈
        (openWindow (.table t) accounts).rows :=
      (mem_rows_checked rfl).mpr ⟨hu, limit, hshown, rfl⟩
    exact get_users_checked hrow rfl ((denotesMinutes_toString _ _).mpr
      ⟨rfl, h.shown_ne_zero hshown, hday u hu limit hshown⟩)
  have hget : (usersTable (captureSnapshot (openWindow (.table t) accounts)).rows).get name =
      (lastChecked (captureSnapshot (openWindow (.table t) accounts)).rows name).map userEntry :=
    get_usersTable _ name
  cases hlast : lastChecked (captureSnapshot (openWindow (.table t) accounts)).rows name with
  | none =>
    rw [hlast] at hget
    rw [Option.map_none]
    split
    · rename_i hname
      obtain ⟨u, hu, rfl⟩ := List.mem_map.mp hname
      cases hshown : shownLimit t u.username with
      | none => rfl
      | some limit =>
        rw [hsaved u hu limit hshown] at hget
        cases hget
    · rfl
  | some last =>
    rw [hlast, Option.map_some] at hget
    obtain ⟨row, hrow, hlimited, rfl⟩ := checked_of_get_users hget
    obtain ⟨hu, limit, hshown, -⟩ := (mem_rows_checked hlimited).mp hrow
    rw [hsaved row.user hu limit hshown] at hget
    have hentry : limitEntry limit.dailyLimitMinutes = limitEntry last.minutes :=
      Option.some.inj hget
    have hread := deserialize_limitEntry last.minutes
    rw [← hentry, deserialize_limitEntry] at hread
    rw [Option.map_some, if_pos (List.mem_map_of_mem hu), hshown, ← hread]

theorem Opened.saved (h : Opened t cfg) (hday : WithinDay t accounts) :
    ∃ cfg', Opened (newTable t (captureSnapshot (openWindow (.table t) accounts))) cfg' ∧
      cfg' = { cfg with users := cfg'.users } ∧
      ∀ name, cfg'.users.lookup name =
        if name ∈ accounts.users.map LocalUser.username then shownLimit t name else none := by
  obtain ⟨users, hnew, hlast⟩ := deserialize_newTable
    (captureSnapshot (openWindow (.table t) accounts)) h.deserialized
  have hthresholds : (captureSnapshot (openWindow (.table t) accounts)).thresholds =
      cfg.warnThresholdsMinutes := by
    obtain ⟨-, -, -, hwarn, -⟩ := (Config.deserialize_eq_some_iff t cfg).mp h.deserialized
    have hfield := (parseThresholds_ok_iff _ _).mpr (denotes_currentThresholds hwarn)
    rw [captureSnapshot, openWindow, hfield]
    rfl
  rw [hthresholds] at hnew
  have hlookup : ∀ name, users.lookup name =
      if name ∈ accounts.users.map LocalUser.username then shownLimit t name else none :=
    fun name => (hlast name).trans (h.lookup_saved hday name)
  refine ⟨{ cfg with users := users }, ⟨hnew, ?_⟩, rfl, hlookup⟩
  rw [Config.validate_ok_iff]
  refine ⟨((Config.validate_ok_iff cfg).mp h.valid).1, fun e he => ?_⟩
  have hentry : users.lookup e.1 = some e.2 := AList.mem_lookup_iff.mpr he
  rw [hlookup e.1] at hentry
  split at hentry
  · exact h.shown_ne_zero hentry
  · cases hentry

/-- The text that is sent parses to the same policy. -/
def ChangesNothing (toml : Parser) (cfg : Config) : SaveFlow → Prop
  | .invalidConfiguration _ => False
  | .setConfig text => ∃ cfg', Config.parseToml toml text = .ok cfg' ∧
      cfg' = { cfg with users := cfg'.users } ∧
      ∀ name, cfg'.users.lookup name = cfg.users.lookup name

theorem Opened.refused (h : Opened t cfg) (hlong : ¬ WithinDay t accounts)
    (print : Printer) :
    ∃ message, saveFlow print (openWindow (.table t) accounts) = .invalidConfiguration message := by
  rw [← h.denotes_iff] at hlong
  obtain ⟨row, hrow, hlimit, hbad⟩ : ∃ row ∈ (openWindow (.table t) accounts).rows,
      row.limitCheck = true ∧ ¬ ∃ n, DenotesMinutes row.minutesField n := by simpa using hlong
  exact saveFlow_refused hrow hlimit hbad

theorem Opened.sent {toml : Parser} {print : Printer} (h : Opened t cfg)
    (hday : WithinDay t accounts)
    (hcrate : ReadsBack toml print
      (newTable t (captureSnapshot (openWindow (.table t) accounts)))) :
    ∃ saved cfg', saveFlow print (openWindow (.table t) accounts) = .setConfig saved ∧
      Config.parseToml toml saved = .ok cfg' ∧ cfg' = { cfg with users := cfg'.users } ∧
      ∀ name, cfg'.users.lookup name =
        if name ∈ accounts.users.map LocalUser.username then shownLimit t name else none := by
  obtain ⟨saved, hprint, hread⟩ := hcrate
  obtain ⟨cfg', hopened, hsame, hlookup⟩ := h.saved hday
  refine ⟨saved, cfg', saveFlow_of_rows rfl (h.denotes_iff.mpr hday) hprint, ?_, hsame, hlookup⟩
  rw [Config.parseToml_ok_iff]
  exact ⟨⟨_, hread, hopened.deserialized⟩, hopened.valid⟩

/-- Every configured user is an account whose row shows the limit, which is within a
day. -/
def ShowsAll (t : Table) (cfg : Config) (accounts : Accounts) : Prop :=
  ∀ name limit, cfg.users.lookup name = some limit →
    name ∈ accounts.users.map LocalUser.username ∧ shownLimit t name = some limit ∧
      limit.dailyLimitMinutes ≤ 1440

theorem Opened.changesNothing_iff {toml : Parser} {print : Printer} (h : Opened t cfg)
    (hcrate : ReadsBack toml print
      (newTable t (captureSnapshot (openWindow (.table t) accounts)))) :
    ChangesNothing toml cfg (saveFlow print (openWindow (.table t) accounts)) ↔
      ShowsAll t cfg accounts := by
  constructor
  · intro hsame name limit hlimit
    by_cases hday : WithinDay t accounts
    · obtain ⟨saved, cfg', hflow, hparse, -, hlookup⟩ := h.sent hday hcrate
      rw [hflow] at hsame
      obtain ⟨cfg'', hparse', -, hkept⟩ := hsame
      rw [hparse] at hparse'
      cases hparse'
      have hname := (hlookup name).symm.trans ((hkept name).trans hlimit)
      split at hname
      · rename_i hmem
        obtain ⟨u, hu, rfl⟩ := List.mem_map.mp hmem
        exact ⟨hmem, hname, hday u hu limit hname⟩
      · cases hname
    · obtain ⟨message, hflow⟩ := h.refused hday print
      rw [hflow] at hsame
      exact hsame.elim
  · intro hall
    have hday : WithinDay t accounts := by
      intro u _ limit hshown
      rcases h.shown u.username with ⟨hnone, -⟩ | ⟨shown, limit', -, hlookup, -, -⟩
      · rw [hnone] at hshown
        cases hshown
      · obtain ⟨-, hsame, hle⟩ := hall _ _ hlookup
        rw [hshown] at hsame
        cases hsame
        exact hle
    obtain ⟨saved, cfg', hflow, hparse, hsame, hlookup⟩ := h.sent hday hcrate
    rw [hflow]
    refine ⟨cfg', hparse, hsame, fun name => ?_⟩
    rw [hlookup name]
    rcases h.shown name with ⟨hnone, hlimit⟩ | ⟨shown, limit, -, hlimit, -, -⟩
    · rw [hnone, hlimit, ite_self]
    · obtain ⟨hmem, hshown, -⟩ := hall name limit hlimit
      rw [if_pos hmem, hshown, hlimit]

/-- A window saved as it was opened changes nothing exactly when it shows every
configured user with the limit of the text, within a day.  Where the row of an account
shows more it is refused, and otherwise it keeps all but the users who are no accounts,
each account with what its row shows: the limit of the text where that is in a table. -/
theorem save_unedited {toml : Parser} {print : Printer} {text : String}
    (hcfg : Config.parseToml toml text = .ok cfg) (ht : toml text = some t)
    (hcrate : ReadsBack toml print
      (newTable t (captureSnapshot (openWindow (.table t) accounts)))) :
    (ChangesNothing toml cfg (saveFlow print (openWindow (.table t) accounts)) ↔
        ShowsAll t cfg accounts) ∧
      (¬ WithinDay t accounts → ∃ message,
        saveFlow print (openWindow (.table t) accounts) = .invalidConfiguration message) ∧
      (WithinDay t accounts → ∃ saved cfg',
        saveFlow print (openWindow (.table t) accounts) = .setConfig saved ∧
          Config.parseToml toml saved = .ok cfg' ∧ cfg' = { cfg with users := cfg'.users } ∧
          ∀ name, cfg'.users.lookup name =
            if name ∈ accounts.users.map LocalUser.username then shownLimit t name
            else none) ∧
      ∀ name entries, configuredEntry t name = some (.table entries) →
        shownLimit t name = cfg.users.lookup name := by
  obtain ⟨⟨t', ht', hdeserialized⟩, hvalid⟩ := (Config.parseToml_ok_iff toml text cfg).mp hcfg
  rw [ht] at ht'
  cases ht'
  have h : Opened t cfg := ⟨hdeserialized, hvalid⟩
  exact ⟨h.changesNothing_iff hcrate, fun hlong => h.refused hlong print,
    fun hday => h.sent hday hcrate, fun _ _ => h.shown_table⟩

end

/-! ## Two machines -/

def aliceText : String := "[users.alice]\ndaily_limit_minutes = 30\n"

def aliceTable : Table := [("users", .table [("alice", limitEntry 30)])]

def aliceConfig : Config :=
  { Config.defaults with users := List.toAList [⟨"alice", ⟨30⟩⟩] }

def reopenedText (users : String) : String :=
  "warn_thresholds_minutes = [\n    15,\n    5,\n    1,\n]\n\n[users" ++ users

def reopenedTable (users : Table) : Table :=
  [("users", .table users), ("warn_thresholds_minutes", .array fifteen)]

/-- The printer on the documents saved below. -/
def reopenedPrinter : Printer := fun t =>
  match t.get "users" with
  | some (.table []) => .ok (reopenedText "]\n")
  | _ => .ok (reopenedText ".alice]\ndaily_limit_minutes = 30\n")

def reopenedParser : Parser := fun text =>
  if text = aliceText then some aliceTable
  else if text = reopenedText "]\n" then some (reopenedTable [])
  else if text = reopenedText ".alice]\ndaily_limit_minutes = 30\n" then
    some (reopenedTable [("alice", limitEntry 30)])
  else none

def accountsOf (name : String) : Accounts where
  users := [⟨name⟩]
  distinct := List.nodup_singleton name

theorem save_unedited_alice :
    ChangesNothing reopenedParser aliceConfig
      (saveFlow reopenedPrinter (openWindow (.table aliceTable) (accountsOf "alice"))) := by
  have hcfg : Config.parseToml reopenedParser aliceText = .ok aliceConfig := rfl
  refine (save_unedited hcfg rfl ⟨_, rfl, rfl⟩).1.mpr fun name limit hlimit => ?_
  have hentry : (⟨name, limit⟩ : Sigma fun _ : String => UserConfig) ∈
      aliceConfig.users.entries := AList.mem_lookup_iff.mp hlimit
  cases List.mem_singleton.mp hentry
  exact ⟨by decide, rfl, by decide⟩

/-- A configured user whom the machine does not list is dropped. -/
theorem save_unedited_drops :
    ¬ ChangesNothing reopenedParser aliceConfig
      (saveFlow reopenedPrinter (openWindow (.table aliceTable) (accountsOf "bob"))) := by
  have hflow : saveFlow reopenedPrinter (openWindow (.table aliceTable) (accountsOf "bob")) =
      .setConfig (reopenedText "]\n") := by decide +kernel
  have hparse : Config.parseToml reopenedParser (reopenedText "]\n") = .ok Config.defaults := rfl
  rw [hflow]
  intro h
  obtain ⟨cfg', hcfg', -, hlookup⟩ := h
  rw [hparse] at hcfg'
  cases hcfg'
  have halice := hlookup "alice"
  revert halice
  decide +kernel

end Tray
end Konstantin
