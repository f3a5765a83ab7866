import Konstantin.Fs.Tree
import Konstantin.Toml

/-!
# The daemon's configuration

`crates/daemon/src/config.rs`: the record read from `config.toml`, its defaults,
and the checks made on it.  The users table is kept in the order in which the
daemon's map happens to list it, since `validate` reports the first bad entry it
meets.
-/

namespace Konstantin
namespace Daemon

open Fs Toml

def saturatingMul (a b : UInt32) : UInt32 := UInt32.ofNat (min (a.toNat * b.toNat) (2 ^ 32 - 1))

theorem toNat_saturatingMul (a b : UInt32) :
    (saturatingMul a b).toNat = min (a.toNat * b.toNat) (2 ^ 32 - 1) := by
  rw [saturatingMul, UInt32.toNat_ofNat']
  exact Nat.mod_eq_of_lt (by omega)

structure UserConfig where
  dailyLimitMinutes : UInt32
  deriving DecidableEq

inductive DefaultPolicy where
  | unrestricted
  | block
  deriving DecidableEq

inductive Enforcement where
  | log
  | logout
  deriving DecidableEq

structure Config where
  socketPath : Path
  statePath : Path
  tickSeconds : UInt32
  warnThresholdsMinutes : List UInt32
  defaultPolicy : DefaultPolicy
  enforcement : Enforcement
  killSwitchPath : Path
  users : AList fun _ : String => UserConfig
  deriving DecidableEq

namespace Config

def defaultSocketPath : Path := Path.parse "/var/run/screentimed.sock"

def defaultStatePath : Path := Path.parse "/var/db/screentimed/state.json"

def defaultTickSeconds : UInt32 := 5

def defaultWarnThresholds : List UInt32 := [15, 5, 1]

def defaultKillSwitchPath : Path := Path.parse "/etc/screentimed/disable"

end Config

def DefaultPolicy.variant : String → Option DefaultPolicy
  | "unrestricted" => some .unrestricted
  | "block" => some .block
  | _ => none

def Enforcement.variant : String → Option Enforcement
  | "log" => some .log
  | "logout" => some .logout
  | _ => none

/-- The derived deserializer, which takes a table or an array. -/
def UserConfig.deserialize (v : Value) : Option UserConfig := do
  let minutes ← v.asRecord "daily_limit_minutes" Value.asU32
  return { dailyLimitMinutes := minutes }

namespace Config

def path (v : Value) : Option Path := v.asString.map Path.parse

/-- The derived deserializer.  Keys it does not know are ignored. -/
def deserialize (t : Table) : Option Config := do
  let socketPath ← t.getOr "socket_path" defaultSocketPath path
  let statePath ← t.getOr "state_path" defaultStatePath path
  let tickSeconds ← t.getOr "tick_seconds" defaultTickSeconds Value.asU32
  let warnThresholdsMinutes ←
    t.getOr "warn_thresholds_minutes" defaultWarnThresholds (Value.asArray Value.asU32)
  let defaultPolicy ←
    t.getOr "default_policy" .unrestricted (Value.asVariant DefaultPolicy.variant)
  let enforcement ← t.getOr "enforcement" .log (Value.asVariant Enforcement.variant)
  let killSwitchPath ← t.getOr "kill_switch_path" defaultKillSwitchPath path
  let users ← t.getOr "users" ∅ (Value.asMap UserConfig.deserialize)
  return { socketPath, statePath, tickSeconds, warnThresholdsMinutes, defaultPolicy, enforcement,
           killSwitchPath, users }

/-- The first check that fails, with its message. -/
def validate (cfg : Config) : Except String Unit :=
  if cfg.tickSeconds = 0 then .error "tick_seconds must be > 0"
  else
    match cfg.users.entries.find? fun e => e.2.dailyLimitMinutes = 0 with
    | some e => .error ("user " ++ e.1 ++ ": daily_limit_minutes must be > 0")
    | none => .ok ()

def parseToml (toml : Parser) (text : String) : Except String Config :=
  match (toml text).bind deserialize with
  | none => .error "parsing config TOML"
  | some cfg => (validate cfg).map fun _ => cfg

def load (toml : Parser) (path : Path) (fs : FileSystem) : Except String Config :=
  match fs.atPath path FileSystem.readToString with
  | .error _ => .error ("reading config file " ++ path.display)
  | .ok text => parseToml toml text

def userByName (cfg : Config) (name : String) : Option UserConfig := cfg.users.lookup name

/-- A user's daily allowance in seconds, as `decide` and `compute_status` both
compute it. -/
def limitSeconds (u : UserConfig) : UInt32 := saturatingMul u.dailyLimitMinutes 60

/-! ## What a configuration that was accepted satisfies -/

theorem validate_ok_iff (cfg : Config) :
    cfg.validate = .ok () ↔
      cfg.tickSeconds ≠ 0 ∧ ∀ e ∈ cfg.users.entries, e.2.dailyLimitMinutes ≠ 0 := by
  unfold validate
  by_cases ht : cfg.tickSeconds = 0
  · simp [ht]
  · rw [if_neg ht]
    cases h : cfg.users.entries.find? fun e => decide (e.2.dailyLimitMinutes = 0) with
    | none =>
      rw [List.find?_eq_none] at h
      simpa [ht] using h
    | some e =>
      have hzero := List.find?_some h
      have hmem := List.mem_of_find?_eq_some h
      simp only [reduceCtorEq, false_iff, not_and, not_forall]
      intro _
      exact ⟨e, hmem, by simpa using hzero⟩

/-- Each field is read from its own key. -/
theorem deserialize_eq_some_iff (t : Table) (cfg : Config) :
    deserialize t = some cfg ↔
      t.getOr "socket_path" defaultSocketPath path = some cfg.socketPath ∧
      t.getOr "state_path" defaultStatePath path = some cfg.statePath ∧
      t.getOr "tick_seconds" defaultTickSeconds Value.asU32 = some cfg.tickSeconds ∧
      t.getOr "warn_thresholds_minutes" defaultWarnThresholds (Value.asArray Value.asU32) =
        some cfg.warnThresholdsMinutes ∧
      t.getOr "default_policy" .unrestricted (Value.asVariant DefaultPolicy.variant) =
        some cfg.defaultPolicy ∧
      t.getOr "enforcement" .log (Value.asVariant Enforcement.variant) = some cfg.enforcement ∧
      t.getOr "kill_switch_path" defaultKillSwitchPath path = some cfg.killSwitchPath ∧
      t.getOr "users" ∅ (Value.asMap UserConfig.deserialize) = some cfg.users := by
  obtain ⟨socketPath, statePath, tickSeconds, warn, policy, enforcement, killSwitchPath, users⟩ :=
    cfg
  simp only [deserialize, Option.bind_eq_bind, Option.bind_eq_some_iff, Option.pure_def,
    Option.some.injEq, mk.injEq]
  constructor
  · rintro ⟨_, h₁, _, h₂, _, h₃, _, h₄, _, h₅, _, h₆, _, h₇, _, h₈, rfl, rfl, rfl, rfl, rfl, rfl,
      rfl, rfl⟩
    exact ⟨h₁, h₂, h₃, h₄, h₅, h₆, h₇, h₈⟩
  · intro h
    obtain ⟨h₁, h₂, h₃, h₄, h₅, h₆, h₇, h₈⟩ := h
    exact ⟨_, h₁, _, h₂, _, h₃, _, h₄, _, h₅, _, h₆, _, h₇, _, h₈, rfl, rfl, rfl, rfl, rfl, rfl,
      rfl, rfl⟩

theorem parseToml_ok_iff (toml : Parser) (text : String) (cfg : Config) :
    parseToml toml text = .ok cfg ↔
      (∃ t, toml text = some t ∧ deserialize t = some cfg) ∧ cfg.validate = .ok () := by
  unfold parseToml
  cases h : (toml text).bind deserialize with
  | none =>
    rw [Option.bind_eq_none_iff] at h
    refine ⟨fun hok => (by cases hok), fun ⟨⟨t, ht, hcfg⟩, _⟩ => ?_⟩
    rw [h t ht] at hcfg
    cases hcfg
  | some other =>
    obtain ⟨t, ht, hother⟩ := Option.bind_eq_some_iff.mp h
    constructor
    · intro hok
      cases hv : other.validate with
      | error e => simp [hv, Except.map] at hok
      | ok u =>
        simp only [hv, Except.map, Except.ok.injEq] at hok
        subst hok
        exact ⟨⟨t, ht, hother⟩, hv⟩
    · intro h
      obtain ⟨⟨t', ht', hcfg⟩, hv⟩ := h
      rw [ht] at ht'
      cases ht'
      rw [hother] at hcfg
      cases hcfg
      show cfg.validate.map (fun _ => cfg) = .ok cfg
      rw [hv]
      rfl

/-- What the empty document stands for. -/
def defaults : Config where
  socketPath := defaultSocketPath
  statePath := defaultStatePath
  tickSeconds := defaultTickSeconds
  warnThresholdsMinutes := defaultWarnThresholds
  defaultPolicy := .unrestricted
  enforcement := .log
  killSwitchPath := defaultKillSwitchPath
  users := ∅

theorem deserialize_nil : deserialize [] = some defaults := rfl

/-- Every default passes the check on its field. -/
theorem validate_defaults : defaults.validate = .ok () := rfl

end Config

end Daemon
end Konstantin
