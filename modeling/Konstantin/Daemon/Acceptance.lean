import Konstantin.Daemon.Atomicity
import Konstantin.Daemon.Pause
import Konstantin.Daemon.Room

/-!
# Which configurations each request accepts

Six paths look at a configuration text: two requests that are given one, four
that read the config file, and the startup of the daemon.  Some of them parse
and validate it, some of them look at `kill_switch_path` as well, and a pause has to
make a file there.  A text that passes the first and not the others is one that the
daemon runs on and the admin channel refuses.
-/

namespace Konstantin
namespace Daemon

open Fs Toml Effect Proto

namespace Controller

def Succeeds (toml : Parser) (c : Controller) (operator : Operator) (w : World)
    (req : AdminRequest) : Prop := (c.handle toml operator req w).1.refused = false

instance (toml : Parser) (c : Controller) (operator : Operator) (w : World)
    (req : AdminRequest) : Decidable (c.Succeeds toml operator w req) :=
  inferInstanceAs (Decidable (_ = false))

/-- The text is accepted by all six paths or by none, on the machine on which it is
given and on one whose config file holds it. -/
def AcceptsSame (toml : Parser) (seedText : String) (c : Controller) (operator : Operator)
    (w w' : World) (text : String) : Prop :=
  ((c.handle toml operator (.validateConfig text) w).1 = .validationOk ↔
      c.Succeeds toml operator w (.setConfig text)) ∧
    (w'.fs.atPath c.configPath FileSystem.readToString = .ok text →
      ((c.Succeeds toml operator w' .getConfig ∧ c.Succeeds toml operator w' .getEnforcementState ∧
          (∀ paused, c.Succeeds toml operator w' (.setEnforcementPaused paused)) ∧
            c.Succeeds toml operator w' .reloadDaemon) ↔
        ((Config.loadOrSeed toml seedText c.configPath).outcome w'.fs).1.isOk = true) ∧
      (c.Succeeds toml operator w' .getConfig → ∃ paused path,
        (c.handle toml operator .getConfig w').1 = .config text paused path))

/-- Nothing stands in the way of a new config file. -/
def ConfigClear (c : Controller) (w : World) : Prop :=
  Clear (tmpPath c.pid c.configPath "toml") c.configPath w.fs

/-- Nothing stands in the way of the marker. -/
def MarkerClear (c : Controller) (w : World) (cfg : Config) : Prop :=
  Clear (tmpPath c.pid cfg.killSwitchPath "marker") cfg.killSwitchPath w.fs

instance (c : Controller) (w : World) : Decidable (c.ConfigClear w) :=
  inferInstanceAs (Decidable (Clear _ _ _))

instance (c : Controller) (w : World) (cfg : Config) : Decidable (c.MarkerClear w cfg) :=
  inferInstanceAs (Decidable (Clear _ _ _))

theorem accepted_map_iff (cfg : Config) {f : Path → AdminResponse}
    (h : ∀ p, (f p).refused = false) :
    (reply ((validateKillSwitchPath cfg.killSwitchPath).map f)).refused = false ↔ Valid cfg := by
  rw [Valid]
  cases validateKillSwitchPath cfg.killSwitchPath with
  | error e => exact ⟨fun hr => (by cases hr), fun hr => by cases hr⟩
  | ok p => exact ⟨fun _ => rfl, fun _ => h p⟩

theorem exists_ok_iff (cfg : Config) :
    (∃ cfg', (Except.ok cfg : Except String Config) = .ok cfg' ∧ Valid cfg') ↔ Valid cfg :=
  ⟨fun ⟨_, h, hvalid⟩ => Except.ok.inj h ▸ hvalid, fun h => ⟨cfg, rfl, h⟩⟩

section

variable {toml : Parser} {c : Controller} {operator : Operator} {w : World} {text : String}

theorem validationOk_iff (hallowed : operator.allowed = true) :
    (c.handle toml operator (.validateConfig text) w).1 = .validationOk ↔
      ∃ cfg, Config.parseToml toml text = .ok cfg := by
  rw [handle_allowed toml c hallowed, handleAuthorized, Fallible.outcome_bind,
    Fallible.outcome_query]
  cases Config.parseToml toml text with
  | error e =>
    constructor
    · intro h
      cases h
    · intro h
      obtain ⟨cfg, h⟩ := h
      cases h
  | ok cfg => exact ⟨fun _ => ⟨cfg, rfl⟩, fun _ => rfl⟩

/-- A request that looks at a text first succeeds when it parses and the rest does. -/
theorem accepted_query {q : World → Except String Config}
    {k : Config → Fallible World AdminResponse} {p : Config → Prop}
    (hk : ∀ cfg, q w = .ok cfg → ((reply ((k cfg).outcome w).1).refused = false ↔ p cfg)) :
    (reply ((Fallible.query q >>= k).outcome w).1).refused = false ↔
      ∃ cfg, q w = .ok cfg ∧ p cfg := by
  rw [Fallible.outcome_bind, Fallible.outcome_query]
  cases hq : q w with
  | error e =>
    constructor
    · intro h
      cases h
    · intro h
      obtain ⟨cfg, h, -⟩ := h
      cases h
  | ok cfg =>
    constructor
    · intro h
      exact ⟨cfg, rfl, (hk cfg hq).mp h⟩
    · intro h
      obtain ⟨cfg', h, hp⟩ := h
      cases h
      exact (hk cfg hq).mpr hp

/-- A request that changes the files next succeeds when that passes and the rest does. -/
theorem accepted_onFiles {x : Fallible FileSystem Unit} {w : World}
    {k : Unit → Fallible World AdminResponse} {p : Prop}
    (hk : (x.outcome w.fs).1 = .ok () →
      ((reply ((k ()).outcome { w with fs := (x.outcome w.fs).2 }).1).refused = false ↔ p)) :
    (reply ((onFiles x >>= k).outcome w).1).refused = false ↔
      (x.outcome w.fs).1 = .ok () ∧ p := by
  rw [Fallible.outcome_bind, outcome_onFiles]
  cases hr : (x.outcome w.fs).1 with
  | error e => exact ⟨fun h => (by cases h), fun h => by cases h.1⟩
  | ok u => exact (hk hr).trans (and_iff_right rfl).symm

/-- A request that tells the state of the switch needs a valid place of it. -/
theorem accepted_paused (cfg : Config) (w : World) {f : Bool → AdminResponse}
    (hf : ∀ paused, (f paused).refused = false) :
    (reply ((onFiles (killSwitchPaused cfg) >>= fun paused => pure (f paused)).outcome w).1).refused
        = false ↔ Valid cfg := by
  rw [Fallible.outcome_bind, outcome_paused, Valid]
  cases validateKillSwitchPath cfg.killSwitchPath with
  | error e => exact ⟨fun h => (by cases h), fun h => by cases h⟩
  | ok p => exact ⟨fun _ => rfl, fun _ => hf _⟩

theorem setConfig_succeeds_iff (hallowed : operator.allowed = true) :
    c.Succeeds toml operator w (.setConfig text) ↔
      ∃ cfg, Config.parseToml toml text = .ok cfg ∧ c.ConfigClear w ∧ Valid cfg := by
  rw [Succeeds, handle_allowed toml c hallowed, handleAuthorized]
  refine accepted_query fun cfg hparse => ?_
  rw [ConfigClear, clear_iff_room, ← writeConfigAtomic_ok_iff c.pid c.configPath text]
  refine accepted_onFiles fun hwrite => ?_
  rw [Fallible.outcome_bind, outcome_kickstart]
  exact accepted_paused cfg _ fun _ => rfl

theorem load_holds (hread : w.fs.atPath c.configPath FileSystem.readToString = .ok text) :
    Config.load toml c.configPath w.fs = Config.parseToml toml text := by
  rw [Config.load, hread]

theorem getConfig_reply (hallowed : operator.allowed = true)
    (hread : w.fs.atPath c.configPath FileSystem.readToString = .ok text) :
    (c.handle toml operator .getConfig w).1 =
      match Config.parseToml toml text with
      | .error message => .error message
      | .ok cfg => reply ((validateKillSwitchPath cfg.killSwitchPath).map fun _ =>
          .config text (w.fs.pathFound cfg.killSwitchPath) cfg.killSwitchPath) := by
  rw [handle_allowed toml c hallowed, handleAuthorized, Fallible.outcome_bind,
    Fallible.outcome_query, hread]
  dsimp only [Except.mapError]
  rw [Fallible.outcome_bind, Fallible.outcome_query]
  cases Config.parseToml toml text with
  | error e => rfl
  | ok cfg =>
    dsimp only
    rw [Fallible.outcome_bind, outcome_paused]
    cases validateKillSwitchPath cfg.killSwitchPath <;> rfl

theorem getConfig_succeeds_iff (hallowed : operator.allowed = true)
    (hread : w.fs.atPath c.configPath FileSystem.readToString = .ok text) :
    c.Succeeds toml operator w .getConfig ↔
      ∃ cfg, Config.parseToml toml text = .ok cfg ∧ Valid cfg := by
  rw [Succeeds, getConfig_reply hallowed hread]
  cases Config.parseToml toml text with
  | error e =>
    constructor
    · intro h
      cases h
    · intro h
      obtain ⟨cfg, h, -⟩ := h
      cases h
  | ok cfg => exact (accepted_map_iff cfg fun _ => rfl).trans (exists_ok_iff cfg).symm

theorem getConfig_text (hallowed : operator.allowed = true)
    (hread : w.fs.atPath c.configPath FileSystem.readToString = .ok text)
    (h : c.Succeeds toml operator w .getConfig) :
    ∃ paused path, (c.handle toml operator .getConfig w).1 = .config text paused path := by
  obtain ⟨cfg, hparse, hvalid⟩ := (getConfig_succeeds_iff hallowed hread).mp h
  simp only [getConfig_reply hallowed hread, hparse]
  cases hpath : validateKillSwitchPath cfg.killSwitchPath with
  | error e =>
    rw [Valid, hpath] at hvalid
    cases hvalid
  | ok p => exact ⟨_, _, rfl⟩

theorem getEnforcementState_succeeds_iff (hallowed : operator.allowed = true)
    (hread : w.fs.atPath c.configPath FileSystem.readToString = .ok text) :
    c.Succeeds toml operator w .getEnforcementState ↔
      ∃ cfg, Config.parseToml toml text = .ok cfg ∧ Valid cfg := by
  rw [Succeeds, handle_allowed toml c hallowed, handleAuthorized, loadConfig, ← load_holds hread]
  exact accepted_query fun cfg _ => accepted_paused cfg w fun _ => rfl

/-- A change of the switch passes where its own calls do. -/
theorem setEnforcementPaused_isOk_iff (cfg : Config) (paused : Bool) (fs : FileSystem) :
    ((Daemon.setEnforcementPaused c.pid cfg paused).outcome fs).1 = .ok () ↔
      Valid cfg ∧ ((if paused then writeMarkerAtomic c.pid cfg.killSwitchPath
        else removeFileIfExists cfg.killSwitchPath).outcome fs).1 = .ok () := by
  rw [Daemon.setEnforcementPaused, Fallible.outcome_bind, Fallible.outcome_query, Valid]
  cases hvalid : validateKillSwitchPath cfg.killSwitchPath with
  | error e => exact ⟨fun h => (by cases h), fun h => by cases h.1⟩
  | ok p =>
    obtain rfl := validateKillSwitchPath_ok hvalid
    exact (and_iff_right rfl).symm

theorem setEnforcementPaused_succeeds_iff (hallowed : operator.allowed = true)
    (hread : w.fs.atPath c.configPath FileSystem.readToString = .ok text) (paused : Bool) :
    c.Succeeds toml operator w (.setEnforcementPaused paused) ↔
      ∃ cfg, Config.parseToml toml text = .ok cfg ∧
        ((Daemon.setEnforcementPaused c.pid cfg paused).outcome w.fs).1 = .ok () := by
  rw [Succeeds, handle_allowed toml c hallowed, handleAuthorized, loadConfig, ← load_holds hread]
  refine accepted_query fun cfg hload => ?_
  exact (accepted_onFiles fun _ => iff_true_intro rfl).trans (and_iff_left trivial)

/-- Both changes of the switch pass exactly where the marker can be made. -/
theorem setEnforcementPaused_both_iff (cfg : Config) (w : World) :
    (∀ paused, ((Daemon.setEnforcementPaused c.pid cfg paused).outcome w.fs).1 = .ok ()) ↔
      Valid cfg ∧ c.MarkerClear w cfg := by
  rw [MarkerClear, clear_iff_room]
  constructor
  · intro h
    obtain ⟨hvalid, hmark⟩ := (setEnforcementPaused_isOk_iff cfg true w.fs).mp (h true)
    exact ⟨hvalid, ((writeMarkerAtomic_ok_iff c.pid _ w.fs).mp hmark).2⟩
  · rintro ⟨hvalid, hroom⟩ paused
    refine (setEnforcementPaused_isOk_iff cfg paused w.fs).mpr ⟨hvalid, ?_⟩
    cases paused with
    | true =>
      refine (writeMarkerAtomic_ok_iff c.pid _ w.fs).mpr ⟨?_, hroom⟩
      exact parent_of_valid hvalid
    | false =>
      obtain ⟨fs', hremove⟩ := hroom.remove_ok
      show ((removeFileIfExists cfg.killSwitchPath).outcome w.fs).1 = .ok ()
      rw [removeFileIfExists, Fallible.outcome_change, hremove]

theorem reloadDaemon_succeeds_iff (hallowed : operator.allowed = true)
    (hread : w.fs.atPath c.configPath FileSystem.readToString = .ok text) :
    c.Succeeds toml operator w .reloadDaemon ↔ ∃ cfg, Config.parseToml toml text = .ok cfg := by
  rw [Succeeds, handle_allowed toml c hallowed, handleAuthorized, loadConfig, ← load_holds hread]
  have hkick : ∀ cfg, Config.load toml c.configPath w.fs = .ok cfg →
      ((reply ((c.kickstartDaemonAfterReply >>= fun _ => pure .ok).outcome w).1).refused = false ↔
        True) := fun _ _ => iff_true_intro rfl
  exact (accepted_query hkick).trans (exists_congr fun _ => and_iff_left trivial)

/-- A config file that can be read is not seeded. -/
theorem loadOrSeed_isOk_iff (seedText : String)
    (hread : w.fs.atPath c.configPath FileSystem.readToString = .ok text) :
    ((Config.loadOrSeed toml seedText c.configPath).outcome w.fs).1.isOk = true ↔
      ∃ cfg, Config.parseToml toml text = .ok cfg := by
  have hmissing : Config.missing c.configPath w.fs = false := by
    rw [Config.missing, hread, Bool.and_false]
  show (Config.loadOrSeed toml seedText c.configPath w.fs).1.isOk = true ↔ _
  rw [Config.loadOrSeed, load_holds hread]
  cases Config.parseToml toml text with
  | error e =>
    simp only [hmissing, Bool.false_eq_true, if_false]
    constructor
    · intro h
      cases h
    · intro h
      obtain ⟨cfg, h⟩ := h
      cases h
  | ok cfg => exact ⟨fun _ => ⟨cfg, rfl⟩, fun _ => rfl⟩

/-- The requests on a config file that parses. -/
theorem accepts_read_iff (seedText : String) (hallowed : operator.allowed = true)
    (hread : w.fs.atPath c.configPath FileSystem.readToString = .ok text) {cfg : Config}
    (hparse : Config.parseToml toml text = .ok cfg) :
    ((c.Succeeds toml operator w .getConfig ∧ c.Succeeds toml operator w .getEnforcementState ∧
        (∀ paused, c.Succeeds toml operator w (.setEnforcementPaused paused)) ∧
          c.Succeeds toml operator w .reloadDaemon) ↔
      ((Config.loadOrSeed toml seedText c.configPath).outcome w.fs).1.isOk = true) ↔
      Valid cfg ∧ c.MarkerClear w cfg := by
  have honly : ∀ p : Config → Prop,
      (∃ cfg', Config.parseToml toml text = .ok cfg' ∧ p cfg') ↔ p cfg := by
    intro p
    rw [hparse]
    exact ⟨fun ⟨_, h, hp⟩ => Except.ok.inj h ▸ hp, fun hp => ⟨cfg, rfl, hp⟩⟩
  have hstarts : ∃ cfg', Config.parseToml toml text = .ok cfg' := ⟨cfg, hparse⟩
  rw [loadOrSeed_isOk_iff seedText hread, reloadDaemon_succeeds_iff hallowed hread,
    iff_true_intro hstarts, getConfig_succeeds_iff hallowed hread,
    getEnforcementState_succeeds_iff hallowed hread, honly]
  simp only [setEnforcementPaused_succeeds_iff hallowed hread, honly]
  rw [setEnforcementPaused_both_iff, iff_true, and_true]
  exact ⟨fun h => h.2.2, fun h => ⟨h.1, h.1, h⟩⟩

end

def directoryText : String := "kill_switch_path = \"/etc/screentimed\""

def directoryToml : Parser := fun text =>
  if text = directoryText then some [("kill_switch_path", .string "/etc/screentimed")] else none

def directoryWorld : World :=
  (systemController.handle directoryToml allowedOperator (.setConfig directoryText)
    ⟨FileSystem.empty, false⟩).2

/-- A directory as the place of the marker passes every check, and no pause. -/
example : systemController.Succeeds directoryToml allowedOperator directoryWorld .getConfig ∧
    ¬ systemController.Succeeds directoryToml allowedOperator directoryWorld
      (.setEnforcementPaused true) := by decide +kernel

end Controller

end Daemon
end Konstantin
