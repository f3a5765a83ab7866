import Konstantin.Daemon.Answers
import Konstantin.Transition

/-!
# Refused requests of the admin channel

A refused request should leave the config file, the marker and the scheduled
restart alone, and the config file should hold the text of the last `SetConfig`
that went through.  `validate_kill_switch_path` runs on a new configuration only
after it was written, and it does not look at where the path leads, so both can
fail.  `Checked` is what is missing.
-/

namespace Konstantin
namespace Daemon

open Fs Toml Effect Proto

namespace Controller

def configText (c : Controller) (w : World) : Option Content :=
  Node.content (w.fs.node c.configPath.resolve)

def markerPlace (toml : Parser) (c : Controller) (w : World) : Option Loc :=
  (Config.load toml c.configPath w.fs).toOption.map fun cfg => cfg.killSwitchPath.resolve

def Untouched (toml : Parser) (c : Controller) (w w' : World) : Prop :=
  w'.fs.node c.configPath.resolve = w.fs.node c.configPath.resolve ∧
    (c.markerPlace toml w).map w'.fs.node = (c.markerPlace toml w).map w.fs.node ∧
    w'.restartPending = w.restartPending

instance (toml : Parser) (c : Controller) (w w' : World) : Decidable (Untouched toml c w w') := by
  unfold Untouched
  infer_instance

/-- A write to the path would first make a directory in its own place. -/
def InOwnWay (fs : FileSystem) (p : Path) : Prop := ThroughItself p ∧ fs.node p.resolve = none

instance (fs : FileSystem) (p : Path) : Decidable (InOwnWay fs p) := by
  unfold InOwnWay
  infer_instance

/-- What the controller does not check before it goes on with a request. -/
def CheckedRequest (toml : Parser) (c : Controller) (w : World) : AdminRequest → Prop :=
  AdminRequest.IfWrites
    (fun text =>
      IfOk (Config.parseToml toml text) fun cfg => Valid cfg ∧ ¬ InOwnWay w.fs c.configPath)
    fun paused =>
      IfOk (Config.load toml c.configPath w.fs) fun cfg => Valid cfg →
        (paused = true → cfg.killSwitchPath.resolve ≠ c.configPath.resolve ∧
          (tmpPath c.pid cfg.killSwitchPath "marker").resolve ≠ c.configPath.resolve ∧
          ¬ InOwnWay w.fs cfg.killSwitchPath) ∧
        (paused = false → IfOk (w.fs.find cfg.killSwitchPath) fun l => l ≠ c.configPath.resolve)

instance (toml : Parser) (c : Controller) (w : World) (req : AdminRequest) :
    Decidable (CheckedRequest toml c w req) := by
  unfold CheckedRequest
  infer_instance

def textAfter (req : AdminRequest) (resp : AdminResponse) (old : Option Content) :
    Option Content :=
  match req with
  | .setConfig text => if resp.refused then old else some (.text text)
  | _ => old

theorem markerPlace_of_load {toml : Parser} {c : Controller} {w : World} {cfg : Config}
    (h : Config.load toml c.configPath w.fs = .ok cfg) :
    c.markerPlace toml w = some cfg.killSwitchPath.resolve := by
  rw [markerPlace, h]
  rfl

theorem textAfter_same {req : AdminRequest} {resp : AdminResponse}
    (h : ∀ text, req = .setConfig text → resp.refused = true) (old : Option Content) :
    textAfter req resp old = old := by
  cases req with
  | setConfig text => exact if_pos (h text rfl)
  | _ => rfl

theorem configText_same {c : Controller} {w w' : World}
    (h : w'.fs.node c.configPath.resolve = w.fs.node c.configPath.resolve) :
    c.configText w' = c.configText w := by
  rw [configText, configText, h]

theorem untouched_refl (toml : Parser) (c : Controller) (w : World) : Untouched toml c w w :=
  ⟨rfl, rfl, rfl⟩

theorem node_of_error {fs₀ fs : FileSystem} {tmp path : Path} {text message : String}
    (h : Written fs₀ tmp path (above path) text (.error message) fs) (hway : ¬ InOwnWay fs₀ path) :
    fs.node path.resolve = fs₀.node path.resolve := by
  refine h.error message rfl ?_
  by_cases hself : ThroughItself path
  · exact Or.inr fun hnone => hway ⟨hself, hnone⟩
  · exact Or.inl hself

theorem accepted_of_valid {cfg : Config} (h : Valid cfg) (paused : Bool) (path : Path) :
    (reply ((validateKillSwitchPath cfg.killSwitchPath).map fun _ =>
      .enforcementState paused path)).refused = false := by
  cases hv : validateKillSwitchPath cfg.killSwitchPath with
  | error e =>
    rw [Valid, hv] at h
    cases h
  | ok p => rfl

theorem untouched_of_refused {toml : Parser} {c : Controller} {w w' : World} {req : AdminRequest}
    {resp : AdminResponse} (h : Answered toml c w req resp w')
    (hchecked : CheckedRequest toml c w req) (hrefused : resp.refused = true) :
    Untouched toml c w w' := by
  cases h with
  | kept req resp hstate hset => exact untouched_refl toml c w
  | configFailed text cfg message fs hparse hwritten =>
    have hconfig := node_of_error hwritten (hchecked cfg hparse).2
    refine ⟨hconfig, ?_, rfl⟩
    cases hload : Config.load toml c.configPath w.fs with
    | error e => rw [markerPlace, hload]; rfl
    | ok old =>
      obtain ⟨text', mode, hfound, hfile, -⟩ := Config.load_eq_ok hload
      rw [markerPlace_of_load hload, Option.map_some, Option.map_some]
      exact congrArg some (hwritten.kept hfound hfile old.killSwitchPath.resolve)
  | configSet text cfg fs resp hparse hwritten hresp =>
    rw [hresp, accepted_of_valid (hchecked cfg hparse).1] at hrefused
    cases hrefused
  | reloaded => cases hrefused
  | marked cfg r fs resp hload hvalid hwritten hresp =>
    obtain ⟨hne, htmp, hway⟩ := (hchecked cfg hload (valid_of_ok hvalid)).1 rfl
    obtain ⟨text, mode, -, hfile, -⟩ := Config.load_eq_ok hload
    cases r with
    | ok u =>
      rw [hresp] at hrefused
      cases hrefused
    | error message =>
      have hconfig := hwritten.stays c.configPath.resolve _ htmp.symm hne.symm hfile
      refine ⟨hconfig.trans hfile.symm, ?_, rfl⟩
      rw [markerPlace_of_load hload, Option.map_some, Option.map_some]
      exact congrArg some (node_of_error hwritten hway)
  | unmarked cfg fs hload hvalid hremoved => cases hrefused

/-- The config file changes with a `SetConfig` that went through, and with no
other request that was checked. -/
theorem configText_after {toml : Parser} {c : Controller} {w w' : World} {req : AdminRequest}
    {resp : AdminResponse} (h : Answered toml c w req resp w')
    (hchecked : CheckedRequest toml c w req) :
    c.configText w' = textAfter req resp (c.configText w) := by
  cases h with
  | kept req resp hstate hset => exact (textAfter_same hset _).symm
  | configFailed text cfg message fs hparse hwritten =>
    rw [textAfter_same fun _ _ => rfl]
    exact configText_same (node_of_error hwritten (hchecked cfg hparse).2)
  | configSet text cfg fs resp hparse hwritten hresp =>
    have hnode := (hwritten.ok rfl).1
    rw [configText, World.kicked_fs]
    show Node.content (fs.node c.configPath.resolve) = _
    rw [hnode, textAfter, hresp, accepted_of_valid (hchecked cfg hparse).1]
    rfl
  | reloaded => exact congrArg Node.content (by rw [World.kicked_fs])
  | marked cfg r fs resp hload hvalid hwritten hresp =>
    obtain ⟨hne, htmp, hway⟩ := (hchecked cfg hload (valid_of_ok hvalid)).1 rfl
    obtain ⟨text, mode, -, hfile, -⟩ := Config.load_eq_ok hload
    have hsame := hwritten.stays c.configPath.resolve _ htmp.symm hne.symm hfile
    exact configText_same (hsame.trans hfile.symm)
  | unmarked cfg fs hload hvalid hremoved =>
    have hfar : w.fs.find cfg.killSwitchPath ≠ .ok c.configPath.resolve := fun hfind =>
      (hchecked cfg hload (valid_of_ok hvalid)).2 rfl _ hfind rfl
    exact configText_same (hremoved.frame _ hfar)

end Controller

/-! ## Runs -/

/-- `lastText` is what the config file should hold: the text of the last
`SetConfig` that went through, or what it held at the start. -/
structure Session where
  world : World
  lastText : Option Content

namespace Session

def asked (decode : Decoder) (json : String) : Option AdminRequest :=
  (RequestEnvelope.fromJson decode json).toOption.map fun env => env.request

section

variable (toml : Parser) (decode : Decoder) (c : Controller)

def start (w : World) : Session where
  world := w
  lastText := c.configText w

/-- One request.  The preparation of an uninstall is not among them. -/
def step (s : Session) (l : Operator × String) : Option Session :=
  let r := c.handleRequestJson toml decode l.1 l.2 s.world
  match asked decode l.2 with
  | none => some { s with world := r.2 }
  | some (.prepareUninstall _) => none
  | some req => some { world := r.2, lastText := Controller.textAfter req r.1.response s.lastText }

/-- A refused request touches nothing, and the config file holds the last text
that went through. -/
def Atomic (s : Session) (l : Operator × String) (t : Session) : Prop :=
  ((c.handleRequestJson toml decode l.1 l.2 s.world).1.response.refused = true →
      Controller.Untouched toml c s.world t.world) ∧
    c.configText t.world = t.lastText

/-- The request of an operator who may make it is one the controller could go on
with. -/
def Checked (s : Session) (l : Operator × String) (_ : Session) : Prop :=
  l.1.allowed = true → ∀ req ∈ asked decode l.2, Controller.CheckedRequest toml c s.world req

instance (s : Session) (l : Operator × String) (t : Session) :
    Decidable (Atomic toml decode c s l t) := by
  unfold Atomic
  infer_instance

instance (s : Session) (l : Operator × String) (t : Session) :
    Decidable (Checked toml decode c s l t) := by
  unfold Checked
  infer_instance

end

theorem asked_eq_none {decode : Decoder} {json : String} (h : asked decode json = none)
    (toml : Parser) (c : Controller) (operator : Operator) (w : World) :
    (c.handleRequestJson toml decode operator json w).2 = w := by
  unfold asked at h
  unfold Controller.handleRequestJson
  cases hjson : RequestEnvelope.fromJson decode json with
  | error message => rfl
  | ok env =>
    rw [hjson] at h
    cases h

theorem asked_eq_some {decode : Decoder} {json : String} {req : AdminRequest}
    (h : asked decode json = some req) (toml : Parser) (c : Controller) (operator : Operator)
    (w : World) :
    (c.handleRequestJson toml decode operator json w).1.response =
        (c.handle toml operator req w).1 ∧
      (c.handleRequestJson toml decode operator json w).2 = (c.handle toml operator req w).2 := by
  unfold asked at h
  unfold Controller.handleRequestJson
  cases hjson : RequestEnvelope.fromJson decode json with
  | error message =>
    rw [hjson] at h
    cases h
  | ok env =>
    rw [hjson] at h
    cases h
    exact ⟨rfl, rfl⟩

variable {toml : Parser} {decode : Decoder} {c : Controller}

theorem step_cases {s t : Session} {l : Operator × String}
    (h : step toml decode c s l = some t) :
    (asked decode l.2 = none ∧ t = s) ∨
      ∃ req, asked decode l.2 = some req ∧ (∀ b, req ≠ .prepareUninstall b) ∧
        t = ⟨(c.handle toml l.1 req s.world).2,
          Controller.textAfter req (c.handle toml l.1 req s.world).1 s.lastText⟩ := by
  unfold step at h
  cases hasked : asked decode l.2 with
  | none =>
    simp only [hasked, asked_eq_none hasked toml c] at h
    exact Or.inl ⟨rfl, (Option.some.inj h).symm⟩
  | some req =>
    obtain ⟨hresp, hworld⟩ := asked_eq_some hasked toml c l.1 s.world
    have hreq : ∀ b, req ≠ .prepareUninstall b := by
      rintro b rfl
      simp only [hasked] at h
      cases h
    refine Or.inr ⟨req, rfl, hreq, ?_⟩
    cases req with
    | prepareUninstall b => exact absurd rfl (hreq b)
    | _ =>
      simp only [hasked, hresp, hworld] at h
      exact (Option.some.inj h).symm

theorem atomic_step {s t : Session} {l : Operator × String}
    (h : step toml decode c s l = some t) (htext : c.configText s.world = s.lastText)
    (hchecked : Checked toml decode c s l t) : Atomic toml decode c s l t := by
  rcases step_cases h with ⟨hasked, rfl⟩ | ⟨req, hasked, hreq, rfl⟩
  · exact ⟨fun _ => Controller.untouched_refl toml c t.world, htext⟩
  · have hresp := (asked_eq_some hasked toml c l.1 s.world).1
    rw [Atomic, hresp]
    by_cases hallowed : l.1.allowed = true
    · have hanswered := Controller.handle_answered toml c s.world l.1 hreq
      have hreq' := hchecked hallowed req hasked
      refine ⟨fun hrefused => Controller.untouched_of_refused hanswered hreq' hrefused, ?_⟩
      rw [← htext]
      exact Controller.configText_after hanswered hreq'
    · rw [Controller.handle, if_pos (by simpa using hallowed)]
      refine ⟨fun _ => Controller.untouched_refl toml c s.world, ?_⟩
      exact htext.trans (Controller.textAfter_same (fun _ _ => rfl) _).symm

/-- Runs of checked requests are atomic. -/
theorem atomic_of_checked (w : World) (ls : List (Operator × String))
    (h : Transition.Along (step toml decode c) (Checked toml decode c) (start c w) ls) :
    Transition.Along (step toml decode c) (Atomic toml decode c) (start c w) ls := by
  refine Transition.along_of_guarded (I := fun s => c.configText s.world = s.lastText) ?_ ls rfl h
  intro s l t hstep htext hchecked
  have hatomic := atomic_step hstep htext hchecked
  exact ⟨hatomic.2, hatomic⟩

/-! ### The run that fails -/

/-- The parser on the configurations of the runs below. -/
def sampleToml : Parser := fun text =>
  if text = "" then some []
  else if text = "kill_switch_path = \"disable\"" then
    some [("kill_switch_path", .string "disable")]
  else if text = "tick_seconds = 0" then some [("tick_seconds", .integer 0)]
  else none

def envelope (request : String) : String :=
  "\x7b\"version\":2,\"request_id\":\"1\",\"request\":\x7b" ++ request ++ "\x7d\x7d"

def setDefaults : String := envelope "\"kind\":\"set_config\",\"toml\":\"\""

def setRelative : String :=
  envelope "\"kind\":\"set_config\",\"toml\":\"kill_switch_path = \\\"disable\\\"\""

def setNoTick : String := envelope "\"kind\":\"set_config\",\"toml\":\"tick_seconds = 0\""

def pause : String := envelope "\"kind\":\"set_enforcement_paused\",\"paused\":true"

/-- The decoder on the requests of the runs below. -/
def sampleDecoder : Decoder := fun json =>
  if json = setDefaults then some ⟨2, "1", .setConfig ""⟩
  else if json = setRelative then some ⟨2, "1", .setConfig "kill_switch_path = \"disable\""⟩
  else if json = setNoTick then some ⟨2, "1", .setConfig "tick_seconds = 0"⟩
  else if json = pause then some ⟨2, "1", .setEnforcementPaused true⟩
  else none

/-- A `SetConfig` with a relative `kill_switch_path` is refused after the config
file was written and the restart was scheduled. -/
theorem atomic_fails :
    ¬ Transition.Along (step sampleToml sampleDecoder systemController)
      (Atomic sampleToml sampleDecoder systemController)
      (start systemController ⟨FileSystem.empty, false⟩)
      [(allowedOperator, setDefaults), (allowedOperator, setRelative)] := by
  decide +kernel

theorem atomic_of_checked_run :
    Transition.Along (step sampleToml sampleDecoder systemController)
      (Atomic sampleToml sampleDecoder systemController)
      (start systemController ⟨FileSystem.empty, false⟩)
      [(allowedOperator, setDefaults), (allowedOperator, setNoTick), (deniedOperator, setRelative),
        (allowedOperator, pause), (allowedOperator, "")] :=
  atomic_of_checked _ _ (by decide +kernel)

end Session

end Daemon
end Konstantin
