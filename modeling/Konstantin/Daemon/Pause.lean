import Konstantin.Daemon.Answers
import Konstantin.Daemon.Backoff

/-!
# The pause state that is reported and the one that is obeyed

The admin channel reads `kill_switch_path` from the config file at each request,
enforcement from the configuration the daemon came up with.  A `Watch` runs the
two side by side, with the restarts of the daemon.
-/

namespace Konstantin
namespace Daemon

open Fs Toml Effect Proto

/-! ## Startup -/

namespace Config

/-- `config_missing`, on the error of `load`. -/
def missing (path : Path) (fs : FileSystem) : Bool :=
  !fs.pathFound path &&
    match fs.atPath path FileSystem.readToString with
    | .error .notFound => true
    | _ => false

/-- `seed_default_config`, with the text of the example configuration. -/
def seedDefault (toml : Parser) (seedText : String) (path : Path) : Fallible FileSystem Unit := do
  let _ ← .query fun _ => parseToml toml seedText
  createConfigDir path
  .change ("writing " ++ path.display) fun fs => fs.atPath path fun fs l => fs.write l seedText
  setMode0600 path

def loadOrSeed (toml : Parser) (seedText : String) (path : Path) :
    Fallible FileSystem Config := fun fs =>
  match load toml path fs with
  | .ok cfg => (.ok cfg, fs)
  | .error message =>
    if missing path fs then
      (do seedDefault toml seedText path; .query (load toml path) : Fallible _ _) fs
    else (.error message, fs)

theorem outcome_loadOrSeed (toml : Parser) (seedText : String) (path : Path) (fs : FileSystem) :
    (loadOrSeed toml seedText path).outcome fs =
      match load toml path fs with
      | .ok cfg => (.ok cfg, fs)
      | .error message =>
        if missing path fs then
          (do seedDefault toml seedText path
              .query (load toml path) : Fallible FileSystem Config).outcome fs
        else (.error message, fs) := rfl

end Config

structure Watch where
  controller : Controller
  world : World
  running : Config
  enforcer : Enforcer
  said : Option (Bool × Path)

inductive WatchStep where
  | request (operator : Operator) (req : AdminRequest)
  | enforce (p : Pass)
  | restart (pid : Nat)

namespace Watch

/-- The daemon comes up on the files of a world, unless its configuration cannot
be loaded. -/
def comeUp (toml : Parser) (seedText : String) (c : Controller) (fs : FileSystem)
    (said : Option (Bool × Path)) : Option Watch :=
  match (Config.loadOrSeed toml seedText c.configPath).outcome fs with
  | (.ok cfg, fs') =>
    some
      { controller := c
        world := { fs := fs', restartPending := false }
        running := cfg
        enforcer := .new
        said := said }
  | (.error _, _) => none

def heard (resp : AdminResponse) (said : Option (Bool × Path)) : Option (Bool × Path) :=
  match resp with
  | .enforcementState paused path => some (paused, path)
  | _ => said

/-- What the enforcer's check of the kill switch is answered. -/
def marker (s : Watch) : Bool := s.world.fs.pathFound s.running.killSwitchPath

def enforced (s : Watch) (p : Pass) : Enforcer × List (List Op) :=
  s.enforcer.step s.running p.counters p.begun
    (p.visits.map fun v => { v with killSwitch := s.marker })

def step (toml : Parser) (seedText : String) (s : Watch) : WatchStep → Option Watch
  | .request _ (.prepareUninstall _) => none
  | .request operator req =>
    let r := s.controller.handle toml operator req s.world
    some { s with world := r.2, said := heard r.1 s.said }
  | .enforce p => some { s with enforcer := (s.enforced p).1 }
  | .restart pid =>
    if s.world.restartPending then
      comeUp toml seedText { s.controller with pid := pid } s.world.fs s.said
    else none

/-- After a reply that enforcement is paused no command is issued; after one that
it is not, no logout is refused because of the kill switch. -/
def Obeys (s : Watch) (l : WatchStep) (_ : Watch) : Prop :=
  match l, s.said with
  | .enforce p, some (true, _) => ∀ asked ∈ (s.enforced p).2, ∀ o ∈ asked, o.isCommand = false
  | .enforce p, some (false, _) =>
    ∀ asked ∈ (s.enforced p).2, asked.any Op.isCheck = true → s.marker = false
  | _, _ => True

instance (s : Watch) (l : WatchStep) (t : Watch) : Decidable (Obeys s l t) := by
  unfold Obeys
  split <;> infer_instance

/-- A write of the config does not touch the path's place. -/
def Apart (c : Controller) (p : Path) : Prop :=
  p.resolve ≠ c.configPath.resolve ∧ p.resolve ≠ (tmpPath c.pid c.configPath "toml").resolve

instance (c : Controller) (p : Path) : Decidable (Apart c p) := by
  unfold Apart
  infer_instance

/-- What is at the path's place is found by the path, and making the directories
above it makes nothing there. -/
def Plain (fs : FileSystem) (p : Path) : Prop :=
  fs.pathFound p = true ∨ ¬ ThroughItself p ∧ fs.node p.resolve = none

instance (fs : FileSystem) (p : Path) : Decidable (Plain fs p) := by
  unfold Plain
  infer_instance

/-- A request does not disturb the marker that the last reply was about. -/
def AgreedRequest (toml : Parser) (c : Controller) (w : World) (p : Path) : AdminRequest → Prop :=
  AdminRequest.IfWrites (fun text => IfOk (Config.parseToml toml text) fun _ => Apart c p)
    fun paused =>
      paused = true → IfOk (Config.load toml c.configPath w.fs) fun cfg =>
        Controller.Valid cfg → p = cfg.killSwitchPath ∧ Plain w.fs p

instance (toml : Parser) (c : Controller) (w : World) (p : Path) (req : AdminRequest) :
    Decidable (AgreedRequest toml c w p req) := by
  unfold AgreedRequest
  infer_instance

/-- The daemon enforces by the marker that the last reply was about. -/
def Agreed (toml : Parser) (s : Watch) (l : WatchStep) (_ : Watch) : Prop :=
  ∀ r ∈ s.said,
    match l with
    | .request operator req =>
      operator.allowed = true → AgreedRequest toml s.controller s.world r.2 req
    | .enforce _ => r.2 = s.running.killSwitchPath
    | .restart _ => r.2.resolve ≠ s.controller.configPath.resolve

instance (toml : Parser) (s : Watch) (l : WatchStep) (t : Watch) :
    Decidable (Agreed toml s l t) := by
  unfold Agreed
  cases l <;> infer_instance

/-! ## What a request leaves -/

def Told (c : Controller) (said : Option (Bool × Path)) (fs : FileSystem) : Prop :=
  ∀ r ∈ said, fs.pathFound r.2 = r.1 ∧ fs.find c.configPath = .ok c.configPath.resolve

theorem told_some {c : Controller} {fs : FileSystem} {paused : Bool} {p : Path}
    (hfound : fs.pathFound p = paused) (hfind : fs.find c.configPath = .ok c.configPath.resolve) :
    Told c (some (paused, p)) fs := by
  intro r hr
  cases hr
  exact ⟨hfound, hfind⟩

theorem told_mono {c : Controller} {said : Option (Bool × Path)} {fs fs' : FileSystem}
    (h : Told c said fs) (hdirs : ∀ k, fs.isDir k = true → fs'.isDir k = true)
    (hsame : ∀ r ∈ said, fs'.pathFound r.2 = fs.pathFound r.2) : Told c said fs' := by
  intro r hr
  obtain ⟨hfound, hfind⟩ := h r hr
  exact ⟨(hsame r hr).trans hfound, FileSystem.find_mono hdirs hfind⟩

theorem pathFound_of_error {fs₀ fs : FileSystem} {tmp path : Path} {text message : String}
    (h : Written fs₀ tmp path (above path) text (.error message) fs) (hplain : Plain fs₀ path) :
    fs.pathFound path = fs₀.pathFound path := by
  rcases hplain with hfound | ⟨hway, hnone⟩
  · cases hfind : fs₀.find path with
    | error e =>
      rw [FileSystem.pathFound, hfind] at hfound
      cases hfound
    | ok l =>
      have hl := FileSystem.find_eq_ok hfind
      subst hl
      rw [FileSystem.pathFound_of_find hfind] at hfound ⊢
      have hnode : fs.node path.resolve = fs₀.node path.resolve :=
        h.error message rfl (above_or hfind _)
      rw [FileSystem.pathFound_of_find (FileSystem.find_mono h.dirs hfind), FileSystem.pathExists,
        hnode]
      rfl
  · have hnode : fs.node path.resolve = none := (h.error message rfl (Or.inl hway)).trans hnone
    rw [FileSystem.pathFound_of_none hnode, FileSystem.pathFound_of_none hnone]

/-- A write of the config leaves what is apart from it. -/
theorem told_of_written {c : Controller} {said : Option (Bool × Path)} {fs fs' : FileSystem}
    {text : String} {r : Except String Unit}
    (hwritten : Written fs (tmpPath c.pid c.configPath "toml") c.configPath (above c.configPath)
      text r fs') (hapart : ∀ r ∈ said, Apart c r.2) (htold : Told c said fs) :
    Told c said fs' := by
  refine told_mono htold hwritten.dirs fun r hr => ?_
  obtain ⟨hconfig, htmp⟩ := hapart r hr
  exact hwritten.pathFound_same (htold r hr).2 htmp hconfig

theorem told_of_answered {toml : Parser} {c : Controller} {w w' : World} {req : AdminRequest}
    {resp : AdminResponse} {said : Option (Bool × Path)} (h : Answered toml c w req resp w')
    (hagreed : ∀ r ∈ said, AgreedRequest toml c w r.2 req) (htold : Told c said w.fs) :
    Told c (heard resp said) w'.fs := by
  cases h with
  | kept req resp hstate hset =>
    cases resp with
    | enforcementState paused path =>
      obtain ⟨cfg, hload, rfl, hfound⟩ := hstate paused path rfl
      obtain ⟨text, mode, hfind, -⟩ := Config.load_eq_ok hload
      exact told_some hfound hfind
    | _ => exact htold
  | configFailed text cfg message fs hparse hwritten =>
    exact told_of_written hwritten (fun r hr => hagreed r hr cfg hparse) htold
  | configSet text cfg fs resp hparse hwritten hresp =>
    rw [World.kicked_fs]
    cases hv : validateKillSwitchPath cfg.killSwitchPath with
    | ok p =>
      rw [hresp, hv]
      exact told_some rfl (hwritten.ok rfl).2
    | error message =>
      rw [hresp, hv]
      exact told_of_written hwritten (fun r hr => hagreed r hr cfg hparse) htold
  | reloaded =>
    rw [World.kicked_fs]
    exact htold
  | marked cfg r fs resp hload hvalid hwritten hresp =>
    obtain ⟨text, mode, hfind, -⟩ := Config.load_eq_ok hload
    cases r with
    | ok u =>
      obtain ⟨hnode, hmarker⟩ := hwritten.ok rfl
      rw [hresp]
      refine told_some ?_ (FileSystem.find_mono hwritten.dirs hfind)
      rw [FileSystem.pathFound_of_find hmarker, FileSystem.pathExists, hnode]
      rfl
    | error message =>
      rw [hresp]
      refine told_mono htold hwritten.dirs fun r hr => ?_
      obtain ⟨hsame, hplain⟩ := hagreed r hr rfl cfg hload (Controller.valid_of_ok hvalid)
      rw [hsame] at hplain ⊢
      exact pathFound_of_error hwritten hplain
  | unmarked cfg fs hload hvalid hremoved =>
    obtain ⟨text, mode, hfind, -⟩ := Config.load_eq_ok hload
    have hmono : ∀ k, w.fs.isDir k = true → fs.isDir k = true :=
      fun k hk => (hremoved.dirs k).trans hk
    exact told_some hremoved.gone (FileSystem.find_mono hmono hfind)

end Watch

/-! ## What coming up leaves -/

/-- Only the path's own place differs, and no directory does. -/
structure Seeded (fs₀ : FileSystem) (path : Path) (fs : FileSystem) : Prop where
  dirs : ∀ k, fs.isDir k = fs₀.isDir k
  frame : ∀ k, k ≠ path.resolve → fs.node k = fs₀.node k

section

variable {fs₀ : FileSystem} {path : Path}

theorem seeded_refl (fs : FileSystem) (path : Path) : Seeded fs path fs :=
  ⟨fun _ => rfl, fun _ _ => rfl⟩

theorem createConfigDir_seeded (hfound : fs₀.find path = .ok path.resolve) :
    Fallible.Ensures (Seeded fs₀ path) (createConfigDir path) fun _ => Seeded fs₀ path := by
  intro fs hs
  have hfind : fs.find path = .ok path.resolve :=
    FileSystem.find_mono (fun k hk => (hs.dirs k).trans hk) hfound
  have hsame : ∀ k, (fs.createDirAll (above path)).2.node k = fs.node k :=
    fun k => createDirAll_same (above_or hfind k)
  have hdone : Seeded fs₀ path (fs.createDirAll (above path)).2 :=
    ⟨fun k => (congrArg Node.isDir (hsame k)).trans (hs.dirs k),
      fun k hk => (hsame k).trans (hs.frame k hk)⟩
  unfold createConfigDir
  cases hp : path.parent with
  | none => exact hs
  | some parent =>
    dsimp only
    split
    · exact hs
    · rw [outcome_createDirAll]
      rw [above, hp, Option.elim_some] at hdone
      exact hdone

theorem write_seeded (message text : String) :
    Fallible.Ensures (Seeded fs₀ path)
      (.change message fun fs => fs.atPath path fun fs l => fs.write l text)
      fun _ => Seeded fs₀ path := by
  refine Fallible.ensures_change (fun fs fs' hs hok => ?_) fun fs e hs _ => hs
  obtain ⟨-, hwrite⟩ := FileSystem.atPath_eq_ok hok
  refine ⟨fun k => (FileSystem.isDir_write hwrite k).trans (hs.dirs k), fun k hk => ?_⟩
  rw [FileSystem.write_node hwrite, if_neg hk, hs.frame k hk]

theorem setMode0600_seeded :
    Fallible.Ensures (Seeded fs₀ path) (setMode0600 path) fun _ => Seeded fs₀ path := by
  refine Fallible.ensures_change (fun fs fs' hs hok => ?_) fun fs e hs _ => hs
  obtain ⟨-, hchmod⟩ := FileSystem.atPath_eq_ok hok
  refine ⟨fun k => (FileSystem.isDir_setPermissions hchmod k).trans (hs.dirs k), fun k hk => ?_⟩
  rw [FileSystem.setPermissions_node hchmod hk, hs.frame k hk]

theorem seedDefault_seeded (toml : Parser) (seedText : String)
    (hfound : fs₀.find path = .ok path.resolve) :
    Fallible.Ensures (Seeded fs₀ path) (Config.seedDefault toml seedText path)
      fun _ => Seeded fs₀ path := by
  refine Fallible.keeps_bind (Fallible.keeps_query _) fun _ => ?_
  refine Fallible.keeps_bind (createConfigDir_seeded hfound) fun _ => ?_
  exact Fallible.keeps_bind (write_seeded _ _) fun _ => setMode0600_seeded

theorem loadOrSeed_seeded (toml : Parser) (seedText : String) {fs : FileSystem}
    (hfound : fs.find path = .ok path.resolve) :
    Seeded fs path ((Config.loadOrSeed toml seedText path).outcome fs).2 := by
  rw [Config.outcome_loadOrSeed]
  cases Config.load toml path fs with
  | ok cfg => exact seeded_refl fs path
  | error message =>
    dsimp only
    split
    · exact Fallible.keeps_bind (seedDefault_seeded toml seedText hfound)
        (fun _ => Fallible.keeps_query _) fs (seeded_refl fs path)
    · exact seeded_refl fs path

end

namespace Watch

/-! ## Runs -/

theorem comeUp_cases {toml : Parser} {seedText : String} {c : Controller} {fs : FileSystem}
    {said : Option (Bool × Path)} {s : Watch} (h : comeUp toml seedText c fs said = some s) :
    s.controller = c ∧ s.said = said ∧
      s.world.fs = ((Config.loadOrSeed toml seedText c.configPath).outcome fs).2 := by
  unfold comeUp at h
  cases hrun : (Config.loadOrSeed toml seedText c.configPath).outcome fs with
  | mk r fs' =>
    cases r with
    | error message =>
      rw [hrun] at h
      cases h
    | ok cfg =>
      rw [hrun] at h
      cases h
      exact ⟨rfl, rfl, rfl⟩

theorem quiet_of_marker {s : Watch} (h : s.marker = true) (p : Pass) :
    ∀ asked ∈ (s.enforced p).2, ∀ o ∈ asked, o.isCommand = false := by
  refine Enforcer.step_all (P := fun asked => ∀ o ∈ asked, o.isCommand = false) ?_ s.enforcer
  intro e v hv o ho
  have hpresent : v.killSwitch = true := by
    obtain ⟨u, -, rfl⟩ := List.mem_map.mp hv
    exact h
  have hacts := (Enforcer.visited_spec e s.running p.counters p.begun v).1
  cases ho' : o.isCommand with
  | false => rfl
  | true =>
    have haction : o.isAction = true := by
      cases o with
      | run program args => rfl
      | _ => cases ho'
    have hany : (e.visited s.running p.counters p.begun v).asked.any Op.isAction = true :=
      List.any_eq_true.mpr ⟨o, ho, haction⟩
    obtain ⟨uid, -, -, habsent⟩ := hacts.mp hany
    rw [hpresent] at habsent
    cases habsent

theorem obeys_enforce {s t : Watch} {p : Pass} (htold : Told s.controller s.said s.world.fs)
    (hagreed : ∀ r ∈ s.said, r.2 = s.running.killSwitchPath) : Obeys s (.enforce p) t := by
  have hmarker : ∀ paused path, s.said = some (paused, path) → s.marker = paused := by
    intro paused path hsaid
    have hpath : path = s.running.killSwitchPath := hagreed (paused, path) hsaid
    rw [marker, ← hpath]
    exact (htold (paused, path) hsaid).1
  unfold Obeys
  split
  · rename_i q path hl hsaid
    cases hl
    exact quiet_of_marker (hmarker true path hsaid) p
  · rename_i q path hl hsaid
    exact fun _ _ _ => hmarker false path hsaid
  · trivial

theorem step_request {toml : Parser} {seedText : String} {s t : Watch} {operator : Operator}
    {req : AdminRequest} (h : step toml seedText s (.request operator req) = some t) :
    (∀ b, req ≠ .prepareUninstall b) ∧
      t = { s with
        world := (s.controller.handle toml operator req s.world).2
        said := heard (s.controller.handle toml operator req s.world).1 s.said } := by
  cases req with
  | prepareUninstall b => cases h
  | _ => exact ⟨fun _ h => (by cases h), (Option.some.inj h).symm⟩

theorem step_restart {toml : Parser} {seedText : String} {s t : Watch} {pid : Nat}
    (h : step toml seedText s (.restart pid) = some t) :
    comeUp toml seedText { s.controller with pid := pid } s.world.fs s.said = some t := by
  by_cases hpending : s.world.restartPending = true
  · simpa only [step, hpending, if_true] using h
  · simp [step, hpending] at h

theorem told_step {toml : Parser} {seedText : String} {s t : Watch} {l : WatchStep}
    (h : step toml seedText s l = some t) (htold : Told s.controller s.said s.world.fs)
    (hagreed : Agreed toml s l t) : Told t.controller t.said t.world.fs ∧ Obeys s l t := by
  cases l with
  | request operator req =>
    obtain ⟨hreq, rfl⟩ := step_request h
    refine ⟨?_, trivial⟩
    by_cases hallowed : operator.allowed = true
    · exact told_of_answered (Controller.handle_answered toml s.controller s.world operator hreq)
        (fun r hr => hagreed r hr hallowed) htold
    · rw [Controller.handle, if_pos (by simpa using hallowed)]
      exact htold
  | enforce p =>
    cases h
    exact ⟨htold, obeys_enforce htold hagreed⟩
  | restart pid =>
    refine ⟨?_, trivial⟩
    obtain ⟨hcontroller, hsaid, hfs⟩ := comeUp_cases (step_restart h)
    rw [hcontroller, hsaid, hfs]
    intro r hr
    obtain ⟨hfound, hfind⟩ := htold r hr
    have hseeded := loadOrSeed_seeded toml seedText hfind
    have hdirs : ∀ k, s.world.fs.isDir k = true →
        ((Config.loadOrSeed toml seedText s.controller.configPath).outcome
          s.world.fs).2.isDir k = true := fun k hk => (hseeded.dirs k).trans hk
    refine ⟨?_, FileSystem.find_mono hdirs hfind⟩
    rw [← hfound]
    exact FileSystem.pathFound_congr hseeded.dirs (hseeded.frame _ (hagreed r hr))

/-- In a run whose steps agree on the marker, enforcement obeys what was reported. -/
theorem obeys_of_agreed {toml : Parser} {seedText : String} {c : Controller} {fs : FileSystem}
    {s : Watch} (hup : comeUp toml seedText c fs none = some s) (ls : List WatchStep)
    (h : Transition.Along (step toml seedText) (Agreed toml) s ls) :
    Transition.Along (step toml seedText) Obeys s ls := by
  refine Transition.along_of_guarded (I := fun s => Told s.controller s.said s.world.fs) ?_ ls ?_ h
  · exact fun s l t hstep htold hagreed => told_step hstep htold hagreed
  · rw [(comeUp_cases hup).2.1]
    intro r hr
    cases hr

/-! ### The run that fails -/

def strictToml : String := "default_policy = \"block\"\nenforcement = \"logout\"\n"

def movedToml : String := strictToml ++ "kill_switch_path = \"/var/run/disable\"\n"

def sampleToml : Parser := fun text =>
  let strict := [("default_policy", Value.string "block"), ("enforcement", .string "logout")]
  if text = strictToml then some strict
  else if text = movedToml then some (strict ++ [("kill_switch_path", .string "/var/run/disable")])
  else none

def installed : FileSystem :=
  ((writeConfigAtomic 1 systemConfigPath strictToml).outcome FileSystem.empty).2

/-- One user is active, whom the default policy blocks. -/
def pass (begun : Nat) : Pass where
  begun := begun
  counters := ∅
  visits := [{ username := "bob", uid := some 502, killSwitch := false, ran := [], console := [],
               finished := begun }]

/-- The kill switch is moved and made before the daemon was restarted: it was
reported, and the running daemon looks elsewhere. -/
theorem obeys_fails :
    ¬ ∀ s ∈ comeUp sampleToml strictToml systemController installed none,
      Transition.Along (step sampleToml strictToml) Obeys s
        [.request allowedOperator (.setConfig movedToml),
          .request allowedOperator (.setEnforcementPaused true), .enforce (pass 0)] := by
  decide +kernel

theorem obeys_of_agreed_restart :
    Transition.Along (step sampleToml strictToml) Obeys
      ((comeUp sampleToml strictToml systemController installed none).get (by decide +kernel))
      [.request allowedOperator (.setConfig movedToml), .restart 400,
        .request allowedOperator (.setEnforcementPaused true), .enforce (pass 0),
        .request allowedOperator (.setEnforcementPaused false), .enforce (pass 1)] :=
  obeys_of_agreed (Option.some_get _).symm _ (by decide +kernel)

end Watch
end Daemon
end Konstantin
