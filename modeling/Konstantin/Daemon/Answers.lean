import Konstantin.Daemon.AtomicWrite

/-!
# What a request can do

Every request of the panel is answered in one of six ways: nothing changed, the
config could not be written, it was written, a restart was scheduled, the marker
was written or not, the marker was removed.  What holds of the control plane over
runs is derived from this list.
-/

namespace Konstantin
namespace Daemon

open Fs Toml Effect Proto

/-- A schedule of the restart, on the system daemon only. -/
def World.kicked (c : Controller) (w : World) : World :=
  if c.configPath.same systemConfigPath then { w with restartPending := true } else w

theorem World.kicked_fs (c : Controller) (w : World) : (w.kicked c).fs = w.fs := by
  unfold World.kicked
  split <;> rfl

theorem Config.load_eq_ok {toml : Parser} {path : Path} {fs : FileSystem} {cfg : Config}
    (h : Config.load toml path fs = .ok cfg) :
    ∃ text mode, fs.find path = .ok path.resolve ∧
      fs.node path.resolve = some (.file (.text text) mode) ∧
      Config.parseToml toml text = .ok cfg := by
  unfold Config.load at h
  split at h
  · cases h
  · rename_i text hread
    obtain ⟨hfind, hread⟩ := FileSystem.atPath_eq_ok hread
    unfold FileSystem.readToString at hread
    split at hread
    · cases hread
    · cases hread
    · cases hread
    · rename_i s mode hnode
      cases hread
      exact ⟨text, mode, hfind, hnode, h⟩

/-- A configuration is still read where its file and the directories are left. -/
theorem Config.load_keep {toml : Parser} {path : Path} {fs fs' : FileSystem} {cfg : Config}
    (h : Config.load toml path fs = .ok cfg)
    (hdirs : ∀ k, fs.isDir k = true → fs'.isDir k = true)
    (hcontent : Node.content (fs'.node path.resolve) = Node.content (fs.node path.resolve)) :
    Config.load toml path fs' = .ok cfg := by
  obtain ⟨text, mode, hfind, hnode, hparse⟩ := Config.load_eq_ok h
  rw [hnode] at hcontent
  obtain ⟨mode', hnode'⟩ := FileSystem.exists_file_of_content hcontent
  have hread : fs'.atPath path FileSystem.readToString = .ok text := by
    rw [FileSystem.atPath, FileSystem.find_mono hdirs hfind]
    show fs'.readToString path.resolve = .ok text
    rw [FileSystem.readToString, hnode']
  rw [Config.load, hread]
  exact hparse

/-- Nothing is left at the path, and what it does not lead to is as before. -/
structure Removed (fs₀ : FileSystem) (path : Path) (fs : FileSystem) : Prop where
  gone : fs.pathFound path = false
  frame : ∀ k, fs₀.find path ≠ .ok k → fs.node k = fs₀.node k
  dirs : ∀ k, fs.isDir k = fs₀.isDir k

/-- The reply to the result of an authorized request. -/
def Controller.reply : Except String AdminResponse → AdminResponse
  | .ok resp => resp
  | .error message => .error message

/-- The answers, and what each leaves behind. -/
inductive Answered (toml : Parser) (c : Controller) (w : World) :
    AdminRequest → AdminResponse → World → Prop
  | kept (req : AdminRequest) (resp : AdminResponse)
      (hstate : ∀ paused path, resp = .enforcementState paused path → ∃ cfg,
        Config.load toml c.configPath w.fs = .ok cfg ∧ path = cfg.killSwitchPath ∧
          w.fs.pathFound path = paused)
      (hset : ∀ text, req = .setConfig text → resp.refused = true) :
      Answered toml c w req resp w
  | configFailed (text : String) (cfg : Config) (message : String) (fs : FileSystem)
      (hparse : Config.parseToml toml text = .ok cfg)
      (hwritten : Written w.fs (tmpPath c.pid c.configPath "toml") c.configPath
        (above c.configPath) text (.error message) fs) :
      Answered toml c w (.setConfig text) (.error message) { w with fs := fs }
  | configSet (text : String) (cfg : Config) (fs : FileSystem) (resp : AdminResponse)
      (hparse : Config.parseToml toml text = .ok cfg)
      (hwritten : Written w.fs (tmpPath c.pid c.configPath "toml") c.configPath
        (above c.configPath) text (.ok ()) fs)
      (hresp : resp = Controller.reply ((validateKillSwitchPath cfg.killSwitchPath).map fun _ =>
        .enforcementState (fs.pathFound cfg.killSwitchPath) cfg.killSwitchPath)) :
      Answered toml c w (.setConfig text) resp ({ w with fs := fs }.kicked c)
  | reloaded : Answered toml c w .reloadDaemon .ok (w.kicked c)
  | marked (cfg : Config) (r : Except String Unit) (fs : FileSystem) (resp : AdminResponse)
      (hload : Config.load toml c.configPath w.fs = .ok cfg)
      (hvalid : validateKillSwitchPath cfg.killSwitchPath = .ok cfg.killSwitchPath)
      (hwritten : Written w.fs (tmpPath c.pid cfg.killSwitchPath "marker") cfg.killSwitchPath
        (above cfg.killSwitchPath) markerText r fs)
      (hresp : resp = Controller.reply (r.map fun _ =>
        .enforcementState true cfg.killSwitchPath)) :
      Answered toml c w (.setEnforcementPaused true) resp { w with fs := fs }
  | unmarked (cfg : Config) (fs : FileSystem)
      (hload : Config.load toml c.configPath w.fs = .ok cfg)
      (hvalid : validateKillSwitchPath cfg.killSwitchPath = .ok cfg.killSwitchPath)
      (hremoved : Removed w.fs cfg.killSwitchPath fs) :
      Answered toml c w (.setEnforcementPaused false)
        (.enforcementState false cfg.killSwitchPath) { w with fs := fs }

theorem Answered.refused (toml : Parser) (c : Controller) (w : World) (req : AdminRequest)
    {resp : AdminResponse} (h : resp.refused = true) : Answered toml c w req resp w := by
  refine .kept req resp (fun paused path hr => ?_) fun _ _ => h
  rw [hr] at h
  cases h

theorem pathFound_of_notFound {fs : FileSystem} {path : Path}
    (h : fs.atPath path FileSystem.removeFile = .error .notFound) : fs.pathFound path = false := by
  unfold FileSystem.atPath at h
  unfold FileSystem.pathFound
  cases hfind : fs.find path with
  | error e => rfl
  | ok l =>
    rw [hfind] at h
    have hremove : fs.removeFile l = .error .notFound := h
    unfold FileSystem.removeFile at hremove
    split at hremove
    · rename_i hnone
      show fs.pathExists l = false
      rw [FileSystem.pathExists, hnone]
      rfl
    · cases hremove
    · cases hremove

theorem removed_of_ok {fs fs' : FileSystem} {path : Path}
    (h : ifExists fs (fs.atPath path FileSystem.removeFile) = .ok fs') : Removed fs path fs' := by
  rcases ifExists_eq_ok h with hr | ⟨hr, rfl⟩
  · obtain ⟨hfind, hremove⟩ := FileSystem.atPath_eq_ok hr
    have hnode := FileSystem.removeFile_node hremove
    refine ⟨FileSystem.pathFound_of_none ?_, fun k hk => ?_, FileSystem.isDir_removeFile hremove⟩
    · rw [hnode, if_pos rfl]
    · have hne : k ≠ path.resolve := fun heq => hk (heq ▸ hfind)
      rw [hnode, if_neg hne]
  · exact ⟨pathFound_of_notFound hr, fun _ _ => rfl, fun _ => rfl⟩

/-! ## Each request -/

theorem outcome_onFiles {α : Type} (x : Fallible FileSystem α) (w : World) :
    (onFiles x).outcome w = ((x.outcome w.fs).1, { w with fs := (x.outcome w.fs).2 }) := rfl

theorem outcome_killSwitchPaused (cfg : Config) (fs : FileSystem) :
    (killSwitchPaused cfg).outcome fs =
      ((validateKillSwitchPath cfg.killSwitchPath).map fun _ => fs.pathFound cfg.killSwitchPath,
        fs) := by
  rw [killSwitchPaused, Fallible.outcome_bind, Fallible.outcome_query]
  cases validateKillSwitchPath cfg.killSwitchPath <;> rfl

theorem validateKillSwitchPath_ok {path q : Path} (h : validateKillSwitchPath path = .ok q) :
    q = path := by
  unfold validateKillSwitchPath at h
  split at h
  · cases h
  · split at h
    · cases h
    · split at h
      · cases h
      · cases h
        rfl

theorem outcome_removeFileIfExists (path : Path) (fs : FileSystem) :
    (∃ fs', (removeFileIfExists path).outcome fs = (.ok (), fs') ∧ Removed fs path fs') ∨
      (removeFileIfExists path).outcome fs = (.error ("removing " ++ path.display), fs) := by
  rw [removeFileIfExists, Fallible.outcome_change]
  cases h : ifExists fs (fs.atPath path FileSystem.removeFile) with
  | ok fs' => exact Or.inl ⟨fs', rfl, removed_of_ok h⟩
  | error e => exact Or.inr rfl

theorem outcome_paused (cfg : Config) (w : World) :
    (onFiles (killSwitchPaused cfg)).outcome w =
      ((validateKillSwitchPath cfg.killSwitchPath).map fun _ => w.fs.pathFound cfg.killSwitchPath,
        w) := by
  rw [outcome_onFiles, outcome_killSwitchPaused]

namespace Controller

theorem outcome_kickstart (c : Controller) (w : World) :
    c.kickstartDaemonAfterReply.outcome w = (.ok (), w.kicked c) := rfl

theorem handle_allowed (toml : Parser) (c : Controller) {operator : Operator}
    (h : operator.allowed = true) (req : AdminRequest) (w : World) :
    c.handle toml operator req w =
      (reply ((c.handleAuthorized toml req).outcome w).1,
        ((c.handleAuthorized toml req).outcome w).2) := by
  rw [handle, if_neg (by simp [h])]
  cases (c.handleAuthorized toml req).outcome w with
  | mk r w' => cases r <;> rfl

def Valid (cfg : Config) : Prop := (validateKillSwitchPath cfg.killSwitchPath).isOk = true

instance (cfg : Config) : Decidable (Valid cfg) := by
  unfold Valid
  infer_instance

theorem valid_of_ok {cfg : Config} {p : Path}
    (h : validateKillSwitchPath cfg.killSwitchPath = .ok p) : Valid cfg := by
  rw [Valid, h]
  rfl

theorem parent_of_valid {cfg : Config} (h : Valid cfg) : cfg.killSwitchPath.parent ≠ none := by
  intro hnone
  unfold Valid validateKillSwitchPath at h
  rw [hnone, if_pos rfl] at h
  split at h
  · cases h
  · split at h
    · cases h
    · cases h

variable (toml : Parser) (c : Controller) (w : World)

/-- What `handleAuthorized` is proved to do, in the form of an answer. -/
def Answers (req : AdminRequest) : Prop :=
  Answered toml c w req (reply ((c.handleAuthorized toml req).outcome w).1)
    ((c.handleAuthorized toml req).outcome w).2

/-- A request that looks something up first is refused when that fails. -/
theorem answered_query {α : Type} {req : AdminRequest} {q : World → Except String α}
    {k : α → Fallible World AdminResponse}
    (hk : ∀ a, q w = .ok a →
      Answered toml c w req (reply ((k a).outcome w).1) ((k a).outcome w).2) :
    Answered toml c w req (reply ((Fallible.query q >>= k).outcome w).1)
      ((Fallible.query q >>= k).outcome w).2 := by
  rw [Fallible.outcome_bind, Fallible.outcome_query]
  cases hq : q w with
  | error e => exact .refused toml c w _ rfl
  | ok a => exact hk a hq

/-- A request that ends by telling the state of the switch. -/
theorem answered_paused {req : AdminRequest} (cfg : Config) {f : Bool → AdminResponse}
    (hf : Answered toml c w req (f (w.fs.pathFound cfg.killSwitchPath)) w) :
    Answered toml c w req
      (reply ((onFiles (killSwitchPaused cfg) >>= fun paused => pure (f paused)).outcome w).1)
      ((onFiles (killSwitchPaused cfg) >>= fun paused => pure (f paused)).outcome w).2 := by
  rw [Fallible.outcome_bind, outcome_paused]
  cases validateKillSwitchPath cfg.killSwitchPath with
  | error e => exact .refused toml c w _ rfl
  | ok p => exact hf

theorem answers_getConfig : Answers toml c w .getConfig := by
  unfold Answers handleAuthorized
  refine answered_query toml c w fun text _ => ?_
  refine answered_query toml c w fun cfg _ => ?_
  refine answered_paused toml c w cfg ?_
  exact .kept _ _ (fun _ _ h => by cases h) fun _ h => by cases h

theorem answers_validateConfig (text : String) : Answers toml c w (.validateConfig text) := by
  unfold Answers handleAuthorized
  refine answered_query toml c w fun cfg _ => ?_
  exact .kept _ _ (fun _ _ h => by cases h) fun _ h => by cases h

theorem answers_getDaemonInfo : Answers toml c w .getDaemonInfo :=
  .kept _ _ (fun _ _ h => by cases h) fun _ h => by cases h

theorem answers_reloadDaemon : Answers toml c w .reloadDaemon := by
  unfold Answers handleAuthorized
  exact answered_query toml c w fun cfg _ => .reloaded

theorem answers_getEnforcementState : Answers toml c w .getEnforcementState := by
  unfold Answers handleAuthorized
  refine answered_query toml c w fun cfg hload => ?_
  refine answered_paused toml c w cfg ?_
  refine .kept _ _ (fun paused path h => ?_) fun _ h => by cases h
  cases h
  exact ⟨cfg, hload, rfl, rfl⟩

theorem answers_setConfig (text : String) : Answers toml c w (.setConfig text) := by
  unfold Answers handleAuthorized
  refine answered_query toml c w fun cfg hparse => ?_
  have hwritten := writeConfigAtomic_spec c.pid c.configPath text w.fs w.fs rfl
  rw [Fallible.outcome_bind, outcome_onFiles]
  cases hrun : (writeConfigAtomic c.pid c.configPath text).outcome w.fs with
  | mk r fs =>
    rw [hrun] at hwritten
    cases r with
    | error e => exact .configFailed text cfg e fs hparse hwritten
    | ok u =>
      dsimp only
      rw [Fallible.outcome_bind, outcome_kickstart]
      dsimp only
      rw [Fallible.outcome_bind, outcome_paused, World.kicked_fs]
      cases hvalid : validateKillSwitchPath cfg.killSwitchPath with
      | error e => exact .configSet text cfg fs _ hparse hwritten (by rw [hvalid]; rfl)
      | ok p => exact .configSet text cfg fs _ hparse hwritten (by rw [hvalid]; rfl)

theorem answers_setEnforcementPaused (paused : Bool) :
    Answers toml c w (.setEnforcementPaused paused) := by
  unfold Answers handleAuthorized
  refine answered_query toml c w fun cfg hload => ?_
  rw [Fallible.outcome_bind, outcome_onFiles, Daemon.setEnforcementPaused,
    Fallible.outcome_bind, Fallible.outcome_query]
  cases hvalid : validateKillSwitchPath cfg.killSwitchPath with
  | error e => exact .refused toml c w _ rfl
  | ok p =>
    obtain rfl := validateKillSwitchPath_ok hvalid
    cases paused with
    | true =>
      have hwritten := writeMarkerAtomic_spec c.pid cfg.killSwitchPath w.fs w.fs rfl
      simp only [if_true]
      cases hrun : (writeMarkerAtomic c.pid cfg.killSwitchPath).outcome w.fs with
      | mk r fs =>
        rw [hrun] at hwritten
        cases r with
        | error e => exact .marked cfg _ fs _ hload hvalid hwritten rfl
        | ok u => exact .marked cfg _ fs _ hload hvalid hwritten rfl
    | false =>
      simp only [Bool.false_eq_true, if_false]
      rcases outcome_removeFileIfExists cfg.killSwitchPath w.fs with ⟨fs, hrun, hremoved⟩ | hrun
      · rw [hrun]
        exact .unmarked cfg fs hload hvalid hremoved
      · rw [hrun]
        exact .refused toml c w _ rfl

/-- All requests but the preparation of an uninstall. -/
theorem handle_answered (operator : Operator) {req : AdminRequest}
    (hreq : ∀ b, req ≠ .prepareUninstall b) :
    Answered toml c w req (c.handle toml operator req w).1 (c.handle toml operator req w).2 := by
  by_cases hallowed : operator.allowed = true
  · rw [handle_allowed toml c hallowed]
    cases req with
    | getConfig => exact answers_getConfig toml c w
    | validateConfig text => exact answers_validateConfig toml c w text
    | setConfig text => exact answers_setConfig toml c w text
    | reloadDaemon => exact answers_reloadDaemon toml c w
    | getDaemonInfo => exact answers_getDaemonInfo toml c w
    | getEnforcementState => exact answers_getEnforcementState toml c w
    | setEnforcementPaused paused => exact answers_setEnforcementPaused toml c w paused
    | prepareUninstall b => exact absurd rfl (hreq b)
  · rw [handle, if_pos (by simpa using hallowed)]
    exact .refused toml c w req rfl

end Controller

end Daemon
end Konstantin
