import Mathlib.Logic.Function.Basic
import Konstantin.Daemon.ConcurrentSet
import Konstantin.Daemon.Room
import Konstantin.Streams.Register

/-!
# Several operators pausing and resuming at once

The requests of different peers that pause, resume or look at the enforcement,
interleaved by call like the `SetConfig` requests: the controller takes no lock,
and all that pause write one temporary.  Here every request writes the same
text, so the requests can get in each other's way, but none of them takes effect
halfway: the marker is a register that they set and read.
-/

namespace Konstantin
namespace Daemon

open Fs Toml Effect Proto Streams

/-! ## The calls of a pause -/

def createMarkerDir (path : Path) : Fallible FileSystem Unit :=
  match path.parent with
  | none => throw "kill_switch_path unexpectedly has no parent"
  | some parent => createDirAll ("creating kill-switch dir " ++ parent.display) parent

theorem writeMarkerAtomic_calls (pid : Nat) (path : Path) :
    writeMarkerAtomic pid path =
      (createMarkerDir path >>= fun _ =>
        writeTmp (tmpPath pid path "marker") markerText >>= fun _ =>
          setMode0600 (tmpPath pid path "marker") >>= fun _ =>
            renameTmp (tmpPath pid path "marker") path >>= fun _ => setMode0600 path) := by
  unfold writeMarkerAtomic createMarkerDir
  cases path.parent with
  | none => rfl
  | some parent => rfl

theorem createMarkerDir_ok {path : Path} {fs : FileSystem} (hparent : path.parent ≠ none)
    (h : (fs.createDirAll (above path)).1 = .ok ()) :
    (createMarkerDir path).outcome fs = (.ok (), (fs.createDirAll (above path)).2) := by
  obtain ⟨parent, hp⟩ := Option.ne_none_iff_exists'.mp hparent
  have habove : above path = parent.trail := by rw [above, hp, Option.elim_some]
  rw [habove] at h ⊢
  unfold createMarkerDir
  rw [hp]
  show (createDirAll _ parent).outcome fs = _
  rw [outcome_createDirAll, h]
  rfl

/-! ## The requests -/

/-- The requests about the marker. -/
inductive MarkerRequest where
  | pause
  | resume
  | look
  deriving DecidableEq

inductive MarkerCall where
  | creating
  | writing
  | restrictingTmp
  | replacing
  | restricting
  | removing
  | looking
  deriving DecidableEq

/-- A request under way holds the configuration that it loaded. -/
inductive MarkerPhase where
  | loading
  | going (cfg : Config) (call : MarkerCall)
  | answered (resp : AdminResponse)
  deriving DecidableEq

namespace MarkerRequest

def admin : MarkerRequest → AdminRequest
  | pause => .setEnforcementPaused true
  | resume => .setEnforcementPaused false
  | look => .getEnforcementState

/-- The first call behind the load of the configuration. -/
def first : MarkerRequest → MarkerCall
  | pause => .creating
  | resume => .removing
  | look => .looking

end MarkerRequest

def MarkerPhase.finished : MarkerPhase → Bool
  | answered _ => true
  | _ => false

namespace Controller

def markerTmp (c : Controller) (cfg : Config) : Path := tmpPath c.pid cfg.killSwitchPath "marker"

def answerMarker (r : Except String AdminResponse) : MarkerPhase := .answered (reply r)

def advanceMarker (toml : Parser) (c : Controller) (req : MarkerRequest) :
    MarkerPhase × World → MarkerPhase × World
  | (.loading, w) =>
    match Config.load toml c.configPath w.fs with
    | .error message => (answerMarker (.error message), w)
    | .ok cfg =>
      match validateKillSwitchPath cfg.killSwitchPath with
      | .error message => (answerMarker (.error message), w)
      | .ok _ => (.going cfg req.first, w)
  | (.going cfg .creating, w) =>
    Fallible.proceed answerMarker (onFiles (createMarkerDir cfg.killSwitchPath))
      (.going cfg .writing) w
  | (.going cfg .writing, w) =>
    Fallible.proceed answerMarker (onFiles (writeTmp (c.markerTmp cfg) markerText))
      (.going cfg .restrictingTmp) w
  | (.going cfg .restrictingTmp, w) =>
    Fallible.proceed answerMarker (onFiles (setMode0600 (c.markerTmp cfg)))
      (.going cfg .replacing) w
  | (.going cfg .replacing, w) =>
    Fallible.proceed answerMarker (onFiles (renameTmp (c.markerTmp cfg) cfg.killSwitchPath))
      (.going cfg .restricting) w
  | (.going cfg .restricting, w) =>
    Fallible.proceed answerMarker (onFiles (setMode0600 cfg.killSwitchPath))
      (answerMarker (.ok (.enforcementState true cfg.killSwitchPath))) w
  | (.going cfg .removing, w) =>
    Fallible.proceed answerMarker (onFiles (removeFileIfExists cfg.killSwitchPath))
      (answerMarker (.ok (.enforcementState false cfg.killSwitchPath))) w
  | (.going cfg .looking, w) =>
    (answerMarker (.ok (.enforcementState (w.fs.pathFound cfg.killSwitchPath)
      cfg.killSwitchPath)), w)
  | (.answered resp, w) => (.answered resp, w)

end Controller

/-! ## One request alone -/

section

variable (toml : Parser) (c : Controller)

theorem answerMarker_fixed (req : MarkerRequest) (k : Nat) (r : Except String AdminResponse)
    (w : World) :
    (c.advanceMarker toml req)^[k] (Controller.answerMarker r, w) =
      (Controller.answerMarker r, w) :=
  Function.iterate_fixed rfl k

theorem handleAuthorized_unloaded {message : String} {w : World}
    (h : Config.load toml c.configPath w.fs = .error message) (req : MarkerRequest) :
    (c.handleAuthorized toml req.admin).outcome w = (.error message, w) := by
  cases req <;>
    rw [MarkerRequest.admin, Controller.handleAuthorized, Controller.loadConfig,
      Fallible.outcome_bind, Fallible.outcome_query, h]

theorem handleAuthorized_set {cfg : Config} {w : World}
    (h : Config.load toml c.configPath w.fs = .ok cfg) (paused : Bool) :
    (c.handleAuthorized toml (.setEnforcementPaused paused)).outcome w =
      match validateKillSwitchPath cfg.killSwitchPath with
      | .error message => (.error message, w)
      | .ok _ =>
        (onFiles (if paused then writeMarkerAtomic c.pid cfg.killSwitchPath
            else removeFileIfExists cfg.killSwitchPath) >>= fun _ =>
          pure (.enforcementState paused cfg.killSwitchPath)).outcome w := by
  rw [Controller.handleAuthorized, Controller.loadConfig, Fallible.outcome_bind,
    Fallible.outcome_query, h]
  dsimp only
  rw [Fallible.outcome_bind, outcome_onFiles, setEnforcementPaused, Fallible.outcome_bind,
    Fallible.outcome_query]
  cases hvalid : validateKillSwitchPath cfg.killSwitchPath with
  | error message => rfl
  | ok p =>
    obtain rfl := validateKillSwitchPath_ok hvalid
    dsimp only
    rw [Fallible.outcome_bind, outcome_onFiles]

theorem handleAuthorized_look {cfg : Config} {w : World}
    (h : Config.load toml c.configPath w.fs = .ok cfg) :
    (c.handleAuthorized toml .getEnforcementState).outcome w =
      ((validateKillSwitchPath cfg.killSwitchPath).map fun _ =>
        .enforcementState (w.fs.pathFound cfg.killSwitchPath) cfg.killSwitchPath, w) := by
  rw [Controller.handleAuthorized, Controller.loadConfig, Fallible.outcome_bind,
    Fallible.outcome_query, h]
  dsimp only
  rw [Fallible.outcome_bind, outcome_paused]
  cases validateKillSwitchPath cfg.killSwitchPath <;> rfl

/-- The steps of one request that nothing interrupts are `handle`. -/
theorem advanceMarker_alone {operator : Operator} (h : operator.allowed = true)
    (req : MarkerRequest) (w : World) :
    (c.advanceMarker toml req)^[6] (.loading, w) =
      (.answered (c.handle toml operator req.admin w).1,
        (c.handle toml operator req.admin w).2) := by
  rw [Controller.handle_allowed toml c h, Function.iterate_succ_apply, Controller.advanceMarker]
  cases hload : Config.load toml c.configPath w.fs with
  | error message =>
    dsimp only
    rw [answerMarker_fixed, handleAuthorized_unloaded toml c hload]
    rfl
  | ok cfg =>
    dsimp only
    have hset := handleAuthorized_set toml c hload
    have hlook := handleAuthorized_look toml c hload
    have hend : ∀ r w, c.advanceMarker toml req (Controller.answerMarker r, w) =
        (Controller.answerMarker r, w) := fun _ _ => rfl
    cases hvalid : validateKillSwitchPath cfg.killSwitchPath with
    | error message =>
      rw [hvalid] at hset hlook
      dsimp only
      rw [answerMarker_fixed]
      cases req with
      | pause => rw [MarkerRequest.admin, hset]; rfl
      | resume => rw [MarkerRequest.admin, hset]; rfl
      | look => rw [MarkerRequest.admin, hlook]; rfl
    | ok p =>
      rw [hvalid] at hset hlook
      dsimp only at hset ⊢
      cases req with
      | pause =>
        rw [MarkerRequest.admin, hset, if_pos rfl, writeMarkerAtomic_calls, onFiles_bind,
          onFiles_bind, onFiles_bind, onFiles_bind]
        refine Fallible.iterate_proceed hend (fun w => ?_) w
        refine Fallible.iterate_proceed hend (fun w => ?_) w
        refine Fallible.iterate_proceed hend (fun w => ?_) w
        refine Fallible.iterate_proceed hend (fun w => ?_) w
        refine Fallible.iterate_proceed hend (fun w => ?_) w
        rfl
      | resume =>
        rw [MarkerRequest.admin, hset, if_neg Bool.false_ne_true]
        exact Fallible.iterate_proceed hend (fun w => rfl) w
      | look =>
        rw [MarkerRequest.admin, hlook]
        rfl

end

/-! ## Any number of requests -/

/-- The calls that passed and count: writes of the temporary, renames, removals
and looks at the marker. -/
inductive Passed (n : Nat) where
  | wrote (i : Fin n)
  | renamed (i : Fin n)
  | removed (i : Fin n)
  | looked (i : Fin n) (paused : Bool)
  deriving DecidableEq

namespace Passed

variable {n : Nat}

def author : Passed n → Fin n
  | wrote i => i
  | renamed i => i
  | removed i => i
  | looked i _ => i

/-- What the call did to the marker. -/
def access : Passed n → Option (Access (Fin n) Bool)
  | wrote _ => none
  | renamed i => some (.set i true)
  | removed i => some (.set i false)
  | looked i paused => some (.get i paused)

/-- What the call did to the temporary: a write, or a rename that took it away. -/
def temp : Passed n → Option (Fin n × Bool)
  | wrote i => some (i, true)
  | renamed i => some (i, false)
  | _ => none

/-- What a step of request `i` from one phase to another lets pass. -/
def between (i : Fin n) : MarkerPhase → MarkerPhase → List (Passed n)
  | .going _ .writing, .going _ .restrictingTmp => [wrote i]
  | .going _ .replacing, .going _ .restricting => [renamed i]
  | .going _ .removing, .answered (.enforcementState _ _) => [removed i]
  | .going _ .looking, .answered (.enforcementState paused _) => [looked i paused]
  | _, _ => []

end Passed

/-- The request wrote the temporary and another pause renamed it since, or it made
the marker and a resume removed it since. -/
inductive Overtaken {n : Nat} (history : List (Passed n)) (i : Fin n) : Prop
  | renamed (before after : List (Passed n)) (j : Fin n)
      (hsplit : history = before ++ .wrote i :: after) (hother : j ≠ i)
      (hafter : .renamed j ∈ after) : Overtaken history i
  | removed (before after : List (Passed n)) (j : Fin n)
      (hsplit : history = before ++ .renamed i :: after) (hafter : .removed j ∈ after) :
      Overtaken history i

theorem Overtaken.later {n : Nat} {history : List (Passed n)} {i : Fin n}
    (h : Overtaken history i) (more : List (Passed n)) : Overtaken (history ++ more) i := by
  cases h with
  | renamed before after j hsplit hother hafter =>
    refine .renamed before (after ++ more) j ?_ hother (List.mem_append_left _ hafter)
    rw [hsplit, List.append_assoc, List.cons_append]
  | removed before after j hsplit hafter =>
    refine .removed before (after ++ more) j ?_ (List.mem_append_left _ hafter)
    rw [hsplit, List.append_assoc, List.cons_append]

namespace MarkerRequest

/-- The calls of a request that was accepted. -/
def passed {n : Nat} (i : Fin n) (found : Bool) : MarkerRequest → List (Passed n)
  | pause => [.wrote i, .renamed i]
  | resume => [.removed i]
  | look => [.looked i found]

/-- What the reply says, where a look found the marker or not. -/
def shows (found : Bool) : MarkerRequest → Bool
  | pause => true
  | resume => false
  | look => found

end MarkerRequest

namespace MarkerCall

def request : MarkerCall → MarkerRequest
  | removing => .resume
  | looking => .look
  | _ => .pause

/-- The calls behind this one of the same request. -/
def passed {n : Nat} (i : Fin n) : MarkerCall → List (Passed n)
  | restrictingTmp => [.wrote i]
  | replacing => [.wrote i]
  | restricting => [.wrote i, .renamed i]
  | _ => []

/-- The directories have been made. -/
def late : MarkerCall → Bool
  | writing => true
  | restrictingTmp => true
  | replacing => true
  | restricting => true
  | _ => false

end MarkerCall

structure MarkerRace (n : Nat) where
  world : World
  phase : Fin n → MarkerPhase
  history : List (Passed n)

namespace MarkerPhase

/-- The request wrote the temporary and has yet to rename it. -/
def stages : MarkerPhase → Bool
  | going _ .restrictingTmp => true
  | going _ .replacing => true
  | _ => false

/-- The request may have set the marker. -/
def marks : MarkerPhase → Bool
  | going _ .restricting => true
  | answered _ => true
  | _ => false

end MarkerPhase

namespace MarkerRace

variable {n : Nat}

def start (w : World) : MarkerRace n where
  world := w
  phase := fun _ => .loading
  history := []

/-- The race after a call of request `i` that led to `r`. -/
def record (s : MarkerRace n) (i : Fin n) (r : MarkerPhase × World) : MarkerRace n where
  world := r.2
  phase := Function.update s.phase i r.1
  history := s.history ++ Passed.between i (s.phase i) r.1

def step (toml : Parser) (c : Controller) (reqs : Fin n → MarkerRequest) (s : MarkerRace n)
    (i : Fin n) : Option (MarkerRace n) :=
  if (s.phase i).finished then none
  else some (s.record i (c.advanceMarker toml (reqs i) (s.phase i, s.world)))

/-- What the requests did to the marker, in order. -/
def accesses (s : MarkerRace n) : List (Access (Fin n) Bool) := s.history.filterMap Passed.access

def own (s : MarkerRace n) (i : Fin n) : List (Passed n) := s.history.filter (·.author = i)

def accepted (s : MarkerRace n) (i : Fin n) : Bool :=
  match s.phase i with
  | .answered resp => !resp.refused
  | _ => false

/-- Who wrote or renamed the temporary last, and whether it was a write. -/
def lastTemp (s : MarkerRace n) : Option (Fin n × Bool) :=
  (s.history.filterMap Passed.temp).getLast?

/-! ### What a step leaves of the history -/

section

variable {s : MarkerRace n} {i : Fin n} {r : MarkerPhase × World}

theorem record_phase_self : (s.record i r).phase i = r.1 := by
  show Function.update s.phase i r.1 i = r.1
  rw [Function.update_self]

theorem record_phase_ne {j : Fin n} (h : j ≠ i) : (s.record i r).phase j = s.phase j := by
  show Function.update s.phase i r.1 j = s.phase j
  rw [Function.update_of_ne h]

theorem author_between {x : Passed n} {p q : MarkerPhase} (h : x ∈ Passed.between i p q) :
    x.author = i := by
  unfold Passed.between at h
  split at h
  · rw [List.mem_singleton.mp h]
    rfl
  · rw [List.mem_singleton.mp h]
    rfl
  · rw [List.mem_singleton.mp h]
    rfl
  · rw [List.mem_singleton.mp h]
    rfl
  · exact absurd h List.not_mem_nil

theorem record_own_self :
    (s.record i r).own i = s.own i ++ Passed.between i (s.phase i) r.1 := by
  unfold own
  show (s.history ++ _).filter _ = _
  rw [List.filter_append]
  congr 1
  exact List.filter_eq_self.mpr fun x hx => decide_eq_true (author_between hx)

theorem record_own_ne {j : Fin n} (h : j ≠ i) : (s.record i r).own j = s.own j := by
  unfold own
  show (s.history ++ _).filter _ = _
  rw [List.filter_append]
  have hnone : (Passed.between i (s.phase i) r.1).filter (fun x => decide (x.author = j)) = [] := by
    refine List.filter_eq_nil_iff.mpr fun x hx => ?_
    rw [author_between hx, decide_eq_true_iff]
    exact fun heq => h heq.symm
  rw [hnone, List.append_nil]

theorem record_accesses :
    (s.record i r).accesses =
      s.accesses ++ (Passed.between i (s.phase i) r.1).filterMap Passed.access :=
  List.filterMap_append

theorem record_lastTemp :
    (s.record i r).lastTemp =
      ((Passed.between i (s.phase i) r.1).filterMap Passed.temp).getLast?.or s.lastTemp := by
  unfold lastTemp
  show ((s.history ++ _).filterMap _).getLast? = _
  rw [List.filterMap_append, List.getLast?_append]

theorem mem_own {x : Passed n} : x ∈ s.own x.author ↔ x ∈ s.history := by
  unfold own
  rw [List.mem_filter]
  simp

theorem lastTemp_ne_none {x : Passed n} (hx : x ∈ s.history) (hwho : x.temp ≠ none) :
    s.lastTemp ≠ none := getLast?_filterMap_ne_none hx hwho

theorem lastSet_accesses :
    Access.lastSet s.accesses =
      (s.history.filterMap fun x => x.access.bind Access.setting).getLast? := by
  rw [Access.lastSet, accesses, List.filterMap_filterMap]

theorem lastSet_ne_none {x : Passed n} (hx : x ∈ s.history)
    (hwho : x.access.bind Access.setting ≠ none) : Access.lastSet s.accesses ≠ none := by
  rw [lastSet_accesses]
  exact getLast?_filterMap_ne_none hx hwho

end

end MarkerRace

end Daemon
end Konstantin
