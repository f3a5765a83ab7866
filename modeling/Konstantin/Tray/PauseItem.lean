import Mathlib.Logic.Function.Basic
import Konstantin.Daemon.Acceptance

/-!
# The pause item of the menu

The item `Pause Enforcement` of `crates/tray/src/bin/tray.rs`.  Its title shows a
value that the tray keeps: unknown at the start and after a reconnect, refreshed
every half minute by a thread of its own, and set by a toggle.  A click asks the
daemon anew and sends the opposite of the answer.

Whether a click does what its title says is told from what came to the tray: when it
drew its menu, what its refreshes and toggles found, and when it was reconnected.

Instants of the monotonic clock are counted in nanoseconds.
-/

namespace Konstantin
namespace Tray

open Fs Toml Effect Daemon Proto

inductive PauseTitle where
  | pause
  | unpause
  deriving DecidableEq

def PauseTitle.text : PauseTitle → String
  | pause => "Pause Enforcement"
  | unpause => "Unpause Enforcement"

def pauseTitle : Option Bool → PauseTitle
  | some true => .unpause
  | _ => .pause

def enforcementRefreshInterval : Nat := 30 * 10 ^ 9

structure Latest where
  disconnected : Bool
  enforcementPaused : Option Bool
  enforcementRefreshing : Bool
  enforcementLastRefresh : Option Nat
  deriving DecidableEq

def Latest.default : Latest where
  disconnected := true
  enforcementPaused := none
  enforcementRefreshing := false
  enforcementLastRefresh := none

/-- The thread that refreshes, before and after it has its answer.  An answer that
is no flag is an error. -/
inductive Refresh where
  | asking
  | answered (paused : Option Bool)
  deriving DecidableEq

/-- A toggle: the title that was clicked, what it will send, and what the daemon
replied to the change. -/
inductive Toggle where
  | asking (title : PauseTitle)
  | sending (title : PauseTitle) (target : Bool)
  | storing (paused : Bool)
  deriving DecidableEq

structure PauseItem where
  clock : Nat
  world : World
  latest : Latest
  title : PauseTitle
  enabled : Bool
  /-- A drain between its two looks at `Latest`, with the flag it found. -/
  draining : Option Bool
  refresh : Option Refresh
  toggles : Nat → Option Toggle

/-- A request may get lost or fail on the way, and its reply as well. -/
inductive PauseStep where
  | advance (by_ : Nat)
  | elsewhere (w : World)
  | connect
  | disconnect
  | drain
  | maybeRefresh
  | refreshAnswer (delivered : Bool)
  | refreshDone
  | click (i : Nat)
  | toggleAnswer (i : Nat) (delivered : Bool)
  | toggleSend (i : Nat) (delivered replied : Bool)
  | toggleStore (i : Nat)

def pausedOf : AdminResponse → Option Bool
  | .enforcementState paused _ => some paused
  | _ => none

namespace PauseItem

def start (w : World) : PauseItem where
  clock := 0
  world := w
  latest := .default
  title := .pause
  enabled := false
  draining := none
  refresh := none
  toggles := fun _ => none

def put (s : PauseItem) (i : Nat) (toggle : Option Toggle) : PauseItem :=
  { s with toggles := Function.update s.toggles i toggle }

theorem put_toggles (s : PauseItem) (i : Nat) (o : Option Toggle) (j : Nat) :
    (s.put i o).toggles j = if j = i then o else s.toggles j :=
  Function.update_apply s.toggles i o j

def refreshDue (s : PauseItem) : Bool :=
  !s.latest.enforcementRefreshing &&
    match s.latest.enforcementLastRefresh with
    | none => true
    | some last => decide (enforcementRefreshInterval ≤ s.clock - last)

section

variable (toml : Parser) (c : Controller) (operator : Operator)

def queryEnforcementPaused (w : World) : Option Bool :=
  pausedOf (c.handle toml operator .getEnforcementState w).1

/-- One step of the timer, of a thread, of the operator at the menu, or of someone
else. -/
def step (s : PauseItem) : PauseStep → Option PauseItem
  | .advance n => some { s with clock := s.clock + n }
  | .elsewhere w => some { s with world := w }
  | .connect => some { s with latest := { s.latest with
      disconnected := false, enforcementPaused := none, enforcementLastRefresh := none } }
  | .disconnect => some { s with latest := { s.latest with disconnected := true } }
  | .drain =>
    if s.draining = none then
      some { s with
        title := pauseTitle s.latest.enforcementPaused
        enabled := !s.latest.disconnected
        draining := some s.latest.disconnected }
    else none
  | .maybeRefresh => s.draining.map fun disconnected =>
    if !disconnected && s.refreshDue then
      { s with
        draining := none
        latest := { s.latest with enforcementRefreshing := true }
        refresh := some .asking }
    else { s with draining := none }
  | .refreshAnswer delivered =>
    match s.refresh with
    | some .asking => some { s with refresh := some (.answered
        (if delivered then queryEnforcementPaused toml c operator s.world else none)) }
    | _ => none
  | .refreshDone =>
    match s.refresh with
    | some (.answered r) => some { s with
        refresh := none
        latest := { s.latest with
          enforcementRefreshing := false
          enforcementLastRefresh := some s.clock
          enforcementPaused := r.or s.latest.enforcementPaused } }
    | _ => none
  | .click i =>
    if s.enabled ∧ s.draining = none ∧ (s.toggles i).isNone then
      some (s.put i (some (.asking s.title)))
    else none
  | .toggleAnswer i delivered =>
    match s.toggles i with
    | some (.asking title) =>
      match if delivered then queryEnforcementPaused toml c operator s.world else none with
      | some paused => some (s.put i (some (.sending title (!paused))))
      | none => some (s.put i none)
    | _ => none
  | .toggleSend i delivered replied =>
    match s.toggles i with
    | some (.sending _ target) =>
      if delivered then
        let r := c.handle toml operator (.setEnforcementPaused target) s.world
        let result := if replied then pausedOf r.1 else none
        some ({ s with world := r.2 }.put i (result.map .storing))
      else some (s.put i none)
    | _ => none
  | .toggleStore i =>
    match s.toggles i with
    | some (.storing paused) => some ({ s with
        latest := { s.latest with enforcementPaused := some paused } }.put i none)
    | _ => none

/-- A click at `Pause` sends a pause, and a click at `Unpause` an unpause. -/
def DoesWhatItSays (s : PauseItem) (l : PauseStep) (_ : PauseItem) : Prop :=
  ∀ i delivered replied title target, l = .toggleSend i delivered replied →
    s.toggles i = some (.sending title target) →
      (title = .pause → target ≠ false) ∧ (title = .unpause → target ≠ true)

/-! ## What has come to the tray -/

/-- The steps so far, the newest first, each with the machine before it. -/
abbrev Past := List (PauseStep × World)

/-- Whether the marker is there, where the operator may ask for it, the config can be
read, and the path of the marker in it passes its check. -/
def flagTold (w : World) : Option Bool :=
  if operator.allowed then
    match Config.load toml c.configPath w.fs with
    | .ok cfg =>
      if (validateKillSwitchPath cfg.killSwitchPath).isOk then
        some (w.fs.pathFound cfg.killSwitchPath)
      else none
    | .error _ => none
  else none

/-- What the last answer to a refresh told. -/
def answerOf : Past → Option Bool
  | [] => none
  | (.refreshAnswer delivered, w) :: _ => if delivered then flagTold toml c operator w else none
  | _ :: past => answerOf past

/-- What the last answer to the query of toggle `i` told. -/
def askedOf (i : Nat) : Past → Option Bool
  | [] => none
  | (.toggleAnswer j delivered, w) :: past =>
    if j = i then if delivered then flagTold toml c operator w else none else askedOf i past
  | _ :: past => askedOf i past

/-- The last lesson since the last reconnect: a refresh that got its answer, or a
toggle that was stored, which leaves the opposite of what it had found. -/
def keptOf : Past → Option Bool
  | [] => none
  | (.connect, _) :: _ => none
  | (.refreshDone, _) :: past => (answerOf toml c operator past).or (keptOf past)
  | (.toggleStore i, _) :: past => (askedOf toml c operator i past).map (!·)
  | _ :: past => keptOf past

/-- The lesson that was the last one at the last drain. -/
def drawnOf : Past → Option Bool
  | [] => none
  | (.drain, _) :: past => keptOf toml c operator past
  | _ :: past => drawnOf past

/-- The lesson that was the last one at the last drain before the click of toggle `i`. -/
def clickedOf (i : Nat) : Past → Option Bool
  | [] => none
  | (.click j, _) :: past => if j = i then drawnOf toml c operator past else clickedOf i past
  | _ :: past => clickedOf i past

/-- The query of a click finds the marker exactly if the lesson behind the click is
that enforcement is paused. -/
def LessonHolds (a : PauseItem × Past) (l : PauseStep) (_ : PauseItem × Past) : Prop :=
  ∀ i delivered replied, l = .toggleSend i delivered replied →
    (askedOf toml c operator i a.2 = some true ↔ clickedOf toml c operator i a.2 = some true)

/-- What a toggle holds, by what has come to the tray. -/
def ToggleTracks (past : Past) (i : Nat) : Toggle → Prop
  | .asking title => title = pauseTitle (clickedOf toml c operator i past)
  | .sending title target => title = pauseTitle (clickedOf toml c operator i past) ∧
      askedOf toml c operator i past = some (!target)
  | .storing paused => askedOf toml c operator i past = some (!paused)

/-- What the tray holds, by what has come to it. -/
structure Tracks (s : PauseItem) (past : Past) : Prop where
  kept : s.latest.enforcementPaused = keptOf toml c operator past
  drawn : s.title = pauseTitle (drawnOf toml c operator past)
  answered : ∀ r, s.refresh = some (.answered r) → r = answerOf toml c operator past
  toggle : ∀ i o, s.toggles i = some o → ToggleTracks toml c operator past i o

end

variable {toml : Parser} {c : Controller} {operator : Operator} {s t : PauseItem} {past : Past}

theorem queryEnforcementPaused_eq (toml : Parser) (c : Controller) (operator : Operator)
    (w : World) : queryEnforcementPaused toml c operator w = flagTold toml c operator w := by
  unfold queryEnforcementPaused flagTold
  by_cases hallowed : operator.allowed = true
  · rw [if_pos hallowed, Controller.handle_allowed toml c hallowed, Controller.handleAuthorized,
      Controller.loadConfig, Fallible.outcome_bind, Fallible.outcome_query]
    cases Config.load toml c.configPath w.fs with
    | error e => rfl
    | ok cfg =>
      dsimp only
      rw [Fallible.outcome_bind, outcome_paused]
      cases validateKillSwitchPath cfg.killSwitchPath <;> rfl
  · rw [if_neg hallowed, Controller.handle, if_pos (by simpa using hallowed)]
    rfl

/-- The flag in the reply to a change is the one that was asked for. -/
theorem pausedOf_set {target paused : Bool} {w : World}
    (h : pausedOf (c.handle toml operator (.setEnforcementPaused target) w).1 = some paused) :
    paused = target := by
  by_cases hallowed : operator.allowed = true
  · rw [Controller.handle_allowed toml c hallowed, Controller.handleAuthorized,
      Controller.loadConfig, Fallible.outcome_bind, Fallible.outcome_query] at h
    cases hload : Config.load toml c.configPath w.fs with
    | error e =>
      rw [hload] at h
      cases h
    | ok cfg =>
      rw [hload] at h
      dsimp only at h
      rw [Fallible.outcome_bind] at h
      cases hset : (onFiles (Daemon.setEnforcementPaused c.pid cfg target)).outcome w with
      | mk r w' =>
        rw [hset] at h
        cases r with
        | error e => cases h
        | ok u =>
          cases h
          rfl
  · rw [Controller.handle, if_pos (by simpa using hallowed)] at h
    cases h

theorem ToggleTracks.mono {i : Nat} {toggle : Toggle} {past' : Past}
    (h : ToggleTracks toml c operator past i toggle)
    (hclicked : clickedOf toml c operator i past' = clickedOf toml c operator i past)
    (hasked : askedOf toml c operator i past' = askedOf toml c operator i past) :
    ToggleTracks toml c operator past' i toggle := by
  cases toggle with
  | asking title => exact h.trans (congrArg pauseTitle hclicked.symm)
  | sending title target =>
    exact ⟨h.1.trans (congrArg pauseTitle hclicked.symm), hasked.trans h.2⟩
  | storing paused => exact hasked.trans h

/-- A step of one toggle leaves the others what they are. -/
theorem Tracks.put (h : Tracks toml c operator s past) {i : Nat} {o : Option Toggle}
    {past' : Past}
    (hothers : ∀ j, j ≠ i →
      clickedOf toml c operator j past' = clickedOf toml c operator j past ∧
        askedOf toml c operator j past' = askedOf toml c operator j past)
    (ho : ∀ toggle, o = some toggle → ToggleTracks toml c operator past' i toggle) (j : Nat)
    (toggle : Toggle) (hj : (s.put i o).toggles j = some toggle) :
    ToggleTracks toml c operator past' j toggle := by
  rw [put_toggles] at hj
  split at hj
  · rename_i hji
    subst hji
    exact ho toggle hj
  · rename_i hji
    exact (h.toggle j toggle hj).mono (hothers j hji).1 (hothers j hji).2

theorem tracks_step (h : Tracks toml c operator s past) {l : PauseStep}
    (hstep : s.step toml c operator l = some t) :
    Tracks toml c operator t ((l, s.world) :: past) := by
  cases l with
  | advance n =>
    cases hstep
    exact ⟨h.kept, h.drawn, h.answered, fun i o hi => (h.toggle i o hi).mono rfl rfl⟩
  | elsewhere w =>
    cases hstep
    exact ⟨h.kept, h.drawn, h.answered, fun i o hi => (h.toggle i o hi).mono rfl rfl⟩
  | connect =>
    cases hstep
    exact ⟨rfl, h.drawn, h.answered, fun i o hi => (h.toggle i o hi).mono rfl rfl⟩
  | disconnect =>
    cases hstep
    exact ⟨h.kept, h.drawn, h.answered, fun i o hi => (h.toggle i o hi).mono rfl rfl⟩
  | drain =>
    simp only [step] at hstep
    split at hstep
    · cases hstep
      exact ⟨h.kept, congrArg pauseTitle h.kept, h.answered,
        fun i o hi => (h.toggle i o hi).mono rfl rfl⟩
    · cases hstep
  | maybeRefresh =>
    obtain ⟨disconnected, -, rfl⟩ := Option.map_eq_some_iff.mp hstep
    split
    · exact ⟨h.kept, h.drawn, fun _ hr => (by cases hr),
        fun i o hi => (h.toggle i o hi).mono rfl rfl⟩
    · exact ⟨h.kept, h.drawn, h.answered, fun i o hi => (h.toggle i o hi).mono rfl rfl⟩
  | refreshAnswer delivered =>
    simp only [step] at hstep
    split at hstep
    · cases hstep
      refine ⟨h.kept, h.drawn, fun r hr => ?_, fun i o hi => (h.toggle i o hi).mono rfl rfl⟩
      cases hr
      rw [queryEnforcementPaused_eq]
      rfl
    · cases hstep
  | refreshDone =>
    simp only [step] at hstep
    split at hstep
    · rename_i r hr
      cases hstep
      refine ⟨?_, h.drawn, fun _ hr => (by cases hr),
        fun i o hi => (h.toggle i o hi).mono rfl rfl⟩
      rw [h.answered r hr]
      exact congrArg (Option.or (answerOf toml c operator past)) h.kept
    · cases hstep
  | click i =>
    simp only [step] at hstep
    split at hstep
    · cases hstep
      refine ⟨h.kept, h.drawn, h.answered, h.put (fun j hj => ⟨if_neg (Ne.symm hj), rfl⟩) ?_⟩
      intro toggle htoggle
      cases htoggle
      exact h.drawn.trans (congrArg pauseTitle (if_pos rfl).symm)
    · cases hstep
  | toggleAnswer i delivered =>
    have hothers : ∀ j, j ≠ i →
        clickedOf toml c operator j ((.toggleAnswer i delivered, s.world) :: past) =
            clickedOf toml c operator j past ∧
          askedOf toml c operator j ((.toggleAnswer i delivered, s.world) :: past) =
            askedOf toml c operator j past :=
      fun j hj => ⟨rfl, if_neg (Ne.symm hj)⟩
    simp only [step, queryEnforcementPaused_eq] at hstep
    split at hstep
    · rename_i title hi
      split at hstep
      · rename_i paused hflag
        cases hstep
        refine ⟨h.kept, h.drawn, h.answered, h.put hothers fun toggle htoggle => ?_⟩
        cases htoggle
        refine ⟨h.toggle i _ hi, (if_pos rfl).trans ?_⟩
        rw [Bool.not_not]
        exact hflag
      · cases hstep
        exact ⟨h.kept, h.drawn, h.answered, h.put hothers fun _ ho => by cases ho⟩
    · cases hstep
  | toggleSend i delivered replied =>
    simp only [step] at hstep
    split at hstep
    · rename_i title target hi
      split at hstep
      · cases hstep
        refine ⟨h.kept, h.drawn, h.answered, fun j toggle hj => ?_⟩
        refine h.put (fun _ _ => ⟨rfl, rfl⟩) (fun toggle htoggle => ?_) j toggle hj
        obtain ⟨paused, hreply, rfl⟩ := Option.map_eq_some_iff.mp htoggle
        cases replied with
        | false => cases hreply
        | true =>
          obtain rfl := pausedOf_set hreply
          exact (h.toggle i _ hi).2
      · cases hstep
        exact ⟨h.kept, h.drawn, h.answered, h.put (fun _ _ => ⟨rfl, rfl⟩) fun _ ho => by cases ho⟩
    · cases hstep
  | toggleStore i =>
    simp only [step] at hstep
    split at hstep
    · rename_i paused hi
      cases hstep
      refine ⟨?_, h.drawn, h.answered, fun j toggle hj => ?_⟩
      · have hasked : askedOf toml c operator i past = some (!paused) := h.toggle i _ hi
        show some paused = (askedOf toml c operator i past).map (!·)
        rw [hasked, Option.map_some, Bool.not_not]
      · exact h.put (fun _ _ => ⟨rfl, rfl⟩) (fun _ ho => by cases ho) j toggle hj
    · cases hstep

/-- A click on the title of what was known sends what the title says if what it finds
is that. -/
theorem found_iff (known : Option Bool) (target : Bool) :
    (some (!target) = some true ↔ known = some true) ↔
      (pauseTitle known = .pause → target ≠ false) ∧
        (pauseTitle known = .unpause → target ≠ true) := by
  cases known with
  | none => cases target <;> decide
  | some paused => cases paused <;> cases target <;> decide

/-- The title is that of the lesson behind the click, and the target the opposite of
what the query found. -/
theorem lessonHolds_iff (h : Tracks toml c operator s past) {l : PauseStep}
    (hstep : s.step toml c operator l = some t) {past' : Past} :
    LessonHolds toml c operator (s, past) l (t, past') ↔ DoesWhatItSays s l t := by
  constructor
  · intro hlesson i delivered replied title target hl hi
    obtain ⟨rfl, hasked⟩ := h.toggle i _ hi
    refine (found_iff _ target).mp ?_
    rw [← hasked]
    exact hlesson i delivered replied hl
  · intro hright i delivered replied hl
    subst hl
    simp only [step] at hstep
    split at hstep
    · rename_i title target hi
      obtain ⟨rfl, hasked⟩ := h.toggle i _ hi
      dsimp only
      rw [hasked]
      exact (found_iff _ target).mpr (hright i delivered replied _ target rfl hi)
    · cases hstep

/-- In a run, each click does what its title says exactly when the query of each click
finds the marker as the lesson behind that click has it. -/
theorem doesWhatItSays_iff_lessonHolds (toml : Parser) (c : Controller) (operator : Operator)
    (w : World) (ls : List PauseStep) :
    Transition.Along (step toml c operator) DoesWhatItSays (start w) ls ↔
      Transition.Along (Transition.recorded PauseItem.world (step toml c operator))
        (LessonHolds toml c operator) (start w, []) ls := by
  have hstart : Tracks toml c operator (start w) [] :=
    ⟨rfl, rfl, fun _ hr => (by cases hr), fun _ _ hi => by cases hi⟩
  rw [← Transition.along_recorded PauseItem.world (start w) [] ls]
  symm
  refine Transition.along_iff (I := fun a => Tracks toml c operator a.1 a.2) ?_ ?_ ls hstart
  · intro a l b hb ha
    obtain ⟨t, ht, rfl⟩ := Option.map_eq_some_iff.mp hb
    exact lessonHolds_iff ha ht
  · intro a l b hb ha _
    obtain ⟨t, ht, rfl⟩ := Option.map_eq_some_iff.mp hb
    exact tracks_step ha ht

/-! ## A pause that was made before the tray was started -/

/-- The system daemon with a config file and the marker. -/
def pausedWorld : World :=
  (systemController.handle Session.sampleToml allowedOperator (.setEnforcementPaused true)
    (systemController.handle Session.sampleToml allowedOperator (.setConfig "")
      ⟨FileSystem.empty, false⟩).2).2

/-- The tray connects, shows its menu, and the item is clicked before the first
refresh has an answer. -/
def earlyClick : List PauseStep :=
  [.connect, .drain, .maybeRefresh, .click 0, .toggleAnswer 0 true]

def sends : Toggle → Option (PauseTitle × Bool)
  | .sending title target => some (title, target)
  | _ => none

theorem earlyClick_sends :
    (Transition.exec (step Session.sampleToml systemController allowedOperator)
        (start pausedWorld) earlyClick).bind
      (fun s => (s.step Session.sampleToml systemController allowedOperator
        (.toggleSend 0 true true)).bind fun _ => (s.toggles 0).bind sends) =
      some (.pause, false) := by
  decide +kernel

/-- A click at `Pause Enforcement` ends a pause. -/
theorem doesWhatItSays_fails :
    ¬ Transition.Along (step Session.sampleToml systemController allowedOperator) DoesWhatItSays
      (start pausedWorld) (earlyClick ++ .toggleSend 0 true true :: []) := by
  intro h
  obtain ⟨s, hs, hsend⟩ := Option.bind_eq_some_iff.mp earlyClick_sends
  obtain ⟨t, ht, htoggle⟩ := Option.bind_eq_some_iff.mp hsend
  obtain ⟨toggle, hi, hsent⟩ := Option.bind_eq_some_iff.mp htoggle
  cases toggle with
  | sending title target =>
    cases hsent
    exact (Transition.along_at h hs ht 0 true true .pause false rfl hi).1 rfl rfl
  | _ => cases hsent

end PauseItem

end Tray
end Konstantin
