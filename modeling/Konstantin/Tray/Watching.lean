import Konstantin.Daemon.Allowance
import Konstantin.Daemon.Machine
import Konstantin.Tray.Warnings

/-!
# A daemon and the tray of one user

The daemon and its two tasks, its restarts, the status computations for the one
subscription, the statuses on the connection, and the loop of `run_subscriber`
with the tracker that lives across reconnects.  The clock runs in any zone, and a
task reads its date from it.

`compute_status` is taken apart as in `Konstantin.Daemon.Status`: the counters are
read, and the next midnight later, when the status is sent.  When the daemon
computes one is left open.
-/

namespace Konstantin
namespace Tray

open Calendar Daemon

/-- The state read under the lock, and when. -/
structure Reading where
  state : State
  readAt : Int

/-- A status on the connection: what it was computed from, when it was stamped
with the next midnight, and by which of the daemon's processes. -/
structure Pushed where
  process : Nat
  reading : Reading
  stampedAt : Int
  status : UserStatus

structure Watching where
  clock : Int
  starts : Nat
  process : Process
  connected : Bool
  call : Option Reading
  inFlight : List Pushed
  tracker : NotifTracker
  evaluations : List Evaluation

inductive WatchingStep where
  | advance (by_ : Nat)
  | task (l : TaskStep)
  | restart (cfg : Config) (loaded : State) (initial : UserSet)
  | connect
  | disconnect
  | read
  | send
  | receive

def limitOf (cfg : Config) (username : String) : UInt32 :=
  ((cfg.userByName username).map Config.limitSeconds).getD 0

/-- What the user has left of the date `d`: counters of another date say nothing
about it. -/
def remainingOn (p : Process) (username : String) (d : NaiveDate) : Int :=
  ((limitOf p.cfg username).toNat : Int) -
    if p.state.day = some d then ((p.state.used username).toNat : Int) else 0

namespace Watching

def start (z : Local) (clock : Int) (cfg : Config) (loaded : State) (initial : UserSet) :
    Watching where
  clock := clock
  starts := 0
  process := Process.start cfg loaded (z.zone.localDate clock) initial
  connected := false
  call := none
  inFlight := []
  tracker := NotifTracker.new
  evaluations := []

/-- The status is stamped and written. -/
def push (z : Local) (username : String) (uid : UInt32) (s : Watching) (c : Reading) : Watching :=
  { s with
    call := none
    inFlight := s.inFlight ++
      [{ process := s.starts
         reading := c
         stampedAt := s.clock
         status := computeStatus username uid s.process.cfg c.state
           (nextLocalMidnightAfter z s.clock) }] }

/-- The head of the connection is read and evaluated. -/
def evaluate (z : Local) (username : String) (s : Watching) (p : Pushed) (rest : List Pushed) :
    Watching :=
  let r := s.tracker.evaluate p.status
  let today := z.zone.localDate s.clock
  { s with
    inFlight := rest
    tracker := r.1
    evaluations := s.evaluations ++
      [{ date := today
         status := p.status
         remaining := remainingOn s.process username today
         announced := r.2 }] }

/-- One step.  A new process may find any counters in its file and any limits in
its configuration, but the thresholds stay; what the old one sent can still be
read. -/
def step (z : Local) (username : String) (uid : UInt32) (s : Watching) :
    WatchingStep → Option Watching
  | .advance n => some { s with clock := s.clock + n }
  | .task l =>
    if ∀ d ∈ l.dateRead, d = z.zone.localDate s.clock then
      (s.process.step l).map fun p => { s with process := p }
    else none
  | .restart cfg loaded initial =>
    if cfg.warnThresholdsMinutes = s.process.cfg.warnThresholdsMinutes then
      some { s with
        starts := s.starts + 1
        process := Process.start cfg loaded (z.zone.localDate s.clock) initial
        connected := false
        call := none }
    else none
  | .connect => if s.connected then none else some { s with connected := true, inFlight := [] }
  | .disconnect => some { s with connected := false, call := none, inFlight := [] }
  | .read =>
    match s.connected, s.call with
    | true, none => some { s with call := some ⟨s.process.state, s.clock⟩ }
    | _, _ => none
  | .send => s.call.map (s.push z username uid)
  | .receive =>
    match s.inFlight with
    | [] => none
    | p :: rest => some (s.evaluate z username p rest)

/-- What is promised of the warnings, whatever has happened so far. -/
def WarnsDaily (_ : Watching) (_ : WatchingStep) (t : Watching) : Prop :=
  Decreasing t.evaluations ∧ InTime t.evaluations ∧
    Covered t.process.cfg.warnThresholdsMinutes t.evaluations

/-- A locked section applies the date that the clocks show, and adds to the user's
counter without overflow. -/
def CountsToday (z : Local) (username : String) (s : Watching) (l : TaskStep) : Prop :=
  (∀ today ∈ s.process.lockDate l, today = z.zone.localDate s.clock) ∧
    ∀ active today, l = .tickerLock → s.process.ticker = .dated active today →
      username ∈ active →
        ((s.process.state.resetIfNewDay today).1.used username).toNat +
          s.process.cfg.tickSeconds.toNat < 2 ^ 32

/-- A status that is evaluated by the date on which it was read and stamped, and
none of a later date was before it: it comes from the running process, the
counters were of that date, the clocks have shown no other since, and they showed
it at an ordinary time. -/
structure Prompt (z : Local) (username : String) (s : Watching) (p : Pushed) : Prop where
  process : p.process = s.starts
  day : p.reading.state.day = some (z.zone.localDate s.clock)
  date : ∀ t, p.reading.readAt ≤ t → t ≤ s.clock → z.zone.localDate t = z.zone.localDate s.clock
  ordinary : Ordinary z p.stampedAt
  latest : ∀ e ∈ s.evaluations, e.date ≤ z.zone.localDate s.clock
  limit : (limitOf s.process.cfg username).toNat ≤
    (p.reading.state.used username).toNat + 60 * 71582788

def Calm (z : Local) (username : String) (s : Watching) (l : WatchingStep) (_ : Watching) : Prop :=
  (∀ k, l = .task k → s.CountsToday z username k) ∧
    ∀ p rest, l = .receive → s.inFlight = p :: rest → s.Prompt z username p

/-! ## What a status says stays true of its date -/

/-- As long as the clocks show the date of the counters that were read, the
process counts on that date, and has not counted less since. -/
def Held (z : Local) (username : String) (clock : Int) (p : Process) (c : Reading) : Prop :=
  c.readAt ≤ clock ∧
    ∀ d, c.state.day = some d → (∀ t, c.readAt ≤ t → t ≤ clock → z.zone.localDate t = d) →
      p.state.day = some d ∧ c.state.used username ≤ p.state.used username

theorem held_read (z : Local) (username : String) (clock : Int) (p : Process) :
    Held z username clock p ⟨p.state, clock⟩ :=
  ⟨Int.le_refl clock, fun _ hd _ => ⟨hd, UInt32.le_refl _⟩⟩

theorem Held.advance {z : Local} {username : String} {clock : Int} {p : Process} {c : Reading}
    (h : Held z username clock p c) (n : Nat) : Held z username (clock + n) p c := by
  refine ⟨?_, fun d hd hdate => h.2 d hd fun t hread ht => hdate t hread ?_⟩
  · have hle := h.1
    omega
  · omega

theorem Held.task {z : Local} {username : String} {s : Watching} {c : Reading} {l : TaskStep}
    {p : Process} (h : Held z username s.clock s.process c) (hcounts : s.CountsToday z username l)
    (hstep : s.process.step l = some p) : Held z username s.clock p c := by
  refine ⟨h.1, fun d hd hdate => ?_⟩
  obtain ⟨hday, hused⟩ := h.2 d hd hdate
  have hnow : z.zone.localDate s.clock = d := hdate s.clock h.1 (Int.le_refl _)
  rcases Process.step_cases hstep with
    ⟨active, today, rfl, hp, rfl⟩ | ⟨today, rfl, hp, rfl⟩ | ⟨-, -, hstate, -⟩
  · have htoday : today = d := (hcounts.1 today (Process.lockDate_tickerLock hp)).trans hnow
    rw [htoday] at hp ⊢
    refine ⟨State.advance_day _ _ _ _, UInt32.le_trans hused ?_⟩
    show _ ≤ (s.process.state.advance d active s.process.cfg.tickSeconds).used username
    rw [Sequential.used_advance hday]
    by_cases hmem : username ∈ active
    · have hfits := hcounts.2 active d rfl hp hmem
      rw [State.resetIfNewDay_same hday] at hfits
      rw [if_pos hmem]
      exact (Sequential.le_add_iff _ _).mpr hfits
    · rw [if_neg hmem]
      exact UInt32.le_refl _
  · have htoday : today = d := (hcounts.1 today (Process.lockDate_resetterLock hp)).trans hnow
    rw [htoday]
    show (s.process.state.resetIfNewDay d).1.day = some d ∧
      c.state.used username ≤ (s.process.state.resetIfNewDay d).1.used username
    rw [State.resetIfNewDay_same hday]
    exact ⟨hday, hused⟩
  · rw [hstate]
    exact ⟨hday, hused⟩

/-! ## The invariant -/

structure Consistent (z : Local) (username : String) (uid : UInt32) (s : Watching) : Prop where
  call : ∀ c, s.call = some c → Held z username s.clock s.process c
  process : ∀ p ∈ s.inFlight, p.process ≤ s.starts
  held : ∀ p ∈ s.inFlight, p.process = s.starts → Held z username s.clock s.process p.reading
  stamped : ∀ p ∈ s.inFlight, p.process = s.starts →
    p.reading.readAt ≤ p.stampedAt ∧ p.stampedAt ≤ s.clock ∧
      p.status = computeStatus username uid s.process.cfg p.reading.state
        (nextLocalMidnightAfter z p.stampedAt)
  tracker : s.tracker = NotifTracker.after (s.evaluations.map Evaluation.status)
  dated : Dated z s.process.cfg.warnThresholdsMinutes s.evaluations

theorem consistent_start (z : Local) (username : String) (uid : UInt32) (clock : Int)
    (cfg : Config) (loaded : State) (initial : UserSet) :
    Consistent z username uid (start z clock cfg loaded initial) where
  call := fun _ hc => nomatch hc
  process := fun _ hp => absurd hp List.not_mem_nil
  held := fun _ hp => absurd hp List.not_mem_nil
  stamped := fun _ hp => absurd hp List.not_mem_nil
  tracker := rfl
  dated := Dated.nil z cfg.warnThresholdsMinutes

theorem computeStatus_remaining (username : String) (uid : UInt32) (cfg : Config) (s : State)
    (resetsAt : Int) :
    (computeStatus username uid cfg s resetsAt).remainingSeconds =
        ((limitOf cfg username).toNat : Int) - ((s.used username).toNat : Int) ∧
      ((computeStatus username uid cfg s resetsAt).state = .active →
        s.used username < limitOf cfg username) := by
  unfold computeStatus sessionState limitOf
  cases cfg.userByName username with
  | none => exact ⟨rfl, fun h => by cases h⟩
  | some u =>
    refine ⟨rfl, fun h => ?_⟩
    simp only [Option.map_some, Option.getD_some] at h ⊢
    by_cases hlimit : s.used username ≥ Config.limitSeconds u
    · rw [if_pos hlimit] at h
      cases h
    · exact UInt32.not_le.mp hlimit

namespace Consistent

variable {z : Local} {username : String} {uid : UInt32} {s t : Watching}

theorem advance (h : Consistent z username uid s) (n : Nat) :
    Consistent z username uid { s with clock := s.clock + n } where
  call := fun c hc => (h.call c hc).advance n
  process := h.process
  held := fun p hp hsame => (h.held p hp hsame).advance n
  stamped := by
    intro p hp hsame
    obtain ⟨hread, hstamped, hstatus⟩ := h.stamped p hp hsame
    refine ⟨hread, ?_, hstatus⟩
    show p.stampedAt ≤ s.clock + n
    omega
  tracker := h.tracker
  dated := h.dated

theorem task (h : Consistent z username uid s) {l : TaskStep} {p : Process}
    (hcounts : s.CountsToday z username l) (hstep : s.process.step l = some p) :
    Consistent z username uid { s with process := p } where
  call := fun c hc => (h.call c hc).task hcounts hstep
  process := h.process
  held := fun q hq hsame => (h.held q hq hsame).task hcounts hstep
  stamped := by
    intro q hq hsame
    show _ ∧ _ ∧ _ = computeStatus username uid p.cfg _ _
    rw [Process.cfg_step hstep]
    exact h.stamped q hq hsame
  tracker := h.tracker
  dated := by
    show Dated z p.cfg.warnThresholdsMinutes s.evaluations
    rw [Process.cfg_step hstep]
    exact h.dated

theorem restart (h : Consistent z username uid s) {cfg : Config} (loaded : State)
    (initial : UserSet) (hcfg : cfg.warnThresholdsMinutes = s.process.cfg.warnThresholdsMinutes) :
    Consistent z username uid { s with
      starts := s.starts + 1
      process := Process.start cfg loaded (z.zone.localDate s.clock) initial
      connected := false
      call := none } where
  call := fun _ hc => nomatch hc
  process := fun p hp => Nat.le_succ_of_le (h.process p hp)
  held := by
    intro p hp hsame
    have hle := h.process p hp
    exact absurd hsame (Nat.ne_of_lt (Nat.lt_succ_of_le hle))
  stamped := by
    intro p hp hsame
    have hle := h.process p hp
    exact absurd hsame (Nat.ne_of_lt (Nat.lt_succ_of_le hle))
  tracker := h.tracker
  dated := by
    show Dated z cfg.warnThresholdsMinutes s.evaluations
    rw [hcfg]
    exact h.dated

/-- A connection that is lost or opened holds no statuses. -/
theorem reset (h : Consistent z username uid s) (connected : Bool) {call : Option Reading}
    (hcall : ∀ c, call = some c → s.call = some c) :
    Consistent z username uid { s with connected := connected, call := call, inFlight := [] } where
  call := fun c hc => h.call c (hcall c hc)
  process := fun _ hp => absurd hp List.not_mem_nil
  held := fun _ hp => absurd hp List.not_mem_nil
  stamped := fun _ hp => absurd hp List.not_mem_nil
  tracker := h.tracker
  dated := h.dated

theorem read (h : Consistent z username uid s) :
    Consistent z username uid { s with call := some ⟨s.process.state, s.clock⟩ } where
  call := by
    intro c hc
    cases hc
    exact held_read z username s.clock s.process
  process := h.process
  held := h.held
  stamped := h.stamped
  tracker := h.tracker
  dated := h.dated

theorem send (h : Consistent z username uid s) {c : Reading} (hc : s.call = some c) :
    Consistent z username uid (s.push z username uid c) where
  call := fun _ hc => nomatch hc
  process := by
    refine List.forall_mem_append.mpr ⟨h.process, List.forall_mem_singleton.mpr ?_⟩
    exact Nat.le_refl s.starts
  held := by
    refine List.forall_mem_append.mpr ⟨h.held, List.forall_mem_singleton.mpr fun _ => ?_⟩
    exact h.call c hc
  stamped := by
    refine List.forall_mem_append.mpr ⟨h.stamped, List.forall_mem_singleton.mpr fun _ => ?_⟩
    exact ⟨(h.call c hc).1, Int.le_refl s.clock, rfl⟩
  tracker := h.tracker
  dated := h.dated

/-- A prompt status shows its date. -/
theorem faithful (h : Consistent z username uid s) {p : Pushed} (hp : p ∈ s.inFlight)
    (hprompt : s.Prompt z username p) (announced : Option UInt32) :
    Evaluation.Faithful z s.process.cfg.warnThresholdsMinutes
      { date := z.zone.localDate s.clock
        status := p.status
        remaining := remainingOn s.process username (z.zone.localDate s.clock)
        announced := announced } := by
  obtain ⟨hread, hstamped, hstatus⟩ := h.stamped p hp hprompt.process
  obtain ⟨hday, hused⟩ := (h.held p hp hprompt.process).2 _ hprompt.day hprompt.date
  obtain ⟨hremaining, hactive⟩ := computeStatus_remaining username uid s.process.cfg
    p.reading.state (nextLocalMidnightAfter z p.stampedAt)
  rw [← hstatus] at hremaining hactive
  constructor
  · exact ⟨s.clock, rfl⟩
  · show Ends z (z.zone.localDate s.clock) p.status.resetsAt
    rw [hstatus, ← hprompt.date p.stampedAt hread hstamped]
    exact hprompt.ordinary.ends
  · show p.status.warnThresholdsMinutes = _
    rw [hstatus]
    rfl
  · show remainingOn s.process username _ ≤ p.status.remainingSeconds
    have hle := UInt32.le_iff_toNat_le.mp hused
    rw [hremaining, remainingOn, if_pos hday]
    omega
  · intro hstate
    have hlt := UInt32.lt_iff_toNat_lt.mp (hactive hstate)
    have hlimit := hprompt.limit
    show 0 < p.status.remainingSeconds ∧ p.status.remainingSeconds ≤ 60 * 71582788
    rw [hremaining]
    omega

theorem receive (h : Consistent z username uid s) {p : Pushed} {rest : List Pushed}
    (hinFlight : s.inFlight = p :: rest) (hprompt : s.Prompt z username p) :
    Consistent z username uid (s.evaluate z username p rest) := by
  have hp : p ∈ s.inFlight := by
    rw [hinFlight]
    exact List.mem_cons_self
  have hrest : ∀ q ∈ rest, q ∈ s.inFlight := by
    intro q hq
    rw [hinFlight]
    exact List.mem_cons_of_mem p hq
  constructor
  · exact h.call
  · exact fun q hq => h.process q (hrest q hq)
  · exact fun q hq => h.held q (hrest q hq)
  · exact fun q hq => h.stamped q (hrest q hq)
  · show (s.tracker.evaluate p.status).1 = _
    rw [evaluate, List.map_append, List.map_singleton, NotifTracker.after_concat, h.tracker]
  · refine h.dated.concat hprompt.latest (h.faithful hp hprompt _) ?_
    show (s.tracker.evaluate p.status).2 = _
    rw [h.tracker]
    rfl

theorem warnsDaily (h : Consistent z username uid t) (l : WatchingStep) :
    WarnsDaily s l t :=
  ⟨h.dated.decreasing, h.dated.inTime, h.dated.covered⟩

end Consistent

theorem consistent_step {z : Local} {username : String} {uid : UInt32} {s t : Watching}
    {l : WatchingStep} (hstep : step z username uid s l = some t)
    (h : Consistent z username uid s) (hcalm : Calm z username s l t) :
    Consistent z username uid t := by
  cases l with
  | advance n =>
    cases hstep
    exact h.advance n
  | task k =>
    simp only [step] at hstep
    split at hstep
    · obtain ⟨p, hp, rfl⟩ := Option.map_eq_some_iff.mp hstep
      exact h.task (hcalm.1 k rfl) hp
    · cases hstep
  | restart cfg loaded initial =>
    simp only [step] at hstep
    split at hstep
    · rename_i hcfg
      cases hstep
      exact h.restart loaded initial hcfg
    · cases hstep
  | connect =>
    simp only [step] at hstep
    split at hstep
    · cases hstep
    · cases hstep
      exact h.reset true fun _ hc => hc
  | disconnect =>
    cases hstep
    exact h.reset false fun _ hc => nomatch hc
  | read =>
    simp only [step] at hstep
    split at hstep
    · cases hstep
      exact h.read
    · cases hstep
  | send =>
    obtain ⟨c, hc, rfl⟩ := Option.map_eq_some_iff.mp hstep
    exact h.send hc
  | receive =>
    simp only [step] at hstep
    split at hstep
    · cases hstep
    · rename_i p rest hinFlight
      cases hstep
      exact h.receive hinFlight (hcalm.2 p rest rfl hinFlight)

/-- In a calm run the warnings are as promised. -/
theorem warnsDaily_of_calm (z : Local) (username : String) (uid : UInt32) (clock : Int)
    (cfg : Config) (loaded : State) (initial : UserSet) (ls : List WatchingStep) :
    Transition.Along (step z username uid) (Calm z username) (start z clock cfg loaded initial)
        ls →
      Transition.Along (step z username uid) WarnsDaily (start z clock cfg loaded initial) ls := by
  refine Transition.along_of_guarded (I := Consistent z username uid) ?_ ls
    (consistent_start z username uid clock cfg loaded initial)
  intro s l t hstep h hcalm
  have ht := consistent_step hstep h hcalm
  exact ⟨ht, ht.warnsDaily l⟩

/-- A user with two hours a day and a warning at two hours, counted by the hour. -/
def twoHours : Config :=
  { Config.defaults with
    tickSeconds := 3600
    warnThresholdsMinutes := [120]
    users := AList.insert "alice" ⟨120⟩ ∅ }

/-- The first status of a connection, and one after the tick an hour later. -/
def hourLater : List WatchingStep :=
  [.connect, .read, .send, .receive, .advance (3600 * 10 ^ 9), .task (.tickerRead {"alice"} 0),
    .task .tickerLock, .read, .send]

/-- Half past midnight and again an hour later, in a day of 25 hours: the first
status resets at the midnight that is past, the second at the next one, and the
same warning is announced twice. -/
theorem warnsDaily_fails :
    ¬ ∀ (z : Local) (username : String) (uid : UInt32) (clock : Int) (cfg : Config)
        (loaded : State) (initial : UserSet) (ls : List WatchingStep),
      Transition.Along (step z username uid) WarnsDaily (start z clock cfg loaded initial) ls := by
  intro h
  have hrun := h (.ofZone autumn) "alice" 501 (-5400 * 10 ^ 9) twoHours .fresh {"alice"}
    (hourLater ++ .receive :: [])
  obtain ⟨hdecreasing, -⟩ := Transition.along_at hrun rfl rfl
  have hpair := List.rel_of_pairwise_cons hdecreasing List.mem_cons_self
  have hlt : (120 : UInt32) < 120 := hpair rfl 120 120 (by decide +kernel) (by decide +kernel)
  exact absurd hlt (by decide)

theorem warnsDaily_of_calm_first :
    Transition.Along (step (.fixed 0) "alice" 501) (Calm (.fixed 0) "alice")
        (start (.fixed 0) 0 twoHours .fresh {"alice"}) [.connect, .read, .send, .receive] ∧
      Transition.Along (step (.fixed 0) "alice" 501) WarnsDaily
        (start (.fixed 0) 0 twoHours .fresh {"alice"}) [.connect, .read, .send, .receive] := by
  have hcalm : Transition.Along (step (.fixed 0) "alice" 501) (Calm (.fixed 0) "alice")
      (start (.fixed 0) 0 twoHours .fresh {"alice"}) [.connect, .read, .send, .receive] := by
    refine ⟨⟨?_, ?_⟩, ⟨?_, ?_⟩, ⟨?_, ?_⟩, ⟨?_, ?_⟩, trivial⟩
    · exact fun k hk => nomatch hk
    · exact fun p rest hl => nomatch hl
    · exact fun k hk => nomatch hk
    · exact fun p rest hl => nomatch hl
    · exact fun k hk => nomatch hk
    · exact fun p rest hl => nomatch hl
    · exact fun k hk => nomatch hk
    · intro p rest _ hinFlight
      cases hinFlight
      constructor
      · rfl
      · rfl
      · intro t hread ht
        have hfrom : (0 : Int) ≤ t := hread
        have hto : t ≤ 0 := ht
        rw [Int.le_antisymm hto hfrom]
        rfl
      · exact ordinary_fixed 0 0
      · exact fun e he => absurd he List.not_mem_nil
      · decide +kernel
  exact ⟨hcalm, warnsDaily_of_calm (.fixed 0) "alice" 501 0 twoHours .fresh {"alice"} _ hcalm⟩

end Watching

end Tray
end Konstantin
