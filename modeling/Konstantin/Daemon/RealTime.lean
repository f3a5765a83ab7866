import Konstantin.Daemon.Host

/-!
# Counted time and time that passes

`console_users` of `crates/daemon/src/sessions.rs` and the interval that `run_ticker`
waits for, beside the history of the processes.  The clock is the monotonic one, in
nanoseconds, and goes on while no process runs.

At most one user is counted at a tick, and the ticks of a process are a period apart.
So what all users together have been counted on a date has passed since a task read
that date, but for two ticks: the first tick of a date counts seconds from before it,
and the second may follow as soon as the first one was late.
-/

namespace Konstantin
namespace Daemon

open Fs

/-- `console_users`, of the name that the system gives. -/
def consoleUsers : Option String → UserSet
  | none => ∅
  | some name => if name = "" ∨ name = "loginwindow" then ∅ else {name}

theorem length_consoleUsers (console : Option String) :
    (consoleUsers console).names.length ≤ 1 := by
  cases console with
  | none => exact Nat.zero_le 1
  | some name =>
    rw [consoleUsers]
    split
    · exact Nat.zero_le 1
    · exact Nat.le_refl 1

/-! ## All counters together -/

namespace State

def total (s : State) : Nat := (s.counters.entries.map fun e => e.2.toNat).sum

theorem sum_kerase (u : String) (l : List (Sigma fun _ : String => UInt32)) :
    ((l.kerase u).map fun e => e.2.toNat).sum + ((l.dlookup u).getD 0).toNat =
      (l.map fun e => e.2.toNat).sum := by
  induction l with
  | nil => rfl
  | cons e l ih =>
    by_cases hu : u = e.1
    · subst hu
      rw [List.kerase_cons_eq rfl, List.dlookup_cons_eq, List.map_cons, List.sum_cons]
      exact Nat.add_comm _ _
    · rw [List.kerase_cons_ne hu, List.dlookup_cons_ne l e hu, List.map_cons, List.map_cons,
        List.sum_cons, List.sum_cons, Nat.add_assoc, ih]

theorem used_le_total (s : State) (u : String) : (s.used u).toNat ≤ s.total := by
  have hsum : _ + (s.used u).toNat = s.total := sum_kerase u s.counters.entries
  omega

theorem sum_credit_le (deltaSeconds : UInt32) (counters : AList fun _ : String => UInt32)
    (u : String) :
    ((credit deltaSeconds counters u).entries.map fun e => e.2.toNat).sum ≤
      (counters.entries.map fun e => e.2.toNat).sum + deltaSeconds.toNat := by
  have hsum := sum_kerase u counters.entries
  have hwrap := Nat.mod_le (((counters.lookup u).getD 0).toNat + deltaSeconds.toNat) (2 ^ 32)
  rw [credit, AList.entries_insert, List.map_cons, List.sum_cons, UInt32.toNat_add]
  have hlookup : ((counters.lookup u).getD 0).toNat =
      ((counters.entries.dlookup u).getD 0).toNat := rfl
  omega

/-- A tick adds its seconds once for each active user; a counter that wraps only falls. -/
theorem total_tick_le (s : State) (active : UserSet) (deltaSeconds : UInt32) :
    (s.tick active deltaSeconds).total ≤
      s.total + active.names.length * deltaSeconds.toNat := by
  show ((active.names.foldl (credit deltaSeconds) s.counters).entries.map _).sum ≤
    (s.counters.entries.map _).sum + _
  generalize s.counters = counters
  induction active.names generalizing counters with
  | nil => exact Nat.le_add_right _ _
  | cons u names ih =>
    have hfirst := sum_credit_le deltaSeconds counters u
    have hrest := ih (credit deltaSeconds counters u)
    rw [List.foldl_cons, List.length_cons, Nat.succ_mul]
    omega

theorem total_resetIfNewDay (s : State) (today : NaiveDate) :
    (s.resetIfNewDay today).1.total = if s.day = some today then s.total else 0 := by
  by_cases h : s.day = some today
  · rw [resetIfNewDay_same h, if_pos h]
  · rw [resetIfNewDay_other h, if_neg h]
    rfl

end State

/-! ## The interval -/

/-- Where `run_ticker` stands with its interval: not made yet; before the first tick, which
counts nothing; before a tick that counts; in an iteration that has not counted yet.
The number is the next deadline. -/
inductive Alarm where
  | off
  | first (deadline : Nat)
  | waiting (deadline : Nat)
  | fired (deadline : Nat)
  deriving DecidableEq

/-- `MissedTickBehavior::Delay`.  A tick that is late by no more than `slack` is not missed. -/
def nextDeadline (slack clock period deadline : Nat) : Nat :=
  if clock ≤ deadline + slack then deadline + period else clock + period

namespace Alarm

/-- A call of `tick` returns. -/
def fire (slack clock period : Nat) : Alarm → Option Alarm
  | .first deadline =>
    if deadline ≤ clock then some (.waiting (nextDeadline slack clock period deadline)) else none
  | .waiting deadline =>
    if deadline ≤ clock then some (.fired (nextDeadline slack clock period deadline)) else none
  | _ => none

def hasFired : Alarm → Bool
  | .fired _ => true
  | _ => false

/-- The iteration has counted. -/
def count : Alarm → Alarm
  | .fired deadline => .waiting deadline
  | a => a

/-- What may still be counted up to the next deadline. -/
def owes (period : Nat) : Alarm → Nat
  | .fired _ => 2 * period
  | _ => period

/-- The moment up to which the ticks that are owed are paid for. -/
def reaches (slack clock period : Nat) : Alarm → Nat
  | .off => clock + period + slack
  | .first deadline => max (deadline + period + slack) clock
  | .waiting deadline => max (deadline + slack) clock
  | .fired deadline => max (deadline + slack) clock

def Due (clock period : Nat) : Alarm → Prop
  | .off => True
  | .first deadline => deadline ≤ clock
  | .waiting deadline => deadline ≤ clock + period
  | .fired deadline => deadline ≤ clock + period

variable {slack clock period : Nat} {a b : Alarm}

theorem owes_le (period : Nat) (a : Alarm) :
    period ≤ a.owes period ∧ a.owes period ≤ 2 * period := by
  cases a <;> simp only [owes] <;> omega

theorem le_reaches (slack clock period : Nat) (a : Alarm) :
    clock ≤ a.reaches slack clock period := by
  cases a <;> simp only [reaches] <;> omega

theorem reaches_mono {later : Nat} (h : clock ≤ later) (a : Alarm) :
    a.reaches slack clock period ≤ a.reaches slack later period := by
  cases a <;> simp only [reaches] <;> omega

theorem Due.mono {later : Nat} (h : a.Due clock period) (hle : clock ≤ later) :
    a.Due later period := by
  cases a <;> simp only [Due] at h ⊢ <;> omega

theorem Due.reaches_le (h : a.Due clock period) :
    a.reaches slack clock period ≤ clock + period + slack := by
  cases a <;> simp only [Due, reaches] at h ⊢ <;> omega

/-- Between two returns of `tick` a period passes, up to what the second one is late. -/
theorem fire_reaches (h : a.fire slack clock period = some b) :
    b.Due clock period ∧ b.owes period + a.reaches slack clock period ≤
      a.owes period + b.reaches slack clock period := by
  unfold fire at h
  split at h
  · split at h
    · cases h
      simp only [Due, owes, reaches, nextDeadline]
      split <;> omega
    · cases h
  · split at h
    · cases h
      simp only [Due, owes, reaches, nextDeadline]
      split <;> omega
    · cases h
  · cases h

end Alarm

def Config.period (cfg : Config) : Nat := cfg.tickSeconds.toNat * 10 ^ 9

/-! ## Processes beside the clock -/

/-- `reads` is bookkeeping: which dates have been read, and when. -/
structure Timed where
  clock : Nat
  host : Host
  alarm : Alarm
  reads : List (NaiveDate × Nat)

inductive TimedStep where
  | advance (n : Nat)
  | start (cfg : Config) (today : NaiveDate) (console : Option String)
  | interval
  | fire
  | tick (console : Option String) (today : NaiveDate)
  | midnight (today : NaiveDate)
  | machine (l : MachineStep)
  | crash

def MachineStep.dateRead : MachineStep → Option NaiveDate
  | .task l => l.dateRead
  | .call .. => none

def MachineStep.counts : MachineStep → Bool
  | .task .tickerLock => true
  | _ => false

namespace Timed

def initial (clock : Nat) : Timed where
  clock := clock
  host := Host.initial
  alarm := .off
  reads := []

/-- A step that reads the date. -/
def reading (size : Snapshot → Nat) (t : Timed) (today : NaiveDate) (l : HostStep) :
    Option Timed :=
  (t.host.step size l).map fun h =>
    { t with host := h, reads := t.reads ++ [(today, t.clock)] }

def step (slack : Nat) (size : Snapshot → Nat) (t : Timed) : TimedStep → Option Timed
  | .advance n => some { t with clock := t.clock + n }
  | .start cfg today console =>
    (t.reading size today (.start cfg today (consoleUsers console))).map fun u =>
      { u with alarm := .off }
  | .interval =>
    if t.alarm = .off ∧ t.host.machine.isSome then some { t with alarm := .first t.clock }
    else none
  | .fire =>
    t.host.machine.bind fun m =>
      if m.process.ticker = .waiting then
        (t.alarm.fire slack t.clock m.process.cfg.period).map fun a => { t with alarm := a }
      else none
  | .tick console today =>
    if t.alarm.hasFired then
      t.reading size today (.machine (.task (.tickerRead (consoleUsers console) today)))
    else none
  | .midnight today => t.reading size today (.machine (.task (.resetterRead today)))
  | .machine l =>
    if l.dateRead = none then
      (t.host.step size (.machine l)).map fun h =>
        { t with host := h, alarm := if l.counts then t.alarm.count else t.alarm }
    else none
  | .crash => (t.host.step size .crash).map fun h => { t with host := h }

end Timed

/-! ## What is counted of a date -/

/-- The seconds of all counters, in the unit of the clock. -/
def State.counted (s : State) : Nat := s.total * 10 ^ 9

/-- Since a moment at which the day of the state was read there is room up to `bound` for
what is counted of it and for `more`. -/
def Within (reads : List (NaiveDate × Nat)) (more bound : Nat) (s : State) : Prop :=
  ∀ d, s.day = some d → ∃ since, (d, since) ∈ reads ∧ since + s.counted + more ≤ bound

namespace Within

variable {reads : List (NaiveDate × Nat)} {more bound : Nat} {s : State}

theorem mono (h : Within reads more bound s) {reads' : List (NaiveDate × Nat)}
    (hreads : reads ⊆ reads') {more' bound' : Nat} (hle : more' + bound ≤ more + bound') :
    Within reads' more' bound' s := by
  intro d hd
  obtain ⟨since, hmem, hroom⟩ := h d hd
  exact ⟨since, hreads hmem, by omega⟩

theorem fresh : Within reads more bound State.fresh := fun _ h => by cases h

theorem resetIfNewDay (h : Within reads more bound s) {today : NaiveDate} {at' : Nat}
    (hread : (today, at') ∈ reads) (hroom : at' + more ≤ bound) :
    Within reads more bound (s.resetIfNewDay today).1 := by
  intro d hd
  rw [State.resetIfNewDay_day] at hd
  cases hd
  rw [State.counted, State.total_resetIfNewDay]
  by_cases hday : s.day = some today
  · rw [if_pos hday]
    exact h today hday
  · rw [if_neg hday]
    exact ⟨at', hread, by omega⟩

/-- A tick uses up what was left for it. -/
theorem tick {cfg : Config} (h : Within reads (more + cfg.period) bound s) {active : UserSet}
    (hactive : active.names.length ≤ 1) :
    Within reads more bound (s.tick active cfg.tickSeconds) := by
  intro d hd
  obtain ⟨since, hmem, hroom⟩ := h d hd
  refine ⟨since, hmem, ?_⟩
  have hcounted : (s.tick active cfg.tickSeconds).counted ≤ s.counted + cfg.period := by
    calc (s.tick active cfg.tickSeconds).counted
        ≤ (s.total + active.names.length * cfg.tickSeconds.toNat) * 10 ^ 9 :=
          Nat.mul_le_mul_right _ (State.total_tick_le s active cfg.tickSeconds)
      _ ≤ (s.total + 1 * cfg.tickSeconds.toNat) * 10 ^ 9 :=
          Nat.mul_le_mul_right _ (Nat.add_le_add_left (Nat.mul_le_mul_right _ hactive) _)
      _ = s.counted + cfg.period := by rw [Nat.one_mul, Nat.add_mul]; rfl
  omega

end Within

/-! ## The states a machine has in hand -/

/-- A property of the state that is being enforced, of those that are being saved, and of
those that the disk holds. -/
structure EverySnapshot (Q : State → Prop) (m : Machine) : Prop where
  inHand : ∀ today snap, Host.inHand m.process = some (today, snap) →
    snap.state.day = some today ∧ Q snap.state
  writer : ∀ w snap, (m.writer w).value = some snap → Q snap.state
  disk : ∀ i snap, m.disk.data i = .whole snap → Q snap.state

/-- The process of a machine takes a step of its own, or stays as it is. -/
theorem Machine.process_step {size : Snapshot → Nat} {m m' : Machine} {l : MachineStep}
    (h : m.step size l = some m') :
    (m'.process = m.process ∧ l.counts = false) ∨
      ∃ k, m.process.step k = some m'.process ∧ (l.counts = true ↔ k = .tickerLock) ∧
        (l.dateRead = k.dateRead) := by
  rcases Machine.step_cases h with ⟨k, p, rfl, hp, rfl⟩ | ⟨w, c, disk, progress, rfl, -, hres⟩
  · refine Or.inr ⟨k, hp, ?_, rfl⟩
    cases k <;> simp [MachineStep.counts]
  · have hsaved : ∀ {disk : Disk} {saved : Option Nat}, m.finish w disk saved = some m' →
        ∃ k, m.process.step k = some m'.process ∧
          ((MachineStep.call w c).counts = true ↔ k = .tickerLock) ∧
          ((MachineStep.call w c).dateRead = k.dateRead) := by
      intro disk saved hfin
      obtain ⟨p, hp, rfl⟩ := Option.map_eq_some_iff.mp hfin
      refine ⟨w.savedStep, hp, ?_, ?_⟩ <;> cases w <;> simp [MachineStep.counts, Task.savedStep,
        MachineStep.dateRead, TaskStep.dateRead]
    rcases hres with ⟨writer, -, rfl⟩ | ⟨snap, -, hfin⟩ | ⟨-, hfin⟩
    · exact Or.inl ⟨rfl, rfl⟩
    · exact Or.inr (hsaved hfin)
    · exact Or.inr (hsaved hfin)

namespace EverySnapshot

variable {Q : State → Prop} {m m' : Machine}

theorem mono (h : EverySnapshot Q m) {R : State → Prop} (hQR : ∀ s, Q s → R s) :
    EverySnapshot R m where
  inHand := fun today snap hx => ⟨(h.inHand today snap hx).1, hQR _ (h.inHand today snap hx).2⟩
  writer := fun w snap hw => hQR _ (h.writer w snap hw)
  disk := fun i snap hi => hQR _ (h.disk i snap hi)

theorem boot (cfg : Config) {disk : Disk} (hdisk : ∀ i snap, disk.data i = .whole snap →
    Q snap.state) (today : NaiveDate) (initial : UserSet) :
    EverySnapshot Q (Machine.boot cfg disk today initial) where
  inHand := fun _ _ hx => by cases hx
  writer := fun _ _ hw => by cases hw
  disk := hdisk

/-- A step only adds the state that it leaves. -/
theorem step (h : EverySnapshot Q m) {size : Snapshot → Nat} {l : MachineStep}
    (hstep : m.step size l = some m') (hstate : Q m'.process.state) : EverySnapshot Q m' := by
  have hhand : ∀ today snap, Host.inHand m'.process = some (today, snap) →
      snap.state.day = some today ∧ Q snap.state := by
    intro today snap hx
    rcases Machine.process_step hstep with ⟨hsame, -⟩ | ⟨k, hk, -⟩
    · exact h.inHand today snap (hsame ▸ hx)
    · rcases Host.inHand_step hk hx with hold | ⟨-, hclone, hday⟩
      · exact h.inHand today snap hold
      · have hclone : m'.process.state = snap.state := hclone
        rw [← hclone]
        exact ⟨hday, hstate⟩
  rcases Machine.step_cases hstep with ⟨k, p, rfl, hp, rfl⟩ |
    ⟨w, c, disk, progress, rfl, hcall, hres⟩
  · refine ⟨hhand, fun w snap hw => ?_, h.disk⟩
    by_cases hk : k = w.lockStep
    · rw [(Machine.run_writer_lock hp hk).1] at hw
      cases hw
      exact hstate
    · rw [Machine.run_writer_ne hk] at hw
      exact h.writer w snap hw
  · have hdisk : ∀ i snap, disk.data i = .whole snap → Q snap.state := by
      intro i snap hi
      rcases Writer.call_whole hcall hi with hold | hown
      · exact h.disk i snap hold
      · exact h.writer w snap hown
    have hfinish : ∀ {saved : Option Nat}, m.finish w disk saved = some m' →
        EverySnapshot Q m' := by
      intro saved hfin
      obtain ⟨-, -, hwriter, hdisk', -⟩ := Machine.finish_eq_some hfin
      refine ⟨hhand, fun u snap hu => ?_, hdisk' ▸ hdisk⟩
      rw [hwriter] at hu
      rcases Machine.value_update hu with ⟨-, hidle⟩ | hold
      · cases hidle
      · exact h.writer u snap hold
    rcases hres with ⟨writer, rfl, rfl⟩ | ⟨snap, -, hfin⟩ | ⟨-, hfin⟩
    · refine ⟨hhand, fun u snap hu => ?_, hdisk⟩
      rcases Machine.value_update hu with ⟨-, hvalue⟩ | hold
      · exact h.writer w snap (Writer.call_going hcall ▸ hvalue)
      · exact h.writer u snap hold
    · exact hfinish hfin
    · exact hfinish hfin

end EverySnapshot

/-! ## What waits for the lock -/

/-- Both tasks hold a date that was read; the users of the ticker are at most one, and its
tick has fired. -/
structure DatesRead (reads : List (NaiveDate × Nat)) (fired : Bool) (p : Process) : Prop where
  ticker : ∀ active today, p.ticker = .dated active today →
    fired = true ∧ active.names.length ≤ 1 ∧ ∃ at', (today, at') ∈ reads
  resetter : ∀ today, p.resetter = .dated today → ∃ at', (today, at') ∈ reads

namespace DatesRead

variable {reads : List (NaiveDate × Nat)} {fired : Bool} {p q : Process}

theorem mono (h : DatesRead reads fired p) {reads' : List (NaiveDate × Nat)}
    (hreads : reads ⊆ reads') : DatesRead reads' fired p where
  ticker := fun active today hp => by
    obtain ⟨hfired, hone, at', hmem⟩ := h.ticker active today hp
    exact ⟨hfired, hone, at', hreads hmem⟩
  resetter := fun today hp => by
    obtain ⟨at', hmem⟩ := h.resetter today hp
    exact ⟨at', hreads hmem⟩

theorem of_ticker (h : DatesRead reads fired p) (hticker : q.ticker = p.ticker)
    (hresetter : ∀ today, q.resetter ≠ .dated today) : DatesRead reads fired q :=
  ⟨hticker ▸ h.ticker, fun today hp => absurd hp (hresetter today)⟩

theorem of_resetter (h : DatesRead reads fired p) (hresetter : q.resetter = p.resetter)
    (hticker : ∀ active today, q.ticker ≠ .dated active today) {fired' : Bool} :
    DatesRead reads fired' q :=
  ⟨fun active today hp => absurd hp (hticker active today), hresetter ▸ h.resetter⟩

/-- A step that reads no date makes nobody wait for the lock. -/
theorem step (h : DatesRead reads fired p) {l : TaskStep} (hstep : p.step l = some q)
    (hdate : l.dateRead = none) : DatesRead reads (l != .tickerLock && fired) q := by
  cases l with
  | tickerRead => cases hdate
  | resetterRead => cases hdate
  | tickerLock =>
    obtain ⟨active, today, -, rfl⟩ := Process.step_tickerLock hstep
    apply h.of_resetter
    · rfl
    · exact fun _ _ hp => by cases hp
  | resetterLock =>
    obtain ⟨today, -, rfl⟩ := Process.step_resetterLock hstep
    exact h.of_ticker rfl fun _ hp => by cases hp
  | resetterSaved =>
    simp only [Process.step, Process.resetterSaved] at hstep
    split at hstep <;> cases hstep
    rename_i rolled _ _
    exact h.of_ticker rfl fun _ hp => by cases rolled <;> cases hp
  | resetterSent =>
    simp only [Process.step] at hstep
    split at hstep <;> cases hstep
    exact h.of_ticker rfl fun _ hp => by cases hp
  | tickerSaved =>
    simp only [Process.step, Process.tickerSaved] at hstep
    split at hstep <;> cases hstep
    apply h.of_resetter
    · rfl
    · exact fun _ _ hp => by cases hp
  | tickerSent =>
    simp only [Process.step] at hstep
    split at hstep <;> cases hstep
    apply h.of_resetter
    · rfl
    · exact fun _ _ hp => by cases hp
  | tickerEnforced =>
    simp only [Process.step] at hstep
    split at hstep <;> cases hstep
    apply h.of_resetter
    · rfl
    · exact fun _ _ hp => by cases hp

end DatesRead

/-! ## The invariant -/

namespace Timed

variable {slack p : Nat} {t u : Timed}

/-- What is counted has passed, but for two ticks. -/
def Paid (slack p : Nat) (t : Timed) : State → Prop :=
  Within t.reads 0 (t.clock + 2 * p + slack)

structure Running (slack p : Nat) (t : Timed) (m : Machine) : Prop where
  period_le : m.process.cfg.period ≤ p
  kept : EverySnapshot (t.Paid slack p) m
  state : Within t.reads (t.alarm.owes m.process.cfg.period)
    (t.alarm.reaches slack t.clock m.process.cfg.period + 2 * p) m.process.state
  due : t.alarm.Due t.clock m.process.cfg.period
  dates : DatesRead t.reads t.alarm.hasFired m.process

structure Inv (slack p : Nat) (t : Timed) : Prop where
  reads : ∀ r ∈ t.reads, r.2 ≤ t.clock
  disk : ∀ i snap, t.host.disk.data i = .whole snap → t.Paid slack p snap.state
  machine : ∀ m, t.host.machine = some m → Running slack p t m

theorem Paid.mono {s : State} (h : t.Paid slack p s) (hreads : t.reads ⊆ u.reads)
    (hclock : t.clock ≤ u.clock) : u.Paid slack p s :=
  Within.mono h hreads (by omega)

theorem Paid.since {s : State} (h : t.Paid slack p s) {d : NaiveDate} (hd : s.day = some d) :
    ∃ since, (d, since) ∈ t.reads ∧ since + s.counted ≤ t.clock + 2 * p + slack := by
  obtain ⟨since, hread, hroom⟩ := h d hd
  rw [Nat.add_zero] at hroom
  exact ⟨since, hread, hroom⟩

theorem Running.paid {m : Machine} (h : Running slack p t m) : t.Paid slack p m.process.state := by
  have hreaches : _ ≤ t.clock + m.process.cfg.period + slack := h.due.reaches_le
  have howes := (t.alarm.owes_le m.process.cfg.period).1
  exact h.state.mono (List.Subset.refl _) (by omega)

theorem inv_initial (slack p clock : Nat) : Inv slack p (initial clock) where
  reads := fun _ hr => by cases hr
  disk := fun _ _ hi => by cases hi
  machine := fun _ hm => by cases hm

/-! ## Steps of a task and calls of a save -/

theorem cfg_machine {size : Snapshot → Nat} {m m' : Machine} {l : MachineStep}
    (h : m.step size l = some m') : m'.process.cfg = m.process.cfg := by
  rcases Machine.process_step h with ⟨hsame, -⟩ | ⟨k, hk, -⟩
  · rw [hsame]
  · exact Process.cfg_step hk

theorem host_machine {size : Snapshot → Nat} {h h' : Host} {l : MachineStep}
    (hstep : h.step size (.machine l) = some h') :
    ∃ m m', h.machine = some m ∧ m.step size l = some m' ∧ h'.machine = some m' ∧
      h'.disk = m'.disk := by
  obtain ⟨m, hm, hstep⟩ := Option.bind_eq_some_iff.mp hstep
  obtain ⟨m', hm', rfl⟩ := Option.map_eq_some_iff.mp hstep
  exact ⟨m, m', hm, hm', rfl, rfl⟩

/-- After a step of the machine it is enough to look at its process. -/
theorem Inv.next (h : Inv slack p t) {size : Snapshot → Nat} {m m' : Machine} {l : MachineStep}
    (hm : t.host.machine = some m) (hstep : m.step size l = some m')
    (hclock : u.clock = t.clock) (hreads : t.reads ⊆ u.reads) (hpast : ∀ r ∈ u.reads, r.2 ≤ u.clock)
    (hmachine : u.host.machine = some m') (hdisk : u.host.disk = m'.disk)
    (hstate : Within u.reads (u.alarm.owes m.process.cfg.period)
      (u.alarm.reaches slack u.clock m.process.cfg.period + 2 * p) m'.process.state)
    (hdue : u.alarm.Due u.clock m.process.cfg.period)
    (hdates : DatesRead u.reads u.alarm.hasFired m'.process) : Inv slack p u := by
  have hrunning := h.machine m hm
  have hcfg := cfg_machine hstep
  have hlive : EverySnapshot (u.Paid slack p) m → Running slack p u m' := by
    intro hkept
    rw [← hcfg] at hstate hdue
    have hperiod : m'.process.cfg.period ≤ p := hcfg ▸ hrunning.period_le
    have hpaid : u.Paid slack p m'.process.state := by
      have hreaches : _ ≤ u.clock + m'.process.cfg.period + slack := hdue.reaches_le
      have howes := (u.alarm.owes_le m'.process.cfg.period).1
      exact hstate.mono (List.Subset.refl _) (by omega)
    exact ⟨hperiod, hkept.step hstep hpaid, hstate, hdue, hdates⟩
  have hnext := hlive (hrunning.kept.mono fun s hs => hs.mono hreads (Nat.le_of_eq hclock.symm))
  refine ⟨hpast, fun i snap hi => hnext.kept.disk i snap (hdisk ▸ hi), fun k hk => ?_⟩
  obtain rfl : m' = k := Option.some.inj (hmachine.symm.trans hk)
  exact hnext

section

variable {size : Snapshot → Nat} {m : Machine}

theorem past_reading (h : ∀ r ∈ t.reads, r.2 ≤ t.clock) (today : NaiveDate) :
    ∀ r ∈ t.reads ++ [(today, t.clock)], r.2 ≤ t.clock := by
  intro r hr
  rcases List.mem_append.mp hr with hold | hnew
  · exact h r hold
  · rw [List.mem_singleton.mp hnew]

/-- A task reads the date: nothing is counted yet. -/
theorem Inv.read (h : Inv slack p t) {today : NaiveDate} {k : TaskStep}
    (hk : k.dateRead = some today)
    (hdates : ∀ m q, t.host.machine = some m → m.process.step k = some q →
      DatesRead (t.reads ++ [(today, t.clock)]) t.alarm.hasFired q)
    (hstep : t.reading size today (.machine (.task k)) = some u) : Inv slack p u := by
  obtain ⟨host, hhost, rfl⟩ := Option.map_eq_some_iff.mp hstep
  obtain ⟨m, m', hm, hm', hmachine, hdisk⟩ := host_machine hhost
  have hrunning := h.machine m hm
  have hsub : t.reads ⊆ t.reads ++ [(today, t.clock)] := List.subset_append_left _ _
  rcases Machine.step_cases hm' with ⟨k', q, hl, hq, rfl⟩ | ⟨w, c, disk, progress, hl, -⟩
  · cases hl
    have hsame : q.state = m.process.state := by
      rcases Process.step_cases hq with ⟨_, _, rfl, -⟩ | ⟨_, rfl, -⟩ | ⟨-, -, hsame, -⟩
      · cases hk
      · cases hk
      · exact hsame
    have hstate : Within (t.reads ++ [(today, t.clock)]) (t.alarm.owes m.process.cfg.period)
        (t.alarm.reaches slack t.clock m.process.cfg.period + 2 * p) q.state :=
      hsame ▸ hrunning.state.mono hsub (Nat.le_refl _)
    exact h.next hm hm' rfl hsub (past_reading h.reads today) hmachine hdisk hstate hrunning.due
      (hdates m q hm hq)
  · cases hl

theorem Inv.tick (h : Inv slack p t) {console : Option String} {today : NaiveDate}
    (hfired : t.alarm.hasFired = true)
    (hstep : t.reading size today
      (.machine (.task (.tickerRead (consoleUsers console) today))) = some u) :
    Inv slack p u := by
  refine h.read rfl (fun m q hm hq => ?_) hstep
  have hold := (h.machine m hm).dates.mono (List.subset_append_left _ [(today, t.clock)])
  simp only [Process.step] at hq
  split at hq <;> cases hq
  refine ⟨fun active date hp => ?_, hold.resetter⟩
  cases hp
  exact ⟨hfired, length_consoleUsers console, t.clock,
    List.mem_append_right _ (List.mem_singleton_self _)⟩

theorem Inv.midnight (h : Inv slack p t) {today : NaiveDate}
    (hstep : t.reading size today (.machine (.task (.resetterRead today))) = some u) :
    Inv slack p u := by
  refine h.read rfl (fun m q hm hq => ?_) hstep
  have hold := (h.machine m hm).dates.mono (List.subset_append_left _ [(today, t.clock)])
  simp only [Process.step] at hq
  split at hq <;> cases hq
  refine ⟨hold.ticker, fun date hp => ?_⟩
  cases hp
  exact ⟨t.clock, List.mem_append_right _ (List.mem_singleton_self _)⟩

/-- The ticker counts the tick that was owed. -/
theorem Running.lockTicker (h : Running slack p t m) (hpast : ∀ r ∈ t.reads, r.2 ≤ t.clock)
    {active : UserSet} {today : NaiveDate} (hp : m.process.ticker = .dated active today) :
    Within t.reads (t.alarm.count.owes m.process.cfg.period)
        (t.alarm.count.reaches slack t.clock m.process.cfg.period + 2 * p)
        (m.process.state.advance today active m.process.cfg.tickSeconds) ∧
      t.alarm.count.Due t.clock m.process.cfg.period := by
  obtain ⟨hfired, hone, at', hread⟩ := h.dates.ticker active today hp
  have hstate := h.state
  have hdue := h.due
  have hperiod := h.period_le
  have hat : at' ≤ t.clock := hpast _ hread
  have hreaches := t.alarm.le_reaches slack t.clock m.process.cfg.period
  cases halarm : t.alarm with
  | fired deadline =>
    rw [halarm] at hstate hdue hreaches
    refine ⟨?_, hdue⟩
    have hreset := hstate.resetIfNewDay hread (by simp only [Alarm.owes]; omega)
    have htwice : Within t.reads (m.process.cfg.period + m.process.cfg.period)
        ((Alarm.fired deadline).reaches slack t.clock m.process.cfg.period + 2 * p)
        (m.process.state.resetIfNewDay today).1 :=
      hreset.mono (List.Subset.refl _) (by simp only [Alarm.owes]; omega)
    exact htwice.tick hone
  | _ =>
    rw [halarm] at hfired
    cases hfired

theorem Running.lockResetter (h : Running slack p t m) (hpast : ∀ r ∈ t.reads, r.2 ≤ t.clock)
    {today : NaiveDate} (hp : m.process.resetter = .dated today) :
    Within t.reads (t.alarm.owes m.process.cfg.period)
      (t.alarm.reaches slack t.clock m.process.cfg.period + 2 * p)
      (m.process.state.resetIfNewDay today).1 := by
  obtain ⟨at', hread⟩ := h.dates.resetter today hp
  have hat : at' ≤ t.clock := hpast _ hread
  have hreaches := t.alarm.le_reaches slack t.clock m.process.cfg.period
  have howes := (t.alarm.owes_le m.process.cfg.period).2
  have hperiod := h.period_le
  exact h.state.resetIfNewDay hread (by omega)

theorem Inv.machineStep (h : Inv slack p t) {l : MachineStep} {host : Host}
    (hdate : l.dateRead = none) (hstep : t.host.step size (.machine l) = some host) :
    Inv slack p
      { t with host := host, alarm := if l.counts then t.alarm.count else t.alarm } := by
  obtain ⟨m, m', hm, hm', hmachine, hdisk⟩ := host_machine hstep
  have hrunning := h.machine m hm
  have hsub : t.reads ⊆ t.reads := List.Subset.refl _
  rcases Machine.process_step hm' with ⟨hsame, hcounts⟩ | ⟨k, hk, hcounts, hread⟩
  · refine h.next hm hm' rfl hsub h.reads hmachine hdisk ?_ ?_ ?_ <;>
      simp only [hcounts, hsame, Bool.false_eq_true, if_false]
    · exact hrunning.state
    · exact hrunning.due
    · exact hrunning.dates
  have hdates := hrunning.dates.step hk (hread ▸ hdate)
  by_cases hlock : k = .tickerLock
  · subst hlock
    have hyes : l.counts = true := hcounts.mpr rfl
    obtain ⟨active, today, hp, hq⟩ := Process.step_tickerLock hk
    obtain ⟨hstate, hdue⟩ := hrunning.lockTicker h.reads hp
    refine h.next hm hm' rfl hsub h.reads hmachine hdisk ?_ ?_ ?_ <;> simp only [hyes, if_true]
    · rw [hq]
      exact hstate
    · exact hdue
    · rw [hq] at hdates ⊢
      exact ⟨fun _ _ hticker => (by cases hticker), hdates.resetter⟩
  · have hno : l.counts = false := Bool.eq_false_iff.mpr fun hyes => hlock (hcounts.mp hyes)
    have hstate : Within t.reads (t.alarm.owes m.process.cfg.period)
        (t.alarm.reaches slack t.clock m.process.cfg.period + 2 * p) m'.process.state := by
      rcases Process.step_cases hk with ⟨_, _, hk', -⟩ | ⟨today, -, hp, hq⟩ | ⟨-, -, hq, -⟩
      · exact absurd hk' hlock
      · rw [hq]
        exact hrunning.lockResetter h.reads hp
      · rw [hq]
        exact hrunning.state
    have hfired : (k != .tickerLock && t.alarm.hasFired) = t.alarm.hasFired := by
      rw [bne_iff_ne.mpr hlock, Bool.true_and]
    rw [hfired] at hdates
    refine h.next hm hm' rfl hsub h.reads hmachine hdisk ?_ ?_ ?_ <;>
      simp only [hno, Bool.false_eq_true, if_false]
    · exact hstate
    · exact hrunning.due
    · exact hdates

theorem Inv.start (h : Inv slack p t) {cfg : Config} (hperiod : cfg.period ≤ p)
    {today : NaiveDate} {initial : UserSet}
    (hstep : t.reading size today (.start cfg today initial) = some u) :
    Inv slack p { u with alarm := .off } := by
  obtain ⟨host, hhost, rfl⟩ := Option.map_eq_some_iff.mp hstep
  have hsub : t.reads ⊆ t.reads ++ [(today, t.clock)] := List.subset_append_left _ _
  simp only [Host.step] at hhost
  split at hhost
  · cases hhost
    have hdisk : ∀ i snap, t.host.disk.data i = .whole snap →
        Within (t.reads ++ [(today, t.clock)]) 0 (t.clock + 2 * p + slack) snap.state :=
      fun i snap hi => Within.mono (h.disk i snap hi) hsub (Nat.le_refl _)
    refine ⟨past_reading h.reads today, hdisk, fun m hm => ?_⟩
    cases hm
    have hload : Within (t.reads ++ [(today, t.clock)]) 0 (t.clock + 2 * p + slack)
        (State.load cfg.statePath t.host.disk) := by
      unfold State.load
      split
      · rename_i snap hread
        obtain ⟨i, -, hi⟩ := Option.map_eq_some_iff.mp hread
        exact hdisk i snap hi
      · exact Within.fresh
    have hroom : Within (t.reads ++ [(today, t.clock)]) cfg.period
        (t.clock + cfg.period + slack + 2 * p) (State.load cfg.statePath t.host.disk) :=
      hload.mono (List.Subset.refl _) (by omega)
    have hmem : (today, t.clock) ∈ t.reads ++ [(today, t.clock)] :=
      List.mem_append_right _ (List.mem_singleton_self _)
    exact ⟨hperiod, EverySnapshot.boot cfg hdisk today initial,
      hroom.resetIfNewDay hmem (by omega), trivial,
      ⟨fun _ _ hp => (by cases hp), fun _ hp => (by cases hp)⟩⟩
  · cases hhost

/-- Time passes, or the interval moves on while nobody waits for the lock. -/
theorem Running.later (h : Running slack p t m) {clock : Nat} (hclock : t.clock ≤ clock)
    {a : Alarm} (hdue : a.Due clock m.process.cfg.period)
    (hroom : a.owes m.process.cfg.period + t.alarm.reaches slack t.clock m.process.cfg.period ≤
      t.alarm.owes m.process.cfg.period + a.reaches slack clock m.process.cfg.period)
    (hdates : DatesRead t.reads a.hasFired m.process) :
    Running slack p { t with clock := clock, alarm := a } m where
  period_le := h.period_le
  kept := h.kept.mono fun _ hs => hs.mono (List.Subset.refl _) hclock
  state := by
    show Within t.reads (a.owes m.process.cfg.period)
      (a.reaches slack clock m.process.cfg.period + 2 * p) m.process.state
    exact h.state.mono (List.Subset.refl _) (by omega)
  due := hdue
  dates := hdates

theorem Inv.later (h : Inv slack p t) {clock : Nat} (hclock : t.clock ≤ clock) {a : Alarm}
    (hmachine : ∀ m, t.host.machine = some m → a.Due clock m.process.cfg.period ∧
      a.owes m.process.cfg.period + t.alarm.reaches slack t.clock m.process.cfg.period ≤
        t.alarm.owes m.process.cfg.period + a.reaches slack clock m.process.cfg.period ∧
      DatesRead t.reads a.hasFired m.process) :
    Inv slack p { t with clock := clock, alarm := a } where
  reads := fun r hr => Nat.le_trans (h.reads r hr) hclock
  disk := fun i snap hi => (h.disk i snap hi).mono (List.Subset.refl _) hclock
  machine := fun m hm => by
    obtain ⟨hdue, hroom, hdates⟩ := hmachine m hm
    exact (h.machine m hm).later hclock hdue hroom hdates

theorem Inv.step (h : Inv slack p t) {l : TimedStep}
    (hl : ∀ cfg today console, l = .start cfg today console → cfg.period ≤ p)
    (hstep : t.step slack size l = some u) : Inv slack p u := by
  cases l with
  | advance n =>
    cases hstep
    have hclock := Nat.le_add_right t.clock n
    refine h.later hclock fun m hm => ⟨(h.machine m hm).due.mono hclock, ?_, (h.machine m hm).dates⟩
    exact Nat.add_le_add_left (Alarm.reaches_mono hclock t.alarm) _
  | start cfg today console =>
    obtain ⟨v, hread, rfl⟩ := Option.map_eq_some_iff.mp hstep
    exact h.start (hl cfg today console rfl) hread
  | interval =>
    simp only [Timed.step] at hstep
    split at hstep
    · rename_i hoff
      cases hstep
      refine h.later (Nat.le_refl _) fun m hm => ?_
      have hdates := (h.machine m hm).dates
      rw [hoff.1] at hdates ⊢
      refine ⟨Nat.le_refl _, ?_, hdates⟩
      simp only [Alarm.owes, Alarm.reaches]
      omega
    · cases hstep
  | fire =>
    obtain ⟨m, hm, hfire⟩ := Option.bind_eq_some_iff.mp hstep
    split at hfire
    · rename_i hwaiting
      obtain ⟨a, ha, rfl⟩ := Option.map_eq_some_iff.mp hfire
      obtain ⟨hdue, hroom⟩ := Alarm.fire_reaches ha
      refine h.later (Nat.le_refl _) fun k hk => ?_
      obtain rfl : m = k := Option.some.inj (hm.symm.trans hk)
      refine ⟨hdue, hroom, (h.machine m hm).dates.of_resetter rfl fun active today hp => ?_⟩
      rw [hwaiting] at hp
      cases hp
    · cases hfire
  | tick console today =>
    simp only [Timed.step] at hstep
    split at hstep
    · rename_i hfired
      exact h.tick hfired hstep
    · cases hstep
  | midnight today => exact h.midnight hstep
  | machine l =>
    simp only [Timed.step] at hstep
    split at hstep
    · rename_i hdate
      obtain ⟨host, hhost, rfl⟩ := Option.map_eq_some_iff.mp hstep
      exact h.machineStep hdate hhost
    · cases hstep
  | crash =>
    obtain ⟨host, hhost, rfl⟩ := Option.map_eq_some_iff.mp hstep
    obtain ⟨m, -, rfl⟩ := Option.map_eq_some_iff.mp hhost
    exact ⟨h.reads, h.disk, fun k hk => by cases hk⟩

end

theorem inv_run {size : Snapshot → Nat} {clock : Nat} {ls : List TimedStep}
    (hticks : ∀ cfg today console, .start cfg today console ∈ ls → cfg.period ≤ p)
    (hrun : Transition.exec (step slack size) (initial clock) ls = some t) : Inv slack p t := by
  have hnext : ∀ (past : List TimedStep) (v : Timed) (l : TimedStep) (w : Timed),
      Transition.exec (step slack size) (initial clock) past = some v →
      ((∀ cfg today console, .start cfg today console ∈ past → cfg.period ≤ p) →
        Inv slack p v) → v.step slack size l = some w →
      (∀ cfg today console, .start cfg today console ∈ past ++ [l] → cfg.period ≤ p) →
        Inv slack p w := by
    intro past v l w _ ih hl hall
    refine (ih fun cfg today console hmem => hall cfg today console
      (List.mem_append_left _ hmem)).step (fun cfg today console heq => ?_) hl
    exact hall cfg today console (List.mem_append_right _ (List.mem_singleton.mpr heq.symm))
  exact Transition.exec_history (fun _ => by exact inv_initial slack p clock) hnext hrun hticks

def minuteTicks : Config :=
  { Config.defaults with tickSeconds := 60, users := List.toAList [⟨"alice", ⟨1⟩⟩] }

def minuteSteps : List TimedStep :=
  [.start minuteTicks 1 none, .interval, .fire, .advance 60000000000, .fire,
    .tick (some "alice") 1, .machine (.task .tickerLock), .machine (.call .ticker (.fail 0)),
    .machine (.task .tickerSent)]

end Timed

end Daemon
end Konstantin
