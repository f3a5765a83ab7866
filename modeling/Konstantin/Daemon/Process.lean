import Konstantin.Daemon.Config
import Konstantin.Daemon.State
import Konstantin.Transition

/-!
# The two tasks of one daemon process

`run_ticker` and `run_midnight_resetter` of `crates/daemon/src/main.rs`, cut
where another task may come in between: today's date is read before the state
mutex is taken, the snapshot is saved and the subscribers are woken after it was
released.  The steps of this file are the ones that touch memory; a save is one
step here and is taken apart in `Konstantin.Daemon.Machine`.
-/

namespace Konstantin
namespace Daemon

/-- A clone of the state, with its place among the clones of the process. -/
structure Snapshot where
  order : Nat
  state : State
  deriving DecidableEq

inductive Ticker where
  | waiting
  | dated (active : UserSet) (today : NaiveDate)
  | saving (active : UserSet) (today : NaiveDate) (snapshot : Snapshot)
  | sending (active : UserSet) (today : NaiveDate) (snapshot : Snapshot)
  | enforcing (active : UserSet) (today : NaiveDate) (snapshot : Snapshot)
  deriving DecidableEq

inductive Resetter where
  | sleeping
  | dated (today : NaiveDate)
  | saving (rolled : Bool) (snapshot : Snapshot)
  | sending
  deriving DecidableEq

/-- One process.  `clones` and `ticks` are bookkeeping: the snapshots taken so
far, and the date and the users of every locked section of the ticker. -/
structure Process where
  cfg : Config
  state : State
  ticker : Ticker
  resetter : Resetter
  clones : List State
  ticks : List (NaiveDate × UserSet)

inductive TaskStep where
  | tickerRead (active : UserSet) (today : NaiveDate)
  | tickerLock
  | tickerSaved
  | tickerSent
  | tickerEnforced
  | resetterRead (today : NaiveDate)
  | resetterLock
  | resetterSaved
  | resetterSent
  deriving DecidableEq

def TaskStep.dateRead : TaskStep → Option NaiveDate
  | .tickerRead _ today => some today
  | .resetterRead today => some today
  | _ => none

namespace Process

/-- `main` up to the spawning of the tasks. -/
def start (cfg : Config) (loaded : State) (today : NaiveDate) (initial : UserSet) : Process where
  cfg := cfg
  state := { (loaded.resetIfNewDay today).1 with activeNow := initial }
  ticker := .waiting
  resetter := .sleeping
  clones := []
  ticks := []

/-- The state after the locked section of a ticker iteration, and its clone. -/
def lockTicker (p : Process) (active : UserSet) (today : NaiveDate) : Process :=
  let s := p.state.advance today active p.cfg.tickSeconds
  { p with
    state := s
    ticker := .saving active today ⟨p.clones.length, s⟩
    clones := p.clones ++ [s]
    ticks := p.ticks ++ [(today, active)] }

/-- The state after the locked section of the midnight task, and its clone. -/
def lockResetter (p : Process) (today : NaiveDate) : Process :=
  let r := p.state.resetIfNewDay today
  { p with
    state := r.1
    resetter := .saving r.2 ⟨p.clones.length, r.1⟩
    clones := p.clones ++ [r.1] }

def tickerSaved (p : Process) : Option Process :=
  match p.ticker with
  | .saving active today snap => some { p with ticker := .sending active today snap }
  | _ => none

/-- The save of the midnight task returned; it only wakes subscribers after a
rollover. -/
def resetterSaved (p : Process) : Option Process :=
  match p.resetter with
  | .saving rolled _ => some { p with resetter := if rolled then .sending else .sleeping }
  | _ => none

def step (p : Process) : TaskStep → Option Process
  | .tickerRead active today =>
    match p.ticker with
    | .waiting => some { p with ticker := .dated active today }
    | _ => none
  | .tickerLock =>
    match p.ticker with
    | .dated active today => some (p.lockTicker active today)
    | _ => none
  | .tickerSaved => p.tickerSaved
  | .tickerSent =>
    match p.ticker with
    | .sending active today snap => some { p with ticker := .enforcing active today snap }
    | _ => none
  | .tickerEnforced =>
    match p.ticker with
    | .enforcing .. => some { p with ticker := .waiting }
    | _ => none
  | .resetterRead today =>
    match p.resetter with
    | .sleeping => some { p with resetter := .dated today }
    | _ => none
  | .resetterLock =>
    match p.resetter with
    | .dated today => some (p.lockResetter today)
    | _ => none
  | .resetterSaved => p.resetterSaved
  | .resetterSent =>
    match p.resetter with
    | .sending => some { p with resetter := .sleeping }
    | _ => none

/-- The date a locked section is about to apply to the state. -/
def lockDate (p : Process) : TaskStep → Option NaiveDate
  | .tickerLock =>
    match p.ticker with
    | .dated _ today => some today
    | _ => none
  | .resetterLock =>
    match p.resetter with
    | .dated today => some today
    | _ => none
  | _ => none

/-! ## What a step can do -/

theorem step_tickerLock {p q : Process} (h : p.step .tickerLock = some q) :
    ∃ active today, p.ticker = .dated active today ∧ q = p.lockTicker active today := by
  simp only [step] at h
  split at h
  · rename_i active today hp
    cases h
    exact ⟨active, today, hp, rfl⟩
  · cases h

theorem step_resetterLock {p q : Process} (h : p.step .resetterLock = some q) :
    ∃ today, p.resetter = .dated today ∧ q = p.lockResetter today := by
  simp only [step] at h
  split at h
  · rename_i today hp
    cases h
    exact ⟨today, hp, rfl⟩
  · cases h

/-- A step is a locked section of the ticker, a locked section of the midnight
task, or leaves the state and its bookkeeping alone. -/
theorem step_cases {p q : Process} {l : TaskStep} (h : p.step l = some q) :
    (∃ active today, l = .tickerLock ∧ p.ticker = .dated active today ∧
        q = p.lockTicker active today) ∨
      (∃ today, l = .resetterLock ∧ p.resetter = .dated today ∧ q = p.lockResetter today) ∨
      (p.lockDate l = none ∧ q.cfg = p.cfg ∧ q.state = p.state ∧ q.clones = p.clones ∧
        q.ticks = p.ticks) := by
  cases l with
  | tickerLock =>
    obtain ⟨active, today, hp, hq⟩ := step_tickerLock h
    exact Or.inl ⟨active, today, rfl, hp, hq⟩
  | resetterLock =>
    obtain ⟨today, hp, hq⟩ := step_resetterLock h
    exact Or.inr (Or.inl ⟨today, rfl, hp, hq⟩)
  | tickerSaved =>
    simp only [step, tickerSaved] at h
    split at h <;> cases h
    exact Or.inr (Or.inr ⟨rfl, rfl, rfl, rfl, rfl⟩)
  | resetterSaved =>
    simp only [step, resetterSaved] at h
    split at h <;> cases h
    exact Or.inr (Or.inr ⟨rfl, rfl, rfl, rfl, rfl⟩)
  | _ =>
    simp only [step] at h
    split at h <;> cases h
    exact Or.inr (Or.inr ⟨rfl, rfl, rfl, rfl, rfl⟩)

theorem cfg_step {p q : Process} {l : TaskStep} (h : p.step l = some q) : q.cfg = p.cfg := by
  rcases step_cases h with ⟨active, today, -, -, rfl⟩ | ⟨today, -, -, rfl⟩ | ⟨-, hcfg, -⟩
  · rfl
  · rfl
  · exact hcfg

theorem lockDate_tickerLock {p : Process} {active : UserSet} {today : NaiveDate}
    (h : p.ticker = .dated active today) : p.lockDate .tickerLock = some today := by
  simp [lockDate, h]

theorem lockDate_resetterLock {p : Process} {today : NaiveDate}
    (h : p.resetter = .dated today) : p.lockDate .resetterLock = some today := by
  simp [lockDate, h]

theorem day_of_lockDate {p q : Process} {l : TaskStep} (hstep : p.step l = some q)
    {today : NaiveDate} (h : p.lockDate l = some today) : q.state.day = some today := by
  rcases step_cases hstep with ⟨active, date, rfl, hp, rfl⟩ | ⟨date, rfl, hp, rfl⟩ | ⟨hnone, -⟩
  · rw [lockDate_tickerLock hp] at h
    cases h
    exact State.advance_day p.state today active p.cfg.tickSeconds
  · rw [lockDate_resetterLock hp] at h
    cases h
    exact State.resetIfNewDay_day p.state today
  · rw [hnone] at h
    cases h

def Pending (p : Process) (d : NaiveDate) : Prop :=
  (∃ active, p.ticker = .dated active d) ∨ p.resetter = .dated d

theorem pending_step {p q : Process} {l : TaskStep} (h : p.step l = some q) {d : NaiveDate}
    (hd : q.Pending d) : p.Pending d ∨ l.dateRead = some d := by
  cases l with
  | tickerLock =>
    obtain ⟨active, today, -, rfl⟩ := step_tickerLock h
    rcases hd with ⟨a, ha⟩ | hr
    · cases ha
    · exact Or.inl (Or.inr hr)
  | resetterLock =>
    obtain ⟨today, -, rfl⟩ := step_resetterLock h
    rcases hd with ht | hr
    · exact Or.inl (Or.inl ht)
    · cases hr
  | tickerSaved =>
    simp only [step, tickerSaved] at h
    split at h <;> cases h
    rcases hd with ⟨a, ha⟩ | hr
    · cases ha
    · exact Or.inl (Or.inr hr)
  | resetterSaved =>
    simp only [step, resetterSaved] at h
    split at h <;> cases h
    rcases hd with ht | hr
    · exact Or.inl (Or.inl ht)
    · rename_i rolled _ _
      cases rolled <;> cases hr
  | resetterRead today =>
    simp only [step] at h
    split at h <;> cases h
    rcases hd with ht | hr
    · exact Or.inl (Or.inl ht)
    · cases hr
      exact Or.inr rfl
  | resetterSent =>
    simp only [step] at h
    split at h <;> cases h
    rcases hd with ht | hr
    · exact Or.inl (Or.inl ht)
    · cases hr
  | _ =>
    simp only [step] at h
    split at h <;> cases h
    rcases hd with ⟨a, ha⟩ | hr
    · cases ha <;> exact Or.inr rfl
    · exact Or.inl (Or.inr hr)

theorem day_step {p q : Process} {l : TaskStep} (h : p.step l = some q) :
    q.state.day = p.state.day ∨ ∃ d, p.Pending d ∧ q.state.day = some d := by
  rcases step_cases h with ⟨active, today, rfl, hp, -⟩ | ⟨today, rfl, hp, -⟩ | ⟨-, -, hstate, -⟩
  · exact Or.inr ⟨today, Or.inl ⟨active, hp⟩, day_of_lockDate h (lockDate_tickerLock hp)⟩
  · exact Or.inr ⟨today, Or.inr hp, day_of_lockDate h (lockDate_resetterLock hp)⟩
  · exact Or.inl (by rw [hstate])

end Process

end Daemon
end Konstantin
