import Mathlib.Algebra.GroupWithZero.Nat
import Konstantin.Daemon.Enforcement
import Konstantin.Daemon.Machine

/-!
# A history of processes

Daemon processes one after another on one disk: each starts with any accepted
configuration on what the disk holds, goes through the steps of its tasks and
their saves in any order, and ends at any moment.  The dates the tasks read are
arbitrary.

`credits` is bookkeeping: the date, the users and the seconds of every ticker
iteration of every process, entered when its locked section is done.
-/

namespace Konstantin
namespace Daemon

open Fs

structure Credit where
  date : NaiveDate
  active : UserSet
  seconds : UInt32

def creditSum (credits : List Credit) (d : NaiveDate) (u : String) : Nat :=
  (credits.map fun c => if c.date = d ∧ u ∈ c.active then c.seconds.toNat else 0).sum

structure Host where
  disk : Disk
  machine : Option Machine
  credits : List Credit

inductive HostStep where
  | start (cfg : Config) (today : NaiveDate) (initial : UserSet)
  | machine (l : MachineStep)
  | crash

namespace Host

def initial : Host := { disk := Volume.empty, machine := none, credits := [] }

def creditedBy (p : Process) : TaskStep → List Credit
  | .tickerLock =>
    match p.ticker with
    | .dated active today => [⟨today, active, p.cfg.tickSeconds⟩]
    | _ => []
  | _ => []

def credited (m : Machine) : MachineStep → List Credit
  | .task l => creditedBy m.process l
  | .call .. => []

def step (size : Snapshot → Nat) (h : Host) : HostStep → Option Host
  | .start cfg today initial =>
    if h.machine.isNone ∧ cfg.validate = .ok () then
      some { h with machine := some (Machine.boot cfg h.disk today initial) }
    else none
  | .machine l =>
    h.machine.bind fun m =>
      (m.step size l).map fun m' =>
        { disk := m'.disk, machine := some m', credits := h.credits ++ credited m l }
  | .crash => h.machine.map fun _ => { h with machine := none }

/-- Whoever is kicked at a limit in an iteration has been credited the seconds of
that limit, on the date the iteration read. -/
def NoPrematureKick (h : Host) : Prop :=
  ∀ m active today snap u lastKicked now, h.machine = some m →
    m.process.ticker = .enforcing active today snap → u ∈ active →
    Enforcement.decide m.process.cfg u (snap.state.used u) lastKicked now =
      .kick .limitReached →
    ∃ limit, m.process.cfg.userByName u = some limit ∧
      min (limit.dailyLimitMinutes.toNat * 60) (2 ^ 32 - 1) ≤ creditSum h.credits today u

/-! ## Credits -/

theorem creditSum_append (credits more : List Credit) (d : NaiveDate) (u : String) :
    creditSum (credits ++ more) d u = creditSum credits d u + creditSum more d u := by
  simp [creditSum]

theorem creditSum_concat (credits : List Credit) (d : NaiveDate) (active : UserSet)
    (seconds : UInt32) (u : String) :
    creditSum (credits ++ [⟨d, active, seconds⟩]) d u =
      creditSum credits d u + if u ∈ active then seconds.toNat else 0 := by
  simp [creditSum]

/-- The counters of a state do not exceed what was credited on its day. -/
def Backed (credits : List Credit) (s : State) : Prop :=
  ∀ d u, s.day = some d → (s.used u).toNat ≤ creditSum credits d u

theorem backed_mono {credits : List Credit} {s : State} (h : Backed credits s)
    (more : List Credit) : Backed (credits ++ more) s := by
  intro d u hd
  have hle := h d u hd
  rw [creditSum_append]
  omega

theorem backed_fresh (credits : List Credit) : Backed credits State.fresh :=
  fun _ _ h => by cases h

theorem backed_reset {credits : List Credit} {s : State} (h : Backed credits s)
    (today : NaiveDate) : Backed credits (s.resetIfNewDay today).1 := by
  intro d u hd
  rw [State.resetIfNewDay_day] at hd
  cases hd
  rw [State.used_resetIfNewDay]
  by_cases hday : s.day = some today
  · rw [if_pos hday]
    exact h today u hday
  · rw [if_neg hday]
    exact Nat.zero_le _

/-- A tick is backed by the credit it makes; a counter that wraps only falls. -/
theorem backed_advance {credits : List Credit} {s : State} (h : Backed credits s)
    (today : NaiveDate) (active : UserSet) (seconds : UInt32) :
    Backed (credits ++ [⟨today, active, seconds⟩]) (s.advance today active seconds) := by
  intro d u hd
  rw [State.advance_day] at hd
  cases hd
  have hbefore := backed_reset h today today u (State.resetIfNewDay_day s today)
  rw [creditSum_concat, State.advance, State.used_tick]
  by_cases hu : u ∈ active
  · rw [if_pos hu, if_pos hu, UInt32.toNat_add]
    have hmod := Nat.mod_le (((s.resetIfNewDay today).1.used u).toNat + seconds.toNat) (2 ^ 32)
    omega
  · rw [if_neg hu, if_neg hu]
    omega

/-! ## The invariant -/

def inHand (p : Process) : Option (NaiveDate × Snapshot) :=
  match p.ticker with
  | .saving _ today snap => some (today, snap)
  | .sending _ today snap => some (today, snap)
  | .enforcing _ today snap => some (today, snap)
  | _ => none

theorem inHand_step {p q : Process} {l : TaskStep} (h : p.step l = some q)
    {x : NaiveDate × Snapshot} (hx : inHand q = some x) :
    inHand p = some x ∨ (l = .tickerLock ∧ q.state = x.2.state ∧ q.state.day = some x.1) := by
  cases l with
  | tickerLock =>
    obtain ⟨active, today, -, rfl⟩ := Process.step_tickerLock h
    cases hx
    exact Or.inr ⟨rfl, rfl, State.advance_day p.state today active p.cfg.tickSeconds⟩
  | resetterLock =>
    obtain ⟨today, -, rfl⟩ := Process.step_resetterLock h
    exact Or.inl hx
  | resetterRead => 
    simp only [Process.step] at h
    split at h <;> cases h
    exact Or.inl hx
  | resetterSaved =>
    simp only [Process.step, Process.resetterSaved] at h
    split at h <;> cases h
    exact Or.inl hx
  | resetterSent =>
    simp only [Process.step] at h
    split at h <;> cases h
    exact Or.inl hx
  | tickerSaved =>
    simp only [Process.step, Process.tickerSaved] at h
    split at h <;> cases h
    rename_i hp
    cases hx
    exact Or.inl (by rw [inHand, hp])
  | tickerSent =>
    simp only [Process.step] at h
    split at h <;> cases h
    rename_i hp
    cases hx
    exact Or.inl (by rw [inHand, hp])
  | _ =>
    simp only [Process.step] at h
    split at h <;> cases h
    cases hx

structure ProcessSound (credits : List Credit) (p : Process) : Prop where
  state : Backed credits p.state
  inHand : ∀ today snap, inHand p = some (today, snap) →
    snap.state.day = some today ∧ Backed credits snap.state

theorem ProcessSound.step {credits : List Credit} {p q : Process} {l : TaskStep}
    (h : ProcessSound credits p) (hstep : p.step l = some q) :
    ProcessSound (credits ++ creditedBy p l) q := by
  have hstate : Backed (credits ++ creditedBy p l) q.state := by
    rcases Process.step_cases hstep with ⟨active, today, rfl, hp, rfl⟩ | ⟨today, rfl, -, rfl⟩ |
      ⟨-, -, hsame, -⟩
    · have hcredit : creditedBy p .tickerLock = [⟨today, active, p.cfg.tickSeconds⟩] := by
        simp only [creditedBy, hp]
      rw [hcredit]
      exact backed_advance h.state today active p.cfg.tickSeconds
    · exact backed_mono (backed_reset h.state today) _
    · rw [hsame]
      exact backed_mono h.state _
  refine ⟨hstate, fun today snap hx => ?_⟩
  rcases inHand_step hstep hx with hold | ⟨-, hclone, hday⟩
  · obtain ⟨hday, hbacked⟩ := h.inHand today snap hold
    exact ⟨hday, backed_mono hbacked _⟩
  · have hclone : q.state = snap.state := hclone
    rw [← hclone]
    exact ⟨hday, hstate⟩

def DiskSound (credits : List Credit) (disk : Disk) : Prop :=
  ∀ i snap, disk.data i = .whole snap → Backed credits snap.state

structure MachineSound (credits : List Credit) (m : Machine) : Prop where
  process : ProcessSound credits m.process
  writer : ∀ w snap, (m.writer w).value = some snap → Backed credits snap.state
  disk : DiskSound credits m.disk

theorem diskSound_mono {credits : List Credit} {disk : Disk} (h : DiskSound credits disk)
    (more : List Credit) : DiskSound (credits ++ more) disk :=
  fun i snap hi => backed_mono (h i snap hi) more

theorem creditedBy_saved (p : Process) (w : Task) : creditedBy p w.savedStep = [] := by
  cases w <;> rfl

theorem MachineSound.finish {credits : List Credit} {m m' : Machine} (h : MachineSound credits m)
    {w : Task} {disk : Disk} {saved : Option Nat} (hdisk : DiskSound credits disk)
    (hfin : m.finish w disk saved = some m') : MachineSound credits m' := by
  obtain ⟨p, hp, rfl⟩ := Option.map_eq_some_iff.mp hfin
  have hprocess := h.process.step hp
  rw [creditedBy_saved, List.append_nil] at hprocess
  refine ⟨hprocess, fun u snap hu => ?_, hdisk⟩
  rcases Machine.value_update hu with ⟨-, hidle⟩ | hold
  · cases hidle
  · exact h.writer u snap hold

theorem MachineSound.run {credits : List Credit} {m : Machine} (h : MachineSound credits m)
    {t : TaskStep} {p : Process} (hstep : m.process.step t = some p) :
    MachineSound (credits ++ creditedBy m.process t) (m.run t p) := by
  have hprocess := h.process.step hstep
  refine ⟨hprocess, fun w snap hw => ?_, diskSound_mono h.disk _⟩
  by_cases ht : t = w.lockStep
  · rw [(Machine.run_writer_lock hstep ht).1] at hw
    cases hw
    exact hprocess.state
  · rw [Machine.run_writer_ne ht] at hw
    exact backed_mono (h.writer w snap hw) _

theorem MachineSound.step {credits : List Credit} {m m' : Machine} (h : MachineSound credits m)
    {size : Snapshot → Nat} {l : MachineStep} (hstep : m.step size l = some m') :
    MachineSound (credits ++ credited m l) m' := by
  rcases Machine.step_cases hstep with ⟨t, p, rfl, hp, rfl⟩ |
    ⟨w, c, disk, progress, rfl, hcall, hres⟩
  · exact h.run hp
  · have hdisk : DiskSound credits disk := by
      intro i snap hi
      rcases Writer.call_whole hcall hi with hold | hown
      · exact h.disk i snap hold
      · exact h.writer w snap hown
    rw [credited, List.append_nil]
    rcases hres with ⟨writer, rfl, rfl⟩ | ⟨snap, -, hfin⟩ | ⟨-, hfin⟩
    · refine ⟨h.process, fun u snap hu => ?_, hdisk⟩
      rcases Machine.value_update hu with ⟨-, hvalue⟩ | hold
      · exact h.writer w snap (Writer.call_going hcall ▸ hvalue)
      · exact h.writer u snap hold
    · exact h.finish hdisk hfin
    · exact h.finish hdisk hfin

theorem backed_load {credits : List Credit} {disk : Disk} (h : DiskSound credits disk)
    (path : Path) : Backed credits (State.load path disk) := by
  unfold State.load
  split
  · rename_i snap hread
    obtain ⟨i, -, hi⟩ := Option.map_eq_some_iff.mp hread
    exact h i snap hi
  · exact backed_fresh credits

theorem machineSound_boot {credits : List Credit} {disk : Disk} (h : DiskSound credits disk)
    (cfg : Config) (today : NaiveDate) (initial : UserSet) :
    MachineSound credits (Machine.boot cfg disk today initial) where
  process := ⟨backed_reset (backed_load h cfg.statePath) today, fun _ _ hx => by cases hx⟩
  writer := fun _ _ hw => by cases hw
  disk := h

structure Sound (h : Host) : Prop where
  disk : DiskSound h.credits h.disk
  machine : ∀ m, h.machine = some m → MachineSound h.credits m

theorem sound_initial : Sound initial where
  disk := fun _ _ h => by cases h
  machine := fun _ h => by cases h

theorem Sound.step {size : Snapshot → Nat} {h h' : Host} (hs : Sound h) {l : HostStep}
    (hstep : h.step size l = some h') : Sound h' := by
  cases l with
  | start cfg today initial =>
    simp only [Host.step] at hstep
    split at hstep
    · cases hstep
      refine ⟨hs.disk, fun m hm => ?_⟩
      cases hm
      exact machineSound_boot hs.disk cfg today initial
    · cases hstep
  | machine l =>
    obtain ⟨m, hm, hstep⟩ := Option.bind_eq_some_iff.mp hstep
    obtain ⟨m', hm', rfl⟩ := Option.map_eq_some_iff.mp hstep
    have hsound := (hs.machine m hm).step hm'
    refine ⟨hsound.disk, fun k hk => ?_⟩
    cases hk
    exact hsound
  | crash =>
    obtain ⟨m, -, rfl⟩ := Option.map_eq_some_iff.mp hstep
    exact ⟨hs.disk, fun k hk => by cases hk⟩

/-! ## No kick before the limit -/

theorem limit_of_kick {cfg : Config} {u : String} {used : UInt32} {lastKicked : Option Nat}
    {now : Nat} (h : Enforcement.decide cfg u used lastKicked now = .kick .limitReached) :
    ∃ limit, cfg.userByName u = some limit ∧ Config.limitSeconds limit ≤ used := by
  have hwanted : Enforcement.wanted cfg u used = .kick .limitReached := by
    unfold Enforcement.decide at h
    split at h
    · split at h
      · cases h
      · exact h
    · exact h
  unfold Enforcement.wanted at hwanted
  split at hwanted
  · rename_i limit hlimit
    split at hwanted
    · rename_i hle
      exact ⟨limit, hlimit, hle⟩
    · cases hwanted
  · split at hwanted <;> cases hwanted

theorem Sound.notPremature {h : Host} (hs : Sound h) : NoPrematureKick h := by
  intro m active today snap u lastKicked now hm hticker _ hkick
  obtain ⟨limit, hlimit, hle⟩ := limit_of_kick hkick
  have hhand : inHand m.process = some (today, snap) := by rw [inHand, hticker]
  obtain ⟨hday, hbacked⟩ := (hs.machine m hm).process.inHand today snap hhand
  refine ⟨limit, hlimit, ?_⟩
  calc min (limit.dailyLimitMinutes.toNat * 60) (2 ^ 32 - 1)
      = (Config.limitSeconds limit).toNat := (toNat_saturatingMul limit.dailyLimitMinutes 60).symm
    _ ≤ (snap.state.used u).toNat := UInt32.le_iff_toNat_le.mp hle
    _ ≤ creditSum h.credits today u := hbacked today u hday

end Host

end Daemon
end Konstantin
