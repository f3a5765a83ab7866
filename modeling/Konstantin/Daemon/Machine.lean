import Mathlib.Logic.Function.Basic
import Konstantin.Daemon.Process
import Konstantin.Fs.Replace

/-!
# The state file

`State::load` and `State::save_atomic`, with the two tasks of a process saving
their clones into one file.  A save is taken apart into its calls, and the calls
of the two tasks may alternate in any order.

`Konstantin.Fs.Replace` says what a reader finds in the file.  A snapshot is read
back as it was written, and bytes that are no snapshot do not parse: a proper
prefix of the printed object lacks its last brace, and one with the tail of a
longer one behind it has characters after that brace.
-/

namespace Konstantin
namespace Daemon

open Fs

inductive Task where
  | ticker
  | resetter
  deriving DecidableEq

namespace Task

def other : Task → Task
  | ticker => resetter
  | resetter => ticker

theorem eq_or_eq_other (w u : Task) : u = w ∨ u = w.other := by
  cases w <;> cases u <;> simp [other]

theorem other_ne (w : Task) : w.other ≠ w := by
  cases w <;> simp [other]

theorem other_other (w : Task) : w.other.other = w := by
  cases w <;> rfl

def lockStep : Task → TaskStep
  | ticker => .tickerLock
  | resetter => .resetterLock

def savedStep : Task → TaskStep
  | ticker => .tickerSaved
  | resetter => .resetterSaved

end Task

abbrev Disk := Volume Loc Snapshot

/-- `State::load`: a file that is missing or does not parse is a fresh state. -/
def State.load (path : Path) (disk : Disk) : State :=
  match disk.read path.resolve with
  | some (.whole snap) => snap.state.persisted
  | _ => State.fresh

def Process.held (p : Process) : Task → Option Snapshot
  | .ticker =>
    match p.ticker with
    | .saving _ _ snap => some snap
    | _ => none
  | .resetter =>
    match p.resetter with
    | .saving _ snap => some snap
    | _ => none

/-- A process, the saves of its tasks, and the disk.  `saved` is bookkeeping: the
place of the latest clone whose save has returned well. -/
structure Machine where
  process : Process
  writer : Task → Writer Snapshot
  disk : Disk
  saved : Option Nat

inductive MachineStep where
  | task (l : TaskStep)
  | call (w : Task) (c : WriteCall)

namespace Machine

def statePath (m : Machine) : Path := m.process.cfg.statePath

def boot (cfg : Config) (disk : Disk) (today : NaiveDate) (initial : UserSet) : Machine where
  process := Process.start cfg (State.load cfg.statePath disk) today initial
  writer := fun _ => .idle
  disk := disk
  saved := none

/-- A task of the process takes a step; with its clone in hand it begins to save. -/
def run (m : Machine) (l : TaskStep) (p : Process) : Machine :=
  { m with
    process := p
    writer := fun w =>
      if l = w.lockStep then (p.held w).elim (m.writer w) Writer.holding else m.writer w }

def finish (m : Machine) (w : Task) (disk : Disk) (saved : Option Nat) : Option Machine :=
  (m.process.step w.savedStep).map fun p =>
    { process := p, writer := Function.update m.writer w .idle, disk := disk, saved := saved }

/-- One step of a task or one call of a save.  The bytes of a snapshot are only
known by their number. -/
def step (size : Snapshot → Nat) (m : Machine) : MachineStep → Option Machine
  | .task l =>
    if l = .tickerSaved ∨ l = .resetterSaved then none else (m.process.step l).map (m.run l)
  | .call w c =>
    match (m.writer w).call size m.statePath.pushTmp.resolve m.statePath.resolve m.disk c with
    | none => none
    | some (disk, .going writer) =>
      some { m with disk := disk, writer := Function.update m.writer w writer }
    | some (disk, .saved snap) =>
      m.finish w disk (some (max (m.saved.getD 0) snap.order))
    | some (disk, .failed) => m.finish w disk m.saved

end Machine

/-! ## What a step of a task does to the clones -/

namespace Process

theorem held_of_lock {p q : Process} {w : Task} (h : p.step w.lockStep = some q) :
    q.held w = some ⟨p.clones.length, q.state⟩ ∧ q.clones = p.clones ++ [q.state] := by
  cases w with
  | ticker =>
    obtain ⟨active, today, -, rfl⟩ := step_tickerLock h
    exact ⟨rfl, rfl⟩
  | resetter =>
    obtain ⟨today, -, rfl⟩ := step_resetterLock h
    exact ⟨rfl, rfl⟩

theorem clones_prefix {p q : Process} {l : TaskStep} (h : p.step l = some q) :
    p.clones <+: q.clones := by
  rcases step_cases h with ⟨active, today, -, -, rfl⟩ | ⟨today, -, -, rfl⟩ | ⟨-, -, -, hsame, -⟩
  · exact List.prefix_append _ _
  · exact List.prefix_append _ _
  · exact hsame ▸ List.prefix_rfl

end Process

namespace Machine

variable {size : Snapshot → Nat} {m m' : Machine}

theorem run_writer_lock {l : TaskStep} {p : Process} {w : Task} (h : m.process.step l = some p)
    (hl : l = w.lockStep) :
    (m.run l p).writer w = .holding ⟨m.process.clones.length, p.state⟩ ∧
      p.clones = m.process.clones ++ [p.state] := by
  subst hl
  obtain ⟨hheld, hclones⟩ := Process.held_of_lock h
  refine ⟨?_, hclones⟩
  simp only [run, if_true, hheld, Option.elim_some]

theorem value_update {writers : Task → Writer Snapshot} {w u : Task} {writer : Writer Snapshot}
    {snap : Snapshot} (h : (Function.update writers w writer u).value = some snap) :
    (u = w ∧ writer.value = some snap) ∨ (writers u).value = some snap := by
  by_cases huw : u = w
  · subst huw
    rw [Function.update_self] at h
    exact Or.inl ⟨rfl, h⟩
  · rw [Function.update_of_ne huw] at h
    exact Or.inr h

theorem run_writer_ne {l : TaskStep} {p : Process} {w : Task} (hl : l ≠ w.lockStep) :
    (m.run l p).writer w = m.writer w := if_neg hl

theorem finish_eq_some {w : Task} {disk : Disk} {saved : Option Nat}
    (h : m.finish w disk saved = some m') :
    m'.process.clones = m.process.clones ∧ m'.process.cfg = m.process.cfg ∧
      m'.writer = Function.update m.writer w .idle ∧ m'.disk = disk ∧ m'.saved = saved := by
  obtain ⟨p, hp, rfl⟩ := Option.map_eq_some_iff.mp h
  refine ⟨?_, Process.cfg_step hp, rfl, rfl, rfl⟩
  cases w <;> rcases Process.step_cases hp with ⟨_, _, hl, -⟩ | ⟨_, hl, -⟩ | ⟨-, -, -, hsame, -⟩ <;>
    first | exact hsame | cases hl

/-- What a step of the machine can do: a step of a task, or a call that goes on,
saves or fails. -/
theorem step_cases {l : MachineStep} (h : m.step size l = some m') :
    (∃ t p, l = .task t ∧ m.process.step t = some p ∧ m' = m.run t p) ∨
      ∃ w c disk progress, l = .call w c ∧
        (m.writer w).call size m.statePath.pushTmp.resolve m.statePath.resolve m.disk c =
          some (disk, progress) ∧
        ((∃ writer, progress = .going writer ∧
            m' = { m with disk := disk, writer := Function.update m.writer w writer }) ∨
          (∃ snap, progress = .saved snap ∧
            m.finish w disk (some (max (m.saved.getD 0) snap.order)) = some m') ∨
          (progress = .failed ∧ m.finish w disk m.saved = some m')) := by
  cases l with
  | task t =>
    simp only [step] at h
    split at h
    · cases h
    · obtain ⟨p, hp, rfl⟩ := Option.map_eq_some_iff.mp h
      exact Or.inl ⟨t, p, rfl, hp, rfl⟩
  | call w c =>
    right
    simp only [step] at h
    split at h
    · cases h
    · rename_i disk writer hcall
      cases h
      exact ⟨w, c, disk, _, rfl, hcall, Or.inl ⟨writer, rfl, rfl⟩⟩
    · rename_i disk snap hcall
      exact ⟨w, c, disk, _, rfl, hcall, Or.inr (Or.inl ⟨snap, rfl, h⟩)⟩
    · rename_i disk hcall
      exact ⟨w, c, disk, _, rfl, hcall, Or.inr (Or.inr ⟨rfl, h⟩)⟩

end Machine

end Daemon
end Konstantin
