/-!
# Replacing a file through a temporary

A writer that replaces a file atomically opens a temporary beside it, which
truncates the temporary, writes its value through the handle it got, and renames
the temporary over the file.  Several writers may use one temporary.

A handle belongs to a file and not to a name: what is written through it after
the temporary was renamed lands in the target.  A value written over a longer
one leaves the tail of the longer one behind it.
-/

namespace Konstantin
namespace Fs

/-- What a reader finds in a file that is only written by whole values: one of
the values, or `length` bytes that are none. -/
inductive Bytes (α : Type) where
  | whole (a : α)
  | torn (length : Nat)
  deriving DecidableEq

namespace Bytes

variable {α : Type}

def length (size : α → Nat) : Bytes α → Nat
  | whole a => size a
  | torn n => n

/-- The bytes of `a` written over `old` from its start. -/
def overwrite (size : α → Nat) (old : Bytes α) (a : α) : Bytes α :=
  if old.length size ≤ size a then whole a else torn (old.length size)

theorem overwrite_empty (size : α → Nat) (a : α) : (torn 0).overwrite size a = whole a :=
  if_pos (Nat.zero_le _)

/-- Overwriting never brings back anything but the new value. -/
theorem eq_of_overwrite_whole {size : α → Nat} {old : Bytes α} {a b : α}
    (h : old.overwrite size a = whole b) : b = a := by
  unfold overwrite at h
  split at h
  · cases h
    rfl
  · cases h

end Bytes

/-- The files of a volume: the inode a name has, the bytes of every inode, and
the first inode not used yet. -/
structure Volume (ν α : Type) where
  inode : ν → Option Nat
  data : Nat → Bytes α
  fresh : Nat
  inode_lt : ∀ n i, inode n = some i → i < fresh
  inode_inj : ∀ m n i, inode m = some i → inode n = some i → m = n

namespace Volume

variable {ν α : Type}

def empty : Volume ν α where
  inode := fun _ => none
  data := fun _ => .torn 0
  fresh := 0
  inode_lt := fun _ _ h => by cases h
  inode_inj := fun _ _ _ h => by cases h

/-- What a read of the file finds, when the file is there. -/
def read (v : Volume ν α) (n : ν) : Option (Bytes α) := (v.inode n).map v.data

def setData (v : Volume ν α) (i : Nat) (b : Bytes α) : Volume ν α :=
  { v with data := fun k => if k = i then b else v.data k }

theorem read_setData_ne {v : Volume ν α} {m n : ν} {i : Nat} (hn : v.inode n = some i)
    (h : m ≠ n) (b : Bytes α) : (v.setData i b).read m = v.read m := by
  refine Option.map_congr fun j hj => if_neg ?_
  intro hji
  exact h (v.inode_inj m n i (hji ▸ hj) hn)

variable [DecidableEq ν]

/-- Open a file for writing, truncating it or creating it. -/
def openFile (v : Volume ν α) (n : ν) : Nat × Volume ν α :=
  match h : v.inode n with
  | some i => (i, v.setData i (.torn 0))
  | none =>
    (v.fresh,
      { inode := fun m => if m = n then some v.fresh else v.inode m
        data := fun k => if k = v.fresh then .torn 0 else v.data k
        fresh := v.fresh + 1
        inode_lt := by
          intro m i hm
          split at hm
          · cases hm
            exact Nat.lt_succ_self _
          · exact Nat.lt_succ_of_lt (v.inode_lt m i hm)
        inode_inj := by
          intro a b i ha hb
          split at ha <;> split at hb
          · rename_i hm hn
            rw [hm, hn]
          · cases ha
            exact absurd (v.inode_lt b _ hb) (Nat.lt_irrefl _)
          · cases hb
            exact absurd (v.inode_lt a _ ha) (Nat.lt_irrefl _)
          · exact v.inode_inj a b i ha hb })

/-- Rename `src` over `dst`; `none` when there is no `src`. -/
def rename (v : Volume ν α) (src dst : ν) : Option (Volume ν α) :=
  match h : v.inode src with
  | none => none
  | some i => some
      { v with
        inode := fun m => if m = dst then some i else if m = src then none else v.inode m
        inode_lt := by
          intro m j hm
          split at hm
          · cases hm
            exact v.inode_lt src i h
          · split at hm
            · cases hm
            · exact v.inode_lt m j hm
        inode_inj := by
          have other : ∀ m j, (if m = src then none else v.inode m) = some j → j ≠ i := by
            intro m j hm
            split at hm
            · cases hm
            · rename_i hsrc
              intro hj
              exact hsrc (v.inode_inj m src i (hj ▸ hm) h)
          intro a b j ha hb
          split at ha <;> split at hb
          · rename_i hm hn
            rw [hm, hn]
          · cases ha
            exact absurd rfl (other b i hb)
          · cases hb
            exact absurd rfl (other a i ha)
          · split at ha
            · cases ha
            · split at hb
              · cases hb
              · exact v.inode_inj a b j ha hb }

theorem openFile_inode_self (v : Volume ν α) (n : ν) :
    (v.openFile n).2.inode n = some (v.openFile n).1 := by
  unfold openFile
  split
  · rename_i i h
    exact h
  · exact if_pos rfl

theorem openFile_inode_ne (v : Volume ν α) {m n : ν} (h : m ≠ n) :
    (v.openFile n).2.inode m = v.inode m := by
  unfold openFile
  split
  · rfl
  · exact if_neg h

theorem openFile_data (v : Volume ν α) (n : ν) (k : Nat) :
    (v.openFile n).2.data k = if k = (v.openFile n).1 then .torn 0 else v.data k := by
  unfold openFile
  split <;> rfl

theorem read_openFile_ne (v : Volume ν α) {m n : ν} (h : m ≠ n) :
    (v.openFile n).2.read m = v.read m := by
  unfold read
  rw [openFile_inode_ne v h]
  refine Option.map_congr fun i hi => ?_
  rw [openFile_data, if_neg]
  intro hopen
  apply h
  refine (v.openFile n).2.inode_inj m n i ?_ ?_
  · rw [openFile_inode_ne v h, hi]
  · rw [openFile_inode_self, hopen]

theorem rename_eq_some {v w : Volume ν α} {src dst : ν} (h : v.rename src dst = some w) :
    w.data = v.data ∧ ∃ i, v.inode src = some i ∧
      ∀ m, w.inode m = if m = dst then some i else if m = src then none else v.inode m := by
  unfold rename at h
  split at h
  · cases h
  · rename_i i hi
    cases h
    exact ⟨rfl, i, hi, fun _ => rfl⟩

end Volume

/-- How far one writer is with the value it replaces the file by. -/
inductive Writer (α : Type) where
  | idle
  | holding (a : α)
  | opened (a : α) (inode : Nat)
  | written (a : α)
  deriving DecidableEq

/-- The calls of one writer.  `fail` is a call that reports an error, with the
bytes a write had put into the file before it did. -/
inductive WriteCall where
  | open
  | write
  | rename
  | fail (left : Nat)
  deriving DecidableEq

inductive Progress (α : Type) where
  | going (w : Writer α)
  | saved (a : α)
  | failed
  deriving DecidableEq

namespace Writer

variable {ν α : Type} [DecidableEq ν]

def value : Writer α → Option α
  | idle => none
  | holding a => some a
  | opened a _ => some a
  | written a => some a

/-- Between opening the temporary and renaming it. -/
def usesTemp : Writer α → Bool
  | opened .. => true
  | written _ => true
  | _ => false

/-- One call of a writer that replaces `target` through `temp`. -/
def call (size : α → Nat) (temp target : ν) (v : Volume ν α) :
    Writer α → WriteCall → Option (Volume ν α × Progress α)
  | idle, _ => none
  | holding a, .open => some ((v.openFile temp).2, .going (opened a (v.openFile temp).1))
  | holding _, .fail _ => some (v, .failed)
  | opened a i, .write => some (v.setData i ((v.data i).overwrite size a), .going (written a))
  | opened _ i, .fail left => some (v.setData i (.torn left), .failed)
  | written a, .rename =>
    match v.rename temp target with
    | some w => some (w, .saved a)
    | none => some (v, .failed)
  | written _, .fail _ => some (v, .failed)
  | _, _ => none

variable {size : α → Nat} {temp target : ν} {v v' : Volume ν α} {w : Writer α} {c : WriteCall}

theorem call_cases {p : Progress α} (h : w.call size temp target v c = some (v', p)) :
    (v' = v ∧ p = .failed) ∨
      (∃ a, w = holding a ∧ c = .open ∧ v' = (v.openFile temp).2 ∧
        p = .going (opened a (v.openFile temp).1)) ∨
      (∃ a i, w = opened a i ∧ v' = v.setData i ((v.data i).overwrite size a) ∧
        p = .going (written a)) ∨
      (∃ a i left, w = opened a i ∧ v' = v.setData i (.torn left) ∧ p = .failed) ∨
      (∃ a, w = written a ∧ v.rename temp target = some v' ∧ p = .saved a) := by
  cases w with
  | idle => simp [call] at h
  | holding a =>
    cases c <;> simp only [call, Option.some.injEq, Prod.mk.injEq, reduceCtorEq] at h
    · obtain ⟨hv, hp⟩ := h
      exact Or.inr (Or.inl ⟨a, rfl, rfl, hv.symm, hp.symm⟩)
    · exact Or.inl ⟨h.1.symm, h.2.symm⟩
  | opened a i =>
    cases c <;> simp only [call, Option.some.injEq, Prod.mk.injEq, reduceCtorEq] at h
    · obtain ⟨hv, hp⟩ := h
      exact Or.inr (Or.inr (Or.inl ⟨a, i, rfl, hv.symm, hp.symm⟩))
    · obtain ⟨hv, hp⟩ := h
      exact Or.inr (Or.inr (Or.inr (Or.inl ⟨a, i, _, rfl, hv.symm, hp.symm⟩)))
  | written a =>
    cases c <;> simp only [call, reduceCtorEq] at h
    · split at h
      · rename_i u hu
        simp only [Option.some.injEq, Prod.mk.injEq] at h
        obtain ⟨rfl, hp⟩ := h
        exact Or.inr (Or.inr (Or.inr (Or.inr ⟨a, rfl, hu, hp.symm⟩)))
      · simp only [Option.some.injEq, Prod.mk.injEq] at h
        exact Or.inl ⟨h.1.symm, h.2.symm⟩
    · simp only [Option.some.injEq, Prod.mk.injEq] at h
      exact Or.inl ⟨h.1.symm, h.2.symm⟩

/-- Every whole value on a volume after a call was there before it, or is the
caller's. -/
theorem call_whole {p : Progress α} (h : w.call size temp target v c = some (v', p)) {k : Nat}
    {a : α} (ha : v'.data k = .whole a) : v.data k = .whole a ∨ w.value = some a := by
  rcases call_cases h with ⟨rfl, -⟩ | ⟨b, rfl, -, rfl, -⟩ | ⟨b, i, rfl, rfl, -⟩ |
    ⟨b, i, left, rfl, rfl, -⟩ | ⟨b, rfl, hren, -⟩
  · exact Or.inl ha
  · rw [Volume.openFile_data] at ha
    split at ha
    · cases ha
    · exact Or.inl ha
  · simp only [Volume.setData] at ha
    split at ha
    · exact Or.inr (congrArg some (Bytes.eq_of_overwrite_whole ha).symm)
    · exact Or.inl ha
  · simp only [Volume.setData] at ha
    split at ha
    · cases ha
    · exact Or.inl ha
  · rw [(Volume.rename_eq_some hren).1] at ha
    exact Or.inl ha

theorem call_going {w' : Writer α} (h : w.call size temp target v c = some (v', .going w')) :
    w'.value = w.value := by
  rcases call_cases h with ⟨-, hp⟩ | ⟨a, rfl, -, -, hp⟩ | ⟨a, i, rfl, -, hp⟩ |
    ⟨a, i, left, rfl, -, hp⟩ | ⟨a, rfl, -, hp⟩ <;> cases hp <;> rfl

end Writer

end Fs
end Konstantin
