import Mathlib.Data.List.Basic
import Mathlib.Data.List.Induction

/-!
# A register that several threads share

An access sets the register or reads it.  A list of accesses is legal from a
value if every read in it returned what the register held: a single thread that
made the accesses one after another would have seen the same.  Where each
operation of a concurrent object makes its access in a step of its own, between
its call and its return, a legal list is a linearization of the object.
-/

namespace Konstantin
namespace Streams

theorem getLast?_filterMap_ne_none {α β : Type} {f : α → Option β} {xs : List α} {x : α}
    (hx : x ∈ xs) (hfx : f x ≠ none) : (xs.filterMap f).getLast? ≠ none := by
  obtain ⟨y, hy⟩ := Option.ne_none_iff_exists'.mp hfx
  intro hnone
  have hmem : y ∈ xs.filterMap f := List.mem_filterMap.mpr ⟨x, hx, hy⟩
  rw [List.getLast?_eq_none_iff.mp hnone] at hmem
  cases hmem

/-- Where the last value is not that of `x`, it comes from behind `x`. -/
theorem exists_after_of_getLast? {α β : Type} {f : α → Option β} {xs : List α} {x : α} {y z : β}
    (hlast : (xs.filterMap f).getLast? = some y) (hx : x ∈ xs) (hfx : f x = some z)
    (hne : z ≠ y) :
    ∃ before after, xs = before ++ x :: after ∧ ∃ x' ∈ after, f x' = some y := by
  obtain ⟨before, after, rfl⟩ := List.append_of_mem hx
  refine ⟨before, after, rfl, ?_⟩
  rw [List.filterMap_append, List.filterMap_cons_some hfx, List.getLast?_append_cons] at hlast
  cases hafter : (after.filterMap f).getLast? with
  | none =>
    rw [List.getLast?_eq_none_iff.mp hafter] at hlast
    exact absurd (Option.some.inj hlast) hne
  | some y' =>
    have hcons : (z :: after.filterMap f).getLast? = some y' := by
      rw [List.getLast?_cons, hafter]
      rfl
    obtain rfl : y' = y := Option.some.inj (hcons.symm.trans hlast)
    exact List.mem_filterMap.mp (List.mem_of_getLast? hafter)

inductive Access (ι α : Type) where
  | set (thread : ι) (a : α)
  | get (thread : ι) (a : α)
  deriving DecidableEq

namespace Access

variable {ι α : Type}

def thread : Access ι α → ι
  | set i _ => i
  | get i _ => i

/-- What was set or read. -/
def shown : Access ι α → α
  | set _ a => a
  | get _ a => a

/-- What the register holds after one access. -/
def after (a : α) : Access ι α → α
  | set _ b => b
  | get _ _ => a

def value (a : α) (xs : List (Access ι α)) : α := xs.foldl after a

def Legal : α → List (Access ι α) → Prop
  | _, [] => True
  | _, set _ b :: xs => Legal b xs
  | a, get _ b :: xs => b = a ∧ Legal a xs

instance decidableLegal [DecidableEq α] : ∀ (a : α) (xs : List (Access ι α)), Decidable (Legal a xs)
  | _, [] => .isTrue trivial
  | _, set _ b :: xs => decidableLegal b xs
  | a, get _ b :: xs =>
    have := decidableLegal a xs
    inferInstanceAs (Decidable (b = a ∧ Legal a xs))

def setting : Access ι α → Option (ι × α)
  | set i a => some (i, a)
  | get _ _ => none

/-- Who set the register last, and to what. -/
def lastSet (xs : List (Access ι α)) : Option (ι × α) := (xs.filterMap setting).getLast?

theorem value_concat (a : α) (xs : List (Access ι α)) (x : Access ι α) :
    value a (xs ++ [x]) = x.after (value a xs) := by
  rw [value, List.foldl_append]
  rfl

theorem legal_append (a : α) (xs ys : List (Access ι α)) :
    Legal a (xs ++ ys) ↔ Legal a xs ∧ Legal (value a xs) ys := by
  induction xs generalizing a with
  | nil =>
    show Legal a ys ↔ True ∧ Legal a ys
    rw [true_and]
  | cons x xs ih =>
    cases x with
    | set i b => exact ih b
    | get i b =>
      show b = a ∧ Legal a (xs ++ ys) ↔ (b = a ∧ Legal a xs) ∧ Legal (value a xs) ys
      rw [ih a, and_assoc]

theorem legal_concat_set {a b : α} {xs : List (Access ι α)} (h : Legal a xs) (i : ι) :
    Legal a (xs ++ [set i b]) :=
  (legal_append a xs _).mpr ⟨h, trivial⟩

theorem legal_concat_get {a : α} {xs : List (Access ι α)} (h : Legal a xs) (i : ι) :
    Legal a (xs ++ [get i (value a xs)]) :=
  (legal_append a xs _).mpr ⟨h, rfl, trivial⟩

theorem lastSet_concat (xs : List (Access ι α)) (x : Access ι α) :
    lastSet (xs ++ [x]) = x.setting.or (lastSet xs) := by
  rw [lastSet, List.filterMap_append, List.getLast?_append]
  cases x <;> rfl

theorem value_eq_lastSet (a : α) (xs : List (Access ι α)) :
    value a xs = (lastSet xs).elim a Prod.snd := by
  induction xs using List.reverseRecOn with
  | nil => rfl
  | append_singleton xs x ih =>
    rw [value_concat, lastSet_concat]
    cases x with
    | set i b => rfl
    | get i b => exact ih

/-- Accesses that did not set the register last can be left out. -/
theorem value_filter (a : α) {xs : List (Access ι α)} {p : ι → Bool}
    (h : ∀ i b, lastSet xs = some (i, b) → p i = true) :
    value a (xs.filter fun x => p x.thread) = value a xs := by
  induction xs using List.reverseRecOn with
  | nil => rfl
  | append_singleton xs x ih =>
    rw [List.filter_append, value_concat]
    cases x with
    | set i b =>
      have hi : p i = true := h i b (by rw [lastSet_concat]; rfl)
      have hlast : [set i b].filter (fun x => p x.thread) = [set i b] := by
        rw [List.filter_cons_of_pos (by exact hi), List.filter_nil]
      rw [hlast, value_concat]
      rfl
    | get i b =>
      have hrest := ih fun j c hj => h j c (by rw [lastSet_concat]; exact hj)
      show _ = value a xs
      rw [← hrest]
      by_cases hi : p i = true
      · rw [List.filter_cons_of_pos (by exact hi), List.filter_nil, value_concat]
        rfl
      · rw [List.filter_cons_of_neg (by exact hi), List.filter_nil, List.append_nil]

end Access

end Streams
end Konstantin
