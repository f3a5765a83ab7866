import Mathlib.Logic.Function.Iterate
import Konstantin.Effect.Fallible

/-!
# Computations taken apart into calls

Where several computations share a state, each has a phase, and one call takes it
to its next phase or to its end.  A computation whose calls nothing interrupts
does what it does as a whole; `iterate_proceed` is the rule that says so, one
call at a time.
-/

namespace Konstantin
namespace Effect

namespace Fallible

variable {σ φ α : Type}

/-- One call: the next phase, or the end with the error of the call. -/
def proceed (finish : Except String α → φ) (x : Fallible σ Unit) (next : φ) (s : σ) : φ × σ :=
  match x.outcome s with
  | (.ok (), s') => (next, s')
  | (.error message, s') => (finish (.error message), s')

variable {finish : Except String α → φ} {x : Fallible σ Unit} {next : φ} {s s' : σ}

theorem proceed_ok (h : x.outcome s = (.ok (), s')) : proceed finish x next s = (next, s') := by
  rw [proceed, h]

theorem proceed_error {message : String} (h : x.outcome s = (.error message, s')) :
    proceed finish x next s = (finish (.error message), s') := by
  rw [proceed, h]

theorem proceed_state (finish : Except String α → φ) (x : Fallible σ Unit) (next : φ) (s : σ) :
    (proceed finish x next s).2 = (x.outcome s).2 := by
  unfold proceed
  split
  · rename_i h
    rw [h]
  · rename_i h
    rw [h]

/-- A call and then the calls of `rest` are `x` and then `rest`, where no call
leaves the end. -/
theorem iterate_proceed {advance : φ × σ → φ × σ} {rest : Fallible σ α} {k : Nat}
    (hend : ∀ r s, advance (finish r, s) = (finish r, s))
    (hrest : ∀ s, advance^[k] (next, s) = (finish (rest.outcome s).1, (rest.outcome s).2))
    (s : σ) :
    advance^[k] (proceed finish x next s) =
      (finish ((x >>= fun _ => rest).outcome s).1, ((x >>= fun _ => rest).outcome s).2) := by
  rw [outcome_bind]
  cases h : x.outcome s with
  | mk r s' =>
    cases r with
    | ok u =>
      rw [proceed_ok h]
      exact hrest s'
    | error message =>
      rw [proceed_error h]
      exact Function.iterate_fixed (hend (.error message) s') k

end Fallible

end Effect
end Konstantin
