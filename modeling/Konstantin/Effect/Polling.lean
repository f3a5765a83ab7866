/-!
# Loops that poll until a turn ends them

A `Poller` carries a bound on the turns that go on, so `runFrom` is total: it
returns the index of the turn that ended the loop, and its result.
-/

namespace Konstantin
namespace Effect

structure Poller (σ ρ : Type) where
  turn : Nat → σ → ρ ⊕ σ
  room : Nat → Nat
  shrinks : ∀ {i : Nat} {s t : σ}, turn i s = .inr t → room (i + 1) < room i

namespace Poller

variable {σ ρ : Type} (P : Poller σ ρ)

def runFrom (i : Nat) (s : σ) : Nat × ρ :=
  match h : P.turn i s with
  | .inl r => (i, r)
  | .inr t => runFrom (i + 1) t
termination_by P.room i
decreasing_by exact P.shrinks h

theorem runFrom_of_inl {i : Nat} {s : σ} {r : ρ} (h : P.turn i s = .inl r) :
    P.runFrom i s = (i, r) := by
  rw [runFrom]
  split
  · rename_i heq
    rw [h] at heq
    cases heq
    rfl
  · rename_i heq
    rw [h] at heq
    cases heq

theorem runFrom_of_inr {i : Nat} {s t : σ} (h : P.turn i s = .inr t) :
    P.runFrom i s = P.runFrom (i + 1) t := by
  rw [runFrom]
  split
  · rename_i heq
    rw [h] at heq
    cases heq
  · rename_i heq
    rw [h] at heq
    cases heq
    rfl

variable {P}

/-- What every turn that goes on keeps holds at the turn that ends the loop. -/
theorem runFrom_spec {I : Nat → σ → Prop} {Q : Nat → ρ → Prop}
    (hgo : ∀ i s t, I i s → P.turn i s = .inr t → I (i + 1) t)
    (hend : ∀ i s r, I i s → P.turn i s = .inl r → Q i r) (i : Nat) (s : σ) (hs : I i s) :
    Q (P.runFrom i s).1 (P.runFrom i s).2 := by
  induction hroom : P.room i using Nat.strongRecOn generalizing i s with
  | ind n ih =>
    cases hturn : P.turn i s with
    | inl r =>
      rw [P.runFrom_of_inl hturn]
      exact hend i s r hs hturn
    | inr t =>
      rw [P.runFrom_of_inr hturn]
      exact ih (P.room (i + 1)) (hroom ▸ P.shrinks hturn) (i + 1) t (hgo i s t hs hturn) rfl

end Poller

end Effect
end Konstantin
