import Konstantin.Effect.Program

/-!
# What a program owes before it asks

A `Contract` notes the exchanges of a run in a state.  From that state it says what a
program owes before an operation, and what may be expected of a reply.  `Meets` is the
rule for programs, with a condition on the value at the end.  A program that meets a
contract owes nothing at any point of a run whose replies were as expected.
-/

namespace Konstantin
namespace Effect

structure Contract (Op : Type) (Reply : Op → Type) (σ : Type) where
  owed : σ → Op → Prop
  expected : σ → (o : Op) → Reply o → Prop
  note : σ → (o : Op) → Reply o → σ

variable {Op : Type} {Reply : Op → Type} {α β σ : Type}

namespace Contract

variable (C : Contract Op Reply σ)

/-- The state behind some exchanges. -/
def noted (s : σ) (tr : List (Sigma Reply)) : σ := tr.foldl (fun s e => C.note s e.1 e.2) s

def Expected : σ → List (Sigma Reply) → Prop
  | _, [] => True
  | s, e :: rest => C.expected s e.1 e.2 ∧ Expected (C.note s e.1 e.2) rest

end Contract

namespace Program

def Meets (C : Contract Op Reply σ) (post : σ → α → Prop) : Program Op Reply α → σ → Prop
  | done a, s => post s a
  | ask o k, s => C.owed s o ∧ ∀ r, C.expected s o r → (k r).Meets C post (C.note s o r)

variable {C : Contract Op Reply σ} {post post' : σ → α → Prop} {p : Program Op Reply α} {s : σ}

theorem Meets.mono (h : p.Meets C post s) (hpost : ∀ t a, post t a → post' t a) :
    p.Meets C post' s := by
  induction p generalizing s with
  | done a => exact hpost s a h
  | ask o k ih => exact ⟨h.1, fun r hr => ih r (h.2 r hr)⟩

/-- The sequence rule: what the first program ends with is what the second begins with. -/
theorem Meets.bind {mid : σ → β → Prop} {q : Program Op Reply β} {f : β → Program Op Reply α}
    (h : q.Meets C mid s) (hf : ∀ t b, mid t b → (f b).Meets C post t) :
    (q.bind f).Meets C post s := by
  induction q generalizing s with
  | done b => exact hf s b h
  | ask o k ih => exact ⟨h.1, fun r hr => ih r (h.2 r hr)⟩

/-- What is left of the program meets the contract from the state that is reached. -/
theorem Meets.rest {tr : List (Sigma Reply)} {q : Program Op Reply α} (h : p.Meets C post s)
    (hreaches : p.Reaches tr q) (hexpected : C.Expected s tr) :
    q.Meets C post (C.noted s tr) := by
  induction hreaches generalizing s with
  | here p => exact h
  | next r _ ih => exact ih (h.2 r hexpected.1) hexpected.2

end Program

end Effect
end Konstantin
