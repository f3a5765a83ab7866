/-!
# Programs that ask their environment

A `Program` is finished, or asks one operation and goes on with the reply.  `run`
lets a handler with a state of its own give the replies and records what was
asked; `trace` records the replies as well.  `All` is about every run at once: it
holds of the operations a program can ask, whatever the replies are.
-/

namespace Konstantin
namespace Effect

inductive Program (Op : Type) (Reply : Op → Type) (α : Type) where
  | done (a : α)
  | ask (o : Op) (k : Reply o → Program Op Reply α)

namespace Program

variable {Op : Type} {Reply : Op → Type} {α β σ : Type}

def bind : Program Op Reply α → (α → Program Op Reply β) → Program Op Reply β
  | done a, f => f a
  | ask o k, f => ask o fun r => (k r).bind f

/-- The value of a run, the operations it asked, and the state of the handler. -/
structure Outcome (Op α σ : Type) where
  value : α
  asked : List Op
  state : σ

def run (answer : (o : Op) → σ → Reply o × σ) : Program Op Reply α → σ → Outcome Op α σ
  | done a, s => ⟨a, [], s⟩
  | ask o k, s =>
    let r := answer o s
    let rest := (k r.1).run answer r.2
    { rest with asked := o :: rest.asked }

/-- The operations a run asks, each with its reply. -/
def trace (answer : (o : Op) → σ → Reply o × σ) : Program Op Reply α → σ → List (Sigma Reply)
  | done _, _ => []
  | ask o k, s =>
    let r := answer o s
    ⟨o, r.1⟩ :: (k r.1).trace answer r.2

def All (P : Op → Prop) : Program Op Reply α → Prop
  | done _ => True
  | ask o k => P o ∧ ∀ r, (k r).All P

variable {answer : (o : Op) → σ → Reply o × σ}

theorem run_bind (p : Program Op Reply α) (f : α → Program Op Reply β) (s : σ) :
    (p.bind f).run answer s =
      let first := p.run answer s
      let second := (f first.value).run answer first.state
      { second with asked := first.asked ++ second.asked } := by
  induction p generalizing s with
  | done a => rfl
  | ask o k ih =>
    simp only [bind, run, ih]
    rfl

theorem trace_bind (p : Program Op Reply α) (f : α → Program Op Reply β) (s : σ) :
    (p.bind f).trace answer s =
      p.trace answer s ++
        (f (p.run answer s).value).trace answer (p.run answer s).state := by
  induction p generalizing s with
  | done a => rfl
  | ask o k ih =>
    simp only [bind, trace, run, ih]
    rfl

theorem asked_eq_trace (p : Program Op Reply α) (s : σ) :
    (p.run answer s).asked = (p.trace answer s).map Sigma.fst := by
  induction p generalizing s with
  | done a => rfl
  | ask o k ih =>
    show o :: ((k (answer o s).1).run answer (answer o s).2).asked = _
    rw [ih]
    rfl

theorem all_bind {P : Op → Prop} {p : Program Op Reply α} {f : α → Program Op Reply β}
    (hp : p.All P) (hf : ∀ a, (f a).All P) : (p.bind f).All P := by
  induction p with
  | done a => exact hf a
  | ask o k ih => exact ⟨hp.1, fun r => ih r (hp.2 r)⟩

theorem asked_of_all {P : Op → Prop} {p : Program Op Reply α} (h : p.All P) (s : σ) :
    ∀ o ∈ (p.run answer s).asked, P o := by
  induction p generalizing s with
  | done a =>
    intro o ho
    cases ho
  | ask o k ih =>
    intro o' ho'
    rcases List.mem_cons.mp ho' with rfl | hrest
    · exact h.1
    · exact ih _ (h.2 _) _ o' hrest

/-- What no reply changes is as it was after a run. -/
theorem run_keeps {γ : Type} {f : σ → γ} (h : ∀ o s, f (answer o s).2 = f s)
    (p : Program Op Reply α) (s : σ) : f (p.run answer s).state = f s := by
  induction p generalizing s with
  | done a => rfl
  | ask o k ih => exact (ih _ _).trans (h o s)

/-! ## Part of a run -/

/-- The program goes on as the second one behind these operations and replies. -/
inductive Reaches : Program Op Reply α → List (Sigma Reply) → Program Op Reply α → Prop
  | here (p : Program Op Reply α) : Reaches p [] p
  | next {o : Op} {k : Reply o → Program Op Reply α} {tr : List (Sigma Reply)}
      {q : Program Op Reply α} (r : Reply o) (h : Reaches (k r) tr q) :
      Reaches (ask o k) (⟨o, r⟩ :: tr) q

namespace Reaches

variable {p q : Program Op Reply α} {tr : List (Sigma Reply)}

theorem concat {o : Op} {k : Reply o → Program Op Reply α} (h : Reaches p tr (ask o k))
    (r : Reply o) : Reaches p (tr ++ [⟨o, r⟩]) (k r) := by
  generalize heq : ask o k = last at h
  induction h with
  | here p =>
    subst heq
    exact .next r (.here _)
  | next r' _ ih => exact .next r' (ih heq)

theorem all {P : Op → Prop} (h : Reaches p tr q) (hp : p.All P) :
    (∀ e ∈ tr, P e.1) ∧ q.All P := by
  induction h with
  | here p => exact ⟨fun e he => absurd he List.not_mem_nil, hp⟩
  | next r _ ih =>
    obtain ⟨htrace, hq⟩ := ih (hp.2 r)
    refine ⟨fun e he => ?_, hq⟩
    rcases List.mem_cons.mp he with rfl | hrest
    · exact hp.1
    · exact htrace e hrest

end Reaches

end Program

end Effect
end Konstantin
