import Konstantin.Effect.Fallible

/-!
# Sequences of calls that do not come to their end

A sequence of calls can stop between two calls, at a call that fails, or inside a
call.  `Left` is the set of states it can leave so; the state at its end is one of
them.
-/

namespace Konstantin
namespace Effect

/-- What a call does to a state where it goes through, and what it can leave
where it does not. -/
structure CallSystem (κ σ : Type) where
  after : κ → σ → Option σ
  cut : κ → σ → σ → Prop

namespace CallSystem

variable {κ σ : Type} (C : CallSystem κ σ)

inductive Left : List κ → σ → σ → Prop where
  | stopped (ks : List κ) (s : σ) : Left ks s s
  | broken {k : κ} {s t : σ} (ks : List κ) (hcut : C.cut k s t) : Left (k :: ks) s t
  | passed {k : κ} {ks : List κ} {s t u : σ} (hafter : C.after k s = some t)
      (hleft : Left ks t u) : Left (k :: ks) s u

variable {C}

/-- What no call of the sequence takes away is there in every state left. -/
theorem Left.keeps {I : σ → Prop} {ks : List κ}
    (hafter : ∀ k ∈ ks, ∀ s t, I s → C.after k s = some t → I t)
    (hcut : ∀ k ∈ ks, ∀ s t, I s → C.cut k s t → I t) {s u : σ} (h : C.Left ks s u)
    (hs : I s) : I u := by
  induction h with
  | stopped ks s => exact hs
  | broken ks hbroken => exact hcut _ List.mem_cons_self _ _ hs hbroken
  | passed hpassed _ ih =>
    refine ih (fun k hk => hafter k (List.mem_cons_of_mem _ hk))
      (fun k hk => hcut k (List.mem_cons_of_mem _ hk)) ?_
    exact hafter _ List.mem_cons_self _ _ hs hpassed

end CallSystem

namespace Fallible

variable {κ σ : Type}

/-- A question at the end changes nothing. -/
theorem state_bind_query {α β : Type} (x : Fallible σ α) (f : σ → Except String β) (s : σ) :
    ((x >>= fun _ => query f).outcome s).2 = (x.outcome s).2 := by
  rw [outcome_bind]
  cases x.outcome s with
  | mk r s' => cases r <;> rfl

/-- The calls one after another, up to the first that fails. -/
def sequence (perform : κ → Fallible σ Unit) : List κ → Fallible σ Unit
  | [] => pure ()
  | k :: ks => do
    perform k
    sequence perform ks

/-- What the calls leave as a whole is among the states that are left. -/
theorem left_sequence {τ : Type} {C : CallSystem κ τ} {perform : κ → Fallible σ Unit}
    (view : τ → σ)
    (hok : ∀ k t s, (perform k).outcome (view t) = (.ok (), s) →
      ∃ u, C.after k t = some u ∧ view u = s)
    (herror : ∀ k t s message, (perform k).outcome (view t) = (.error message, s) →
      ∃ u, (u = t ∨ C.cut k t u) ∧ view u = s) (ks : List κ) (t : τ) :
    ∃ u, C.Left ks t u ∧ view u = ((sequence perform ks).outcome (view t)).2 := by
  induction ks generalizing t with
  | nil => exact ⟨t, .stopped [] t, rfl⟩
  | cons k ks ih =>
    rw [sequence, outcome_bind]
    cases hk : (perform k).outcome (view t) with
    | mk r s =>
      cases r with
      | ok u =>
        obtain ⟨v, hafter, rfl⟩ := hok k t s hk
        obtain ⟨w, hleft, hw⟩ := ih v
        exact ⟨w, .passed hafter hleft, hw⟩
      | error message =>
        obtain ⟨v, hleft, hv⟩ := herror k t s message hk
        rcases hleft with rfl | hcut
        · exact ⟨v, .stopped _ v, hv⟩
        · exact ⟨v, .broken ks hcut, hv⟩

end Fallible

end Effect
end Konstantin
