/-!
# Computations that fail with a message

A `Fallible` computation reads and changes a state, and stops at its first error.
What it has changed by then stays.  `Ensures` is the rule format: from a state
with `P`, the result and the state it leaves satisfy `Q`.
-/

namespace Konstantin
namespace Effect

abbrev Fallible (σ α : Type) : Type := ExceptT String (StateM σ) α

/-- What holds of a result, should there be one. -/
def IfOk {ε α : Type} (x : Except ε α) (P : α → Prop) : Prop := ∀ a, x = .ok a → P a

instance {ε α : Type} (x : Except ε α) (P : α → Prop) [DecidablePred P] : Decidable (IfOk x P) :=
  match x with
  | .error _ => .isTrue fun _ h => nomatch h
  | .ok a => decidable_of_iff (P a) ⟨fun h _ heq => Except.ok.inj heq ▸ h, fun h => h a rfl⟩

namespace Fallible

variable {σ τ α β ε : Type}

def outcome (x : Fallible σ α) (s : σ) : Except String α × σ := StateT.run (ExceptT.run x) s

def query (f : σ → Except String α) : Fallible σ α := fun s => (f s, s)

/-- A call that changes the state or fails and changes nothing. -/
def change (message : String) (op : σ → Except ε σ) : Fallible σ Unit := fun s =>
  match op s with
  | .ok s' => (.ok (), s')
  | .error _ => (.error message, s)

def modify (f : σ → σ) : Fallible σ Unit := fun s => (.ok (), f s)

def onPart (get : τ → σ) (put : τ → σ → τ) (x : Fallible σ α) : Fallible τ α := fun t =>
  ((x.outcome (get t)).1, put t (x.outcome (get t)).2)

theorem outcome_query (f : σ → Except String α) (s : σ) : outcome (query f) s = (f s, s) := rfl

theorem outcome_change (message : String) (op : σ → Except ε σ) (s : σ) :
    outcome (change message op) s =
      match op s with
      | .ok s' => (.ok (), s')
      | .error _ => (.error message, s) := rfl

theorem outcome_change_cases (message : String) (op : σ → Except ε σ) (s : σ) :
    (∃ s', op s = .ok s' ∧ outcome (change message op) s = (.ok (), s')) ∨
      outcome (change message op) s = (.error message, s) := by
  rw [outcome_change]
  cases op s with
  | ok s' => exact Or.inl ⟨s', rfl, rfl⟩
  | error e => exact Or.inr rfl

theorem change_ok {message : String} {op : σ → Except ε σ} {s s' : σ} {u : Unit}
    (h : outcome (change message op) s = (.ok u, s')) : op s = .ok s' := by
  rcases outcome_change_cases message op s with ⟨t, hop, hrun⟩ | hrun
  · cases hrun.symm.trans h
    exact hop
  · cases hrun.symm.trans h

theorem change_error {message e : String} {op : σ → Except ε σ} {s s' : σ}
    (h : outcome (change message op) s = (.error e, s')) : s' = s := by
  rcases outcome_change_cases message op s with ⟨t, hop, hrun⟩ | hrun
  · cases hrun.symm.trans h
  · cases hrun.symm.trans h
    rfl

theorem outcome_bind (x : Fallible σ α) (f : α → Fallible σ β) (s : σ) :
    outcome (x >>= f) s =
      match outcome x s with
      | (.ok a, s') => outcome (f a) s'
      | (.error e, s') => (.error e, s') := by
  unfold outcome
  rw [ExceptT.run_bind, StateT.run_bind]
  cases StateT.run (ExceptT.run x) s with
  | mk r s' => cases r <;> rfl

/-- What passes as a whole passed at its first step. -/
theorem change_bind {message : String} {op : σ → Except ε σ} {s s' : σ} (h : op s = .ok s')
    (f : Unit → Fallible σ β) : outcome (change message op >>= f) s = outcome (f ()) s' := by
  rw [outcome_bind, outcome_change, h]

theorem bind_ok {x : Fallible σ α} {f : α → Fallible σ β} {s : σ} {b : β}
    (h : ((x >>= f).outcome s).1 = .ok b) :
    ∃ a s', x.outcome s = (.ok a, s') ∧ ((f a).outcome s').1 = .ok b := by
  rw [outcome_bind] at h
  cases hx : x.outcome s with
  | mk r s' =>
    rw [hx] at h
    cases r with
    | ok a => exact ⟨a, s', rfl, h⟩
    | error e => cases h

def Ensures (P : σ → Prop) (x : Fallible σ α) (Q : Except String α → σ → Prop) : Prop :=
  ∀ s, P s → Q (x.outcome s).1 (x.outcome s).2

/-- What a first computation has to ensure: `R` for the next one, or at its error
what the whole has to ensure. -/
def Next (R : α → σ → Prop) (Q : Except String β → σ → Prop) : Except String α → σ → Prop
  | .ok a, s => R a s
  | .error e, s => Q (.error e) s

variable {P : σ → Prop} {x : Fallible σ α}

theorem ensures_bind {f : α → Fallible σ β} {Q : Except String β → σ → Prop} {R : α → σ → Prop}
    (hx : Ensures P x (Next R Q)) (hf : ∀ a, Ensures (R a) (f a) Q) : Ensures P (x >>= f) Q := by
  intro s hs
  rw [outcome_bind]
  have hfirst := hx s hs
  cases h : x.outcome s with
  | mk r s' =>
    rw [h] at hfirst
    cases r with
    | ok a => exact hf a s' hfirst
    | error e => exact hfirst

theorem keeps_bind {f : α → Fallible σ β} (hx : Ensures P x fun _ => P)
    (hf : ∀ a, Ensures P (f a) fun _ => P) : Ensures P (x >>= f) fun _ => P := by
  refine ensures_bind (R := fun _ => P) (fun s hs => ?_) hf
  have hfirst := hx s hs
  cases h : (x.outcome s).1 with
  | ok a => exact hfirst
  | error e => exact hfirst

/-- What is known of a first result is known where the second is computed. -/
theorem ifOk_bind {f : α → Fallible σ β} {R : α → Prop} {Q : β → Prop}
    (hx : ∀ s, IfOk (x.outcome s).1 R) (hf : ∀ a, R a → ∀ s, IfOk ((f a).outcome s).1 Q) (s : σ) :
    IfOk ((x >>= f).outcome s).1 Q := by
  intro b hb
  rw [outcome_bind] at hb
  have hfirst := hx s
  cases h : x.outcome s with
  | mk r s' =>
    rw [h] at hb hfirst
    cases r with
    | ok a => exact hf a (hfirst a rfl) s' b hb
    | error e => cases hb

theorem ifOk_pure {Q : α → Prop} {a : α} (h : Q a) (s : σ) :
    IfOk (outcome (pure a : Fallible σ α) s).1 Q := by
  intro b hb
  cases hb
  exact h

theorem keeps_query (f : σ → Except String α) : Ensures P (query f) fun _ => P := fun _ hs => hs

/-- A call that changes the state does so as `op` says, or changes nothing. -/
theorem ensures_change {message : String} {op : σ → Except ε σ}
    {Q : Except String Unit → σ → Prop}
    (hok : ∀ s s', P s → op s = .ok s' → Q (.ok ()) s')
    (herror : ∀ s e, P s → op s = .error e → Q (.error message) s) :
    Ensures P (change message op) Q := by
  intro s hs
  show Q (change message op s).1 (change message op s).2
  unfold change
  cases h : op s with
  | ok s' => exact hok s s' hs h
  | error e => exact herror s e hs h

theorem ensures_mono {Q R : Except String α → σ → Prop} (h : Ensures P x Q)
    (hmono : ∀ r s, Q r s → R r s) : Ensures P x R :=
  fun s hs => hmono _ _ (h s hs)

end Fallible

end Effect
end Konstantin
