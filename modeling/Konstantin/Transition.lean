import Mathlib.Data.List.Forall2
import Mathlib.Data.List.Induction

/-!
# Runs of a labelled step function

A system is a partial step function: `none` says that the label is not enabled.
`exec` folds it over a list of labels.  `Along` says what a run does at each of
its transitions, so a law about a run, or a condition on one, is a predicate on
a state, a label and the state after it.

A run stops at the first label that is not enabled, and `Along` asks nothing of
the labels behind it.  A law stated with `Along` therefore needs no hypothesis
that a list of labels can be executed.
-/

namespace Konstantin
namespace Transition

variable {σ ℓ : Type}

/-- The state a list of labels leads to. -/
def exec (step : σ → ℓ → Option σ) : σ → List ℓ → Option σ
  | s, [] => some s
  | s, l :: ls => (step s l).bind fun t => exec step t ls

/-- Every transition the labels make from `s` satisfies `P`. -/
def Along (step : σ → ℓ → Option σ) (P : σ → ℓ → σ → Prop) : σ → List ℓ → Prop
  | _, [] => True
  | s, l :: ls =>
    match step s l with
    | none => True
    | some t => P s l t ∧ Along step P t ls

instance decidableAlong (step : σ → ℓ → Option σ) (P : σ → ℓ → σ → Prop)
    [∀ s l t, Decidable (P s l t)] : ∀ s ls, Decidable (Along step P s ls)
  | _, [] => .isTrue trivial
  | s, l :: ls =>
    match h : step s l with
    | none => .isTrue (by simp only [Along, h])
    | some t =>
      have := decidableAlong step P t ls
      decidable_of_iff (P s l t ∧ Along step P t ls) (by simp only [Along, h])

section

variable {step : σ → ℓ → Option σ} {P Q : σ → ℓ → σ → Prop}

theorem along_cons {s t : σ} {l : ℓ} (h : step s l = some t) (ls : List ℓ) :
    Along step P s (l :: ls) ↔ P s l t ∧ Along step P t ls := by
  simp only [Along, h]

theorem along_cons_none {s : σ} {l : ℓ} (h : step s l = none) (ls : List ℓ) :
    Along step P s (l :: ls) := by
  simp only [Along, h]

theorem exec_cons {s t : σ} {l : ℓ} (h : step s l = some t) (ls : List ℓ) :
    exec step s (l :: ls) = exec step t ls := by
  simp only [exec, h, Option.bind_some]

theorem exec_append (s : σ) (ls ms : List ℓ) :
    exec step s (ls ++ ms) = (exec step s ls).bind fun t => exec step t ms := by
  induction ls generalizing s with
  | nil => rfl
  | cons l ls ih =>
    rw [List.cons_append, exec, exec]
    cases step s l with
    | none => rfl
    | some t => exact ih t

/-- What holds at the start and is kept by each step, of the labels so far and the
state they lead to, holds of every run. -/
theorem exec_history {I : List ℓ → σ → Prop} {s : σ} (hs : I [] s)
    (hstep : ∀ ls t l u, exec step s ls = some t → I ls t → step t l = some u →
      I (ls ++ [l]) u)
    {ls : List ℓ} {t : σ} (h : exec step s ls = some t) : I ls t := by
  induction ls using List.reverseRecOn generalizing t with
  | nil =>
    cases h
    exact hs
  | append_singleton ls l ih =>
    rw [exec_append] at h
    obtain ⟨u, hu, hlast⟩ := Option.bind_eq_some_iff.mp h
    obtain ⟨v, hv, hnil⟩ := Option.bind_eq_some_iff.mp hlast
    cases hnil
    exact hstep ls u l t hu (ih hu) hv

theorem along_at {s t u : σ} {ls ms : List ℓ} {l : ℓ} (h : Along step P s (ls ++ l :: ms))
    (ht : exec step s ls = some t) (hu : step t l = some u) : P t l u := by
  induction ls generalizing s with
  | nil =>
    cases ht
    exact ((along_cons hu ms).mp h).1
  | cons k ls ih =>
    cases hk : step s k with
    | none => simp [exec, hk] at ht
    | some r =>
      rw [exec_cons hk] at ht
      exact ih ((along_cons hk _).mp h).2 ht

/-- The step rule under an invariant and a guard.  Each guarded step from a
state with the invariant keeps it and satisfies `P`, so a guarded run satisfies
`P` throughout. -/
theorem along_of_guarded {I : σ → Prop} {G : σ → ℓ → σ → Prop}
    (hstep : ∀ s l t, step s l = some t → I s → G s l t → I t ∧ P s l t) :
    ∀ {s : σ} (ls : List ℓ), I s → Along step G s ls → Along step P s ls := by
  intro s ls
  induction ls generalizing s with
  | nil => exact fun _ _ => trivial
  | cons l ls ih =>
    intro hs hg
    cases h : step s l with
    | none => exact along_cons_none h ls
    | some t =>
      rw [along_cons h] at hg ⊢
      obtain ⟨ht, hp⟩ := hstep s l t h hs hg.1
      exact ⟨hp, ih ht hg.2⟩

theorem along_of_invariant {I : σ → Prop}
    (hstep : ∀ s l t, step s l = some t → I s → I t ∧ P s l t)
    {s : σ} (hs : I s) (ls : List ℓ) : Along step P s ls := by
  induction ls generalizing s with
  | nil => trivial
  | cons l ls ih =>
    cases h : step s l with
    | none => exact along_cons_none h ls
    | some t =>
      obtain ⟨ht, hp⟩ := hstep s l t h hs
      exact (along_cons h ls).mpr ⟨hp, ih ht⟩

/-- A guard that is exact at each step, and keeps the invariant there, is exact
along runs. -/
theorem along_iff {I : σ → Prop} {G : σ → ℓ → σ → Prop}
    (hiff : ∀ s l t, step s l = some t → I s → (G s l t ↔ P s l t))
    (hinv : ∀ s l t, step s l = some t → I s → G s l t → I t) :
    ∀ {s : σ} (ls : List ℓ), I s → (Along step G s ls ↔ Along step P s ls) := by
  intro s ls
  induction ls generalizing s with
  | nil => exact fun _ => Iff.rfl
  | cons l ls ih =>
    intro hs
    cases h : step s l with
    | none => exact ⟨fun _ => along_cons_none h ls, fun _ => along_cons_none h ls⟩
    | some t =>
      rw [along_cons h, along_cons h, hiff s l t h hs]
      refine and_congr_right fun hp => ih ?_
      exact hinv s l t h hs ((hiff s l t h hs).mpr hp)

end

/-! ## A run that keeps its past -/

section

variable {α : Type} {step : σ → ℓ → Option σ} {P : σ → ℓ → σ → Prop}

/-- Each step beside what was seen of the state before it, the newest first. -/
def recorded (see : σ → α) (step : σ → ℓ → Option σ) (a : σ × List (ℓ × α)) (l : ℓ) :
    Option (σ × List (ℓ × α)) :=
  (step a.1 l).map fun t => (t, (l, see a.1) :: a.2)

/-- The past takes no part in the run. -/
theorem along_recorded (see : σ → α) (s : σ) (past : List (ℓ × α)) (ls : List ℓ) :
    Along (recorded see step) (fun a l b => P a.1 l b.1) (s, past) ls ↔ Along step P s ls := by
  induction ls generalizing s past with
  | nil => exact Iff.rfl
  | cons l ls ih =>
    cases h : step s l with
    | none =>
      have hrecorded : recorded see step (s, past) l = none := by rw [recorded, h, Option.map_none]
      exact iff_of_true (along_cons_none hrecorded ls) (along_cons_none h ls)
    | some t =>
      have hrecorded : recorded see step (s, past) l = some (t, (l, see s) :: past) := by
        rw [recorded, h, Option.map_some]
      rw [along_cons hrecorded, along_cons h]
      exact and_congr_right fun _ => ih t _

end

/-! ## What a run puts out -/

section

variable {ω : Type} {step : σ → ℓ → Option σ}

/-- What each step puts out, from the state that it leaves, along a run. -/
def outputs (step : σ → ℓ → Option σ) (out : σ → ℓ → List ω) : σ → List ℓ → List ω
  | _, [] => []
  | s, l :: ls => out s l ++ match step s l with
    | none => []
    | some t => outputs step out t ls

theorem outputs_cons (out : σ → ℓ → List ω) {s t : σ} {l : ℓ} (h : step s l = some t)
    (ls : List ℓ) : outputs step out s (l :: ls) = out s l ++ outputs step out t ls := by
  rw [outputs, h]

theorem outputs_concat (out : σ → ℓ → List ω) {s t u : σ} {ls : List ℓ} {l : ℓ}
    (h : exec step s ls = some t) (hl : step t l = some u) :
    outputs step out s (ls ++ [l]) = outputs step out s ls ++ out t l := by
  induction ls generalizing s with
  | nil =>
    cases h
    rw [List.nil_append, outputs_cons out hl]
    simp only [outputs, List.append_nil, List.nil_append]
  | cons k ls ih =>
    obtain ⟨v, hv, hrest⟩ := Option.bind_eq_some_iff.mp h
    rw [List.cons_append, outputs_cons out hv, outputs_cons out hv, ih hrest, List.append_assoc]

end

/-! ## A view of a run

A view keeps part of a state, and a label is translated to one of a smaller system or
does not show in the view. -/

section

variable {τ κ : Type} {step : σ → ℓ → Option σ} {view : σ → τ}

theorem exec_view {step' : τ → κ → Option τ} {label : ℓ → Option κ}
    (hsome : ∀ s l t k, step s l = some t → label l = some k → step' (view s) k = some (view t))
    (hnone : ∀ s l t, step s l = some t → label l = none → view t = view s)
    {s t : σ} {ls : List ℓ} (h : exec step s ls = some t) :
    exec step' (view s) (ls.filterMap label) = some (view t) := by
  induction ls generalizing s with
  | nil =>
    cases h
    rfl
  | cons l ls ih =>
    obtain ⟨u, hu, hrest⟩ := Option.bind_eq_some_iff.mp h
    cases hl : label l with
    | none =>
      rw [List.filterMap_cons_none hl, ← hnone s l u hu hl]
      exact ih hrest
    | some k =>
      rw [List.filterMap_cons_some hl, exec_cons (hsome s l u k hu hl)]
      exact ih hrest

/-- A run without the labels that do not show is a run too, with the same view. -/
theorem exec_filter {keep : ℓ → Bool}
    (hkept : ∀ s l t s', step s l = some t → keep l = true → view s' = view s →
      ∃ t', step s' l = some t' ∧ view t' = view t)
    (hdropped : ∀ s l t, step s l = some t → keep l = false → view t = view s)
    {s t s' : σ} {ls : List ℓ} (h : exec step s ls = some t) (hs : view s' = view s) :
    ∃ t', exec step s' (ls.filter keep) = some t' ∧ view t' = view t := by
  induction ls generalizing s s' with
  | nil =>
    cases h
    exact ⟨s', rfl, hs⟩
  | cons l ls ih =>
    obtain ⟨u, hu, hrest⟩ := Option.bind_eq_some_iff.mp h
    cases hl : keep l with
    | false =>
      rw [List.filter_cons_of_neg (Bool.eq_false_iff.mp hl)]
      exact ih hrest (hs.trans (hdropped s l u hu hl).symm)
    | true =>
      obtain ⟨u', hu', hview⟩ := hkept s l u s' hu hl hs
      rw [List.filter_cons_of_pos hl, exec_cons hu']
      exact ih hrest hview

end

/-! ## Two runs in step -/

theorem rel_imp {α β : Type} {R S : α → β → Prop} (h : ∀ a b, R a b → S a b) {x : Option α}
    {y : Option β} (hxy : Option.Rel R x y) : Option.Rel S x y := by
  cases hxy with
  | some hab => exact .some (h _ _ hab)
  | none => exact .none

/-- Related states stay related when they take related labels, and are enabled
together. -/
theorem exec_rel {τ κ : Type} {step : σ → ℓ → Option σ} {step' : τ → κ → Option τ}
    {R : σ → τ → Prop} {S : ℓ → κ → Prop}
    (h : ∀ s t l k, R s t → S l k → Option.Rel R (step s l) (step' t k)) :
    ∀ {ls : List ℓ} {ks : List κ} {s : σ} {t : τ}, List.Forall₂ S ls ks → R s t →
      Option.Rel R (exec step s ls) (exec step' t ks) := by
  intro ls ks s t hlabels
  induction hlabels generalizing s t with
  | nil => exact Option.Rel.some
  | cons hl _ ih =>
    rename_i l k ls ks _
    intro hst
    show Option.Rel R ((step s l).bind fun s' => exec step s' ls)
      ((step' t k).bind fun t' => exec step' t' ks)
    have hnext := h s t l k hst hl
    generalize step s l = next at hnext ⊢
    generalize step' t k = next' at hnext ⊢
    cases hnext with
    | some hrel => exact ih hrel
    | none => exact Option.Rel.none

end Transition
end Konstantin
