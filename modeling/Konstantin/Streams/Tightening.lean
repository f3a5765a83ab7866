import Mathlib.Data.List.Induction
import Mathlib.Order.Lattice

/-!
# Announcing a value once it tightens

A stream of observations, each with a key and perhaps a value.  A block is a
maximal run of equal keys.  The announcer remembers the last key and the least
value announced under it, and announces a value that is below what it remembers.

`announces_iff` is what this comes to: a value is announced exactly when it is
below every value announced earlier in its block.
-/

namespace Konstantin
namespace Streams

/-- The last key, and the least value announced in its block. -/
structure Tightest (κ ν : Type) where
  key : Option κ
  least : Option ν

namespace Tightest

variable {κ ν : Type} [DecidableEq κ] [LinearOrder ν]

def empty : Tightest κ ν := ⟨none, none⟩

/-- What was announced in the block that an observation with key `k` belongs to. -/
def armed (t : Tightest κ ν) (k : κ) : Option ν := if t.key = some k then t.least else none

def observe (t : Tightest κ ν) (o : κ × Option ν) : Tightest κ ν × Option ν :=
  match o.2, t.armed o.1 with
  | none, least => (⟨some o.1, least⟩, none)
  | some v, none => (⟨some o.1, some v⟩, some v)
  | some v, some least =>
    if v < least then (⟨some o.1, some v⟩, some v) else (⟨some o.1, some least⟩, none)

def after (past : List (κ × Option ν)) : Tightest κ ν :=
  past.foldl (fun t o => (t.observe o).1) empty

/-- The answer to `o` once `past` was observed. -/
def announces (past : List (κ × Option ν)) (o : κ × Option ν) : Option ν :=
  ((after past).observe o).2

/-- `v` was announced in the block of the key `k` that `past` ends with. -/
def Announced (k : κ) (past : List (κ × Option ν)) (v : ν) : Prop :=
  ∃ before o later, past = before ++ o :: later ∧ (∀ q ∈ o :: later, q.1 = k) ∧
    announces before o = some v

theorem after_concat (past : List (κ × Option ν)) (o : κ × Option ν) :
    after (past ++ [o]) = ((after past).observe o).1 := by
  rw [after, List.foldl_append]
  rfl

theorem announced_nil (k : κ) (v : ν) : ¬ Announced k [] v := by
  intro h
  obtain ⟨before, o, later, h, -⟩ := h
  simp at h

theorem announced_concat {k : κ} {past : List (κ × Option ν)} {o : κ × Option ν} {v : ν} :
    Announced k (past ++ [o]) v ↔ o.1 = k ∧ (announces past o = some v ∨ Announced k past v) := by
  constructor
  · intro h
    obtain ⟨before, p, later, h, hkey, hv⟩ := h
    rcases List.eq_nil_or_concat later with rfl | ⟨later, q, rfl⟩
    · obtain ⟨rfl, hop⟩ := List.append_inj' h rfl
      cases hop
      exact ⟨hkey o List.mem_cons_self, Or.inl hv⟩
    · rw [List.concat_eq_append, ← List.cons_append, ← List.append_assoc] at h
      obtain ⟨rfl, hoq⟩ := List.append_inj' h rfl
      cases hoq
      rw [List.concat_eq_append] at hkey
      refine ⟨hkey o (by simp), Or.inr ⟨before, p, later, rfl, fun r hr => hkey r ?_, hv⟩⟩
      rw [← List.cons_append]
      exact List.mem_append_left [o] hr
  · rintro ⟨hkey, hv | ⟨before, p, later, rfl, hkeys, hv⟩⟩
    · refine ⟨past, o, [], rfl, fun q hq => ?_, hv⟩
      rw [List.mem_singleton.mp hq]
      exact hkey
    · refine ⟨before, p, later ++ [o], by rw [List.append_assoc, List.cons_append],
        fun q hq => ?_, hv⟩
      rw [← List.cons_append] at hq
      rcases List.mem_append.mp hq with hq | hq
      · exact hkeys q hq
      · rw [List.mem_singleton.mp hq]
        exact hkey

theorem key_observe (t : Tightest κ ν) (o : κ × Option ν) : (t.observe o).1.key = some o.1 := by
  unfold observe
  split
  · rfl
  · rfl
  · split <;> rfl

theorem armed_observe (t : Tightest κ ν) (o : κ × Option ν) (k : κ) :
    (t.observe o).1.armed k = if o.1 = k then (t.observe o).2.or (t.armed k) else none := by
  rw [armed, key_observe]
  by_cases hk : o.1 = k
  · subst hk
    rw [if_pos rfl, if_pos rfl]
    unfold observe
    split
    · rfl
    · rfl
    · rename_i u least h harmed
      split
      · rfl
      · exact harmed.symm
  · rw [if_neg hk, if_neg fun h => hk (Option.some.inj h)]

theorem observe_eq_some {t : Tightest κ ν} {o : κ × Option ν} {v : ν} :
    (t.observe o).2 = some v ↔ o.2 = some v ∧ ∀ w, t.armed o.1 = some w → v < w := by
  unfold observe
  split
  · rename_i h
    simp [h]
  · rename_i u h harmed
    simp [h, harmed]
  · rename_i u least h harmed
    by_cases hlt : u < least
    · rw [if_pos hlt, h, harmed]
      constructor
      · intro hu
        refine ⟨hu, fun w hw => ?_⟩
        rw [← Option.some.inj hu, ← Option.some.inj hw]
        exact hlt
      · intro hv
        exact hv.1
    · rw [if_neg hlt, h, harmed]
      refine ⟨fun hu => (by cases hu), fun hv => ?_⟩
      have hless := hv.2 least rfl
      rw [← Option.some.inj hv.1] at hless
      exact absurd hless hlt

/-- The announcer remembers the least value announced in the last block. -/
theorem armed_after (past : List (κ × Option ν)) (k : κ) :
    (∀ v, (after past).armed k = some v → Announced k past v) ∧
      ∀ v, Announced k past v → ∃ w, w ≤ v ∧ (after past).armed k = some w := by
  induction past using List.reverseRecOn with
  | nil =>
    constructor
    · intro v h
      cases h
    · exact fun v h => absurd h (announced_nil k v)
  | append_singleton past o ih =>
    rw [after_concat, armed_observe]
    by_cases hk : o.1 = k
    · rw [if_pos hk]
      cases hnew : ((after past).observe o).2 with
      | none =>
        rw [Option.none_or]
        refine ⟨fun v h => announced_concat.mpr ⟨hk, Or.inr (ih.1 v h)⟩, fun v h => ?_⟩
        rcases (announced_concat.mp h).2 with hv | hv
        · rw [announces, hnew] at hv
          cases hv
        · exact ih.2 v hv
      | some u =>
        rw [Option.some_or]
        refine ⟨fun v h => announced_concat.mpr ⟨hk, Or.inl (hnew.trans h)⟩, fun v h => ?_⟩
        rcases (announced_concat.mp h).2 with hv | hv
        · rw [announces, hnew] at hv
          exact ⟨u, le_of_eq (Option.some.inj hv), rfl⟩
        · obtain ⟨w, hle, hw⟩ := ih.2 v hv
          rw [← hk] at hw
          exact ⟨u, le_of_lt (lt_of_lt_of_le ((observe_eq_some.mp hnew).2 w hw) hle), rfl⟩
    · rw [if_neg hk]
      constructor
      · intro v h
        cases h
      · exact fun v h => absurd (announced_concat.mp h).1 hk

theorem announces_iff {past : List (κ × Option ν)} {o : κ × Option ν} {v : ν} :
    announces past o = some v ↔ o.2 = some v ∧ ∀ w, Announced o.1 past w → v < w := by
  rw [announces, observe_eq_some]
  refine and_congr_right fun _ => ⟨fun h w hw => ?_, fun h w hw => ?_⟩
  · obtain ⟨u, hle, hu⟩ := (armed_after past o.1).2 w hw
    exact lt_of_lt_of_le (h u hu) hle
  · exact h w ((armed_after past o.1).1 w hw)

/-- A value that is not announced was met in its block already, by itself or by a
smaller one. -/
theorem announced_of_silent {past : List (κ × Option ν)} {o : κ × Option ν} {v : ν}
    (ho : o.2 = some v) (h : announces past o = none) :
    ∃ w, w ≤ v ∧ Announced o.1 past w := by
  by_contra hall
  have hv : announces past o = some v := by
    refine announces_iff.mpr ⟨ho, fun w hw => lt_of_not_ge fun hle => hall ⟨w, hle, hw⟩⟩
  rw [h] at hv
  cases hv

/-! ## Keys that stand for periods -/

variable {α π : Type} [LinearOrder π]

/-- The periods come in order, and each has one key of its own. -/
structure Periodic (period : α → π) (obs : α → κ × Option ν) (xs : List α) : Prop where
  sorted : xs.Pairwise fun x y => period x ≤ period y
  key : ∀ x ∈ xs, ∀ y ∈ xs, (obs x).1 = (obs y).1 ↔ period x = period y

/-- The block that `x` continues is what there was of its period. -/
theorem Periodic.announced_iff {period : α → π} {obs : α → κ × Option ν} {past : List α} {x : α}
    (h : Periodic period obs (past ++ [x])) {v : ν} :
    Announced (obs x).1 (past.map obs) v ↔
      ∃ before y later, past = before ++ y :: later ∧ period y = period x ∧
        announces (before.map obs) (obs y) = some v := by
  have hx : x ∈ past ++ [x] := by simp
  constructor
  · intro h
    obtain ⟨before, o, later, hpast, hkeys, hv⟩ := h
    obtain ⟨first, rest, rfl, rfl, hrest⟩ := List.map_eq_append_iff.mp hpast
    obtain ⟨y, later', rfl, rfl, rfl⟩ := List.map_eq_cons_iff.mp hrest
    refine ⟨first, y, later', rfl, ?_, hv⟩
    exact (h.key y (by simp) x hx).mp (hkeys (obs y) List.mem_cons_self)
  · intro h
    obtain ⟨before, y, later, rfl, hperiod, hv⟩ := h
    refine ⟨before.map obs, obs y, later.map obs, by simp, fun q hq => ?_, hv⟩
    rw [← List.map_cons] at hq
    obtain ⟨r, hr, rfl⟩ := List.mem_map.mp hq
    have hmem : r ∈ before ++ y :: later := List.mem_append_right before hr
    have hupper : period r ≤ period x :=
      (List.pairwise_append.mp h.sorted).2.2 r hmem x List.mem_cons_self
    have hlower : period y ≤ period r := by
      have hblock := (List.pairwise_append.mp (List.pairwise_append.mp h.sorted).1).2.1
      rcases List.mem_cons.mp hr with rfl | hlater
      · exact le_refl (period r)
      · exact (List.pairwise_cons.mp hblock).1 r hlater
    have hsame : period r = period x := le_antisymm hupper (hperiod ▸ hlower)
    exact (h.key r (List.mem_append_left [x] hmem) x hx).mpr hsame

end Tightest

end Streams
end Konstantin
