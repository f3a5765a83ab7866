import Konstantin.Daemon.Status
import Konstantin.Streams.Tightening
import Mathlib.Data.List.Destutter
import Mathlib.Data.List.Sort
import Mathlib.Order.Bounds.Basic

/-!
# Which warning to announce

`NotifTracker` of `crates/tray/src/notifications.rs`.  `evaluate` is the code; the
law of what it announces over a stream of statuses comes from
`Konstantin.Streams.Tightening`, with `resets_at` for the key and the smallest
threshold that was crossed for the value.
-/

namespace Konstantin
namespace Tray

open Daemon Streams

structure NotifTracker where
  lastResetsAt : Option Int
  firedAtOrBelow : Option UInt32
  deriving DecidableEq

/-- `u32::try_from` of a signed number. -/
def u32TryFrom (i : Int) : Option UInt32 :=
  if 0 ≤ i ∧ i < 2 ^ 32 then some (UInt32.ofNat i.toNat) else none

/-- The thresholds in seconds, ascending and without repetitions. -/
def thresholdsSec (minutes : List UInt32) : List UInt32 :=
  (((minutes.map fun m => saturatingMul m 60).filter (0 < ·)).insertionSort (· ≤ ·)).destutter
    (· ≠ ·)

namespace NotifTracker

def new : NotifTracker := ⟨none, none⟩

/-- Day rollover: another `resets_at` re-arms. -/
def rollover (t : NotifTracker) (resetsAt : Int) : NotifTracker :=
  if t.lastResetsAt ≠ some resetsAt then ⟨some resetsAt, none⟩ else t

def evaluate (t : NotifTracker) (status : UserStatus) : NotifTracker × Option UInt32 :=
  let t := t.rollover status.resetsAt
  if status.state ≠ .active then (t, none)
  else
    match u32TryFrom status.remainingSeconds with
    | none => (t, none)
    | some remaining =>
      let candidate := (thresholdsSec status.warnThresholdsMinutes).find? (remaining ≤ ·)
      match candidate, t.firedAtOrBelow with
      | none, _ => (t, none)
      | some s, none => ({ t with firedAtOrBelow := some s }, some (s / 60))
      | some s, some prev =>
        if s < prev then ({ t with firedAtOrBelow := some s }, some (s / 60)) else (t, none)

/-- The tracker once it was fed a stream. -/
def after (past : List UserStatus) : NotifTracker :=
  past.foldl (fun t status => (t.evaluate status).1) new

/-- What is announced at `status` once `past` was fed. -/
def announces (past : List UserStatus) (status : UserStatus) : Option UInt32 :=
  ((after past).evaluate status).2

end NotifTracker

/-- A threshold of `minutes` that the remaining time has crossed, in seconds. -/
def Crossed (minutes : List UInt32) (remaining : Int) (t : Nat) : Prop :=
  (∃ m ∈ minutes, t = min (60 * m.toNat) (2 ^ 32 - 1)) ∧ 0 < t ∧ remaining ≤ t

/-- The status warns, and `t` is the least threshold it has crossed. -/
def Warns (status : UserStatus) (t : Nat) : Prop :=
  status.state = .active ∧ 0 ≤ status.remainingSeconds ∧ status.remainingSeconds < 2 ^ 32 ∧
    IsLeast {t | Crossed status.warnThresholdsMinutes status.remainingSeconds t} t

/-! ## The threshold that is found -/

theorem mem_destutter'_ne {α : Type} [DecidableEq α] (l : List α) (a b : α) :
    a ∈ l.destutter' (· ≠ ·) b ↔ a ∈ b :: l := by
  induction l generalizing b with
  | nil => simp [List.destutter'_nil]
  | cons c l ih =>
    rw [List.destutter'_cons]
    by_cases h : b ≠ c
    · rw [if_pos h, List.mem_cons, ih, List.mem_cons (b := b)]
    · rw [if_neg h, ih]
      have hbc : b = c := not_not.mp h
      rw [hbc]
      simp

theorem mem_destutter_ne {α : Type} [DecidableEq α] (l : List α) (a : α) :
    a ∈ l.destutter (· ≠ ·) ↔ a ∈ l := by
  cases l with
  | nil => rfl
  | cons b l => exact mem_destutter'_ne l a b

theorem mem_thresholdsSec {minutes : List UInt32} {t : UInt32} :
    t ∈ thresholdsSec minutes ↔ (∃ m ∈ minutes, saturatingMul m 60 = t) ∧ 0 < t := by
  rw [thresholdsSec, mem_destutter_ne, List.mem_insertionSort, List.mem_filter, List.mem_map,
    decide_eq_true_eq]

theorem sorted_thresholdsSec (minutes : List UInt32) :
    (thresholdsSec minutes).Pairwise (· ≤ ·) := by
  have htotal : Std.Total (α := UInt32) (· ≤ ·) := ⟨fun a b => UInt32.le_total a b⟩
  have htrans : IsTrans UInt32 (· ≤ ·) := ⟨fun a b c => UInt32.le_trans⟩
  exact (List.pairwise_insertionSort (· ≤ ·) _).sublist (List.destutter_sublist _ _)

/-- The first element of an ascending list that satisfies `p` is the least. -/
theorem find?_sorted {l : List UInt32} (hl : l.Pairwise (· ≤ ·)) {p : UInt32 → Bool} {t : UInt32} :
    l.find? p = some t ↔ t ∈ l ∧ p t = true ∧ ∀ u ∈ l, p u = true → t ≤ u := by
  induction l with
  | nil => simp
  | cons a l ih =>
    rw [List.pairwise_cons] at hl
    rw [List.find?_cons]
    cases hp : p a with
    | true =>
      simp only [Option.some.injEq]
      constructor
      · rintro rfl
        refine ⟨List.mem_cons_self, hp, fun u hu _ => ?_⟩
        rcases List.mem_cons.mp hu with rfl | hu
        · exact UInt32.le_refl u
        · exact hl.1 u hu
      · intro h
        obtain ⟨hmem, -, hleast⟩ := h
        rcases List.mem_cons.mp hmem with rfl | hmem
        · rfl
        · exact UInt32.le_antisymm (hl.1 t hmem) (hleast a List.mem_cons_self hp)
    | false =>
      simp only [ih hl.2]
      constructor
      · intro h
        obtain ⟨hmem, ht, hleast⟩ := h
        refine ⟨List.mem_cons_of_mem a hmem, ht, fun u hu hpu => ?_⟩
        rcases List.mem_cons.mp hu with rfl | hu
        · rw [hp] at hpu
          cases hpu
        · exact hleast u hu hpu
      · intro h
        obtain ⟨hmem, ht, hleast⟩ := h
        rcases List.mem_cons.mp hmem with rfl | hmem
        · rw [hp] at ht
          cases ht
        · exact ⟨hmem, ht, fun u hu => hleast u (List.mem_cons_of_mem a hu)⟩

theorem u32TryFrom_eq_some {i : Int} {n : UInt32} :
    u32TryFrom i = some n ↔ 0 ≤ i ∧ i < 2 ^ 32 ∧ (n.toNat : Int) = i := by
  have hn := n.toNat_lt
  unfold u32TryFrom
  by_cases h : 0 ≤ i ∧ i < 2 ^ 32
  · rw [if_pos h, Option.some.injEq]
    have hto : (UInt32.ofNat i.toNat).toNat = i.toNat := by
      rw [UInt32.toNat_ofNat']
      exact Nat.mod_eq_of_lt (by omega)
    constructor
    · intro heq
      rw [← heq, hto]
      omega
    · intro heq
      refine UInt32.toNat_inj.mp ?_
      rw [hto]
      omega
  · rw [if_neg h]
    constructor
    · intro hnone
      cases hnone
    · intro hn
      exact absurd ⟨hn.1, hn.2.1⟩ h

/-- The threshold `evaluate` looks at, whatever was announced before. -/
def candidate (status : UserStatus) : Option UInt32 :=
  if status.state ≠ .active then none
  else
    (u32TryFrom status.remainingSeconds).bind fun remaining =>
      (thresholdsSec status.warnThresholdsMinutes).find? (remaining ≤ ·)

theorem crossed_iff {minutes : List UInt32} {remaining t : UInt32} :
    Crossed minutes remaining.toNat t.toNat ↔ t ∈ thresholdsSec minutes ∧ remaining ≤ t := by
  rw [mem_thresholdsSec, Crossed, and_assoc, UInt32.le_iff_toNat_le, UInt32.lt_iff_toNat_lt]
  have hmul : ∀ m : UInt32, t.toNat = min (60 * m.toNat) (2 ^ 32 - 1) ↔ saturatingMul m 60 = t := by
    intro m
    rw [← UInt32.toNat_inj, toNat_saturatingMul, Nat.mul_comm, eq_comm]
    rfl
  simp only [hmul, Int.ofNat_le, UInt32.toNat_zero]

/-- A crossed threshold is a `u32`. -/
theorem crossed_lt {minutes : List UInt32} {remaining : Int} {t : Nat}
    (h : Crossed minutes remaining t) : t < 2 ^ 32 := by
  obtain ⟨⟨m, -, rfl⟩, -⟩ := h
  omega

theorem candidate_iff {status : UserStatus} {t : Nat} :
    (candidate status).map UInt32.toNat = some t ↔ Warns status t := by
  unfold candidate Warns
  by_cases hactive : status.state = .active
  · rw [if_neg (not_not.mpr hactive)]
    cases hr : u32TryFrom status.remainingSeconds with
    | none =>
      simp only [Option.bind_none, Option.map_none, reduceCtorEq, false_iff]
      intro h
      obtain ⟨-, h₀, h₁, -⟩ := h
      rw [u32TryFrom, if_pos ⟨h₀, h₁⟩] at hr
      cases hr
    | some r =>
      obtain ⟨h₀, h₁, heq⟩ := u32TryFrom_eq_some.mp hr
      rw [Option.bind_some, Option.map_eq_some_iff, ← heq]
      simp only [find?_sorted (sorted_thresholdsSec _), decide_eq_true_eq]
      constructor
      · intro h
        obtain ⟨u, ⟨hmem, hle, hleast⟩, rfl⟩ := h
        refine ⟨hactive, by omega, by omega, crossed_iff.mpr ⟨hmem, hle⟩, fun v hv => ?_⟩
        have hlt := crossed_lt hv
        have hv' : v = (UInt32.ofNat v).toNat := by
          rw [UInt32.toNat_ofNat', Nat.mod_eq_of_lt hlt]
        rw [hv'] at hv ⊢
        have hc := crossed_iff.mp hv
        exact UInt32.le_iff_toNat_le.mp (hleast _ hc.1 hc.2)
      · intro h
        obtain ⟨-, -, -, hcrossed, hleast⟩ := h
        have hlt := crossed_lt hcrossed
        have ht : t = (UInt32.ofNat t).toNat := by
          rw [UInt32.toNat_ofNat', Nat.mod_eq_of_lt hlt]
        have hc := hcrossed
        rw [ht] at hc
        refine ⟨UInt32.ofNat t, ⟨(crossed_iff.mp hc).1, (crossed_iff.mp hc).2, ?_⟩, ht.symm⟩
        intro u hu hru
        rw [UInt32.le_iff_toNat_le, ← ht]
        exact hleast (crossed_iff.mpr ⟨hu, hru⟩)
  · rw [if_pos hactive]
    simp [hactive]

/-! ## The tracker is an announcer -/

def observation (status : UserStatus) : Int × Option Nat :=
  (status.resetsAt, (candidate status).map UInt32.toNat)

namespace NotifTracker

def view (t : NotifTracker) : Tightest Int Nat where
  key := t.lastResetsAt
  least := t.firedAtOrBelow.map UInt32.toNat

theorem rollover_view (t : NotifTracker) (resetsAt : Int) :
    (t.rollover resetsAt).lastResetsAt = some resetsAt ∧
      (t.rollover resetsAt).firedAtOrBelow.map UInt32.toNat = t.view.armed resetsAt := by
  unfold rollover Tightest.armed
  by_cases h : t.lastResetsAt = some resetsAt
  · rw [if_neg (not_not.mpr h)]
    exact ⟨h, (if_pos h).symm⟩
  · rw [if_pos h]
    exact ⟨rfl, (if_neg h).symm⟩

/-- The code, with its early returns brought together. -/
theorem evaluate_eq (t : NotifTracker) (status : UserStatus) :
    t.evaluate status =
      match candidate status, (t.rollover status.resetsAt).firedAtOrBelow with
      | none, _ => (t.rollover status.resetsAt, none)
      | some s, none =>
        ({ t.rollover status.resetsAt with firedAtOrBelow := some s }, some (s / 60))
      | some s, some prev =>
        if s < prev then
          ({ t.rollover status.resetsAt with firedAtOrBelow := some s }, some (s / 60))
        else (t.rollover status.resetsAt, none) := by
  unfold evaluate candidate
  by_cases hactive : status.state = .active
  · simp only [hactive, ne_eq, not_true_eq_false, if_false]
    cases u32TryFrom status.remainingSeconds <;> rfl
  · simp only [hactive, ne_eq, not_false_eq_true, if_true]

theorem evaluate_view (t : NotifTracker) (status : UserStatus) :
    (t.evaluate status).1.view = (t.view.observe (observation status)).1 ∧
      (t.evaluate status).2.map UInt32.toNat =
        (t.view.observe (observation status)).2.map (· / 60) := by
  obtain ⟨hkey, hleast⟩ := t.rollover_view status.resetsAt
  rw [evaluate_eq, Tightest.observe, observation, ← hleast]
  cases candidate status with
  | none =>
    simp only [Option.map_none, view, hkey]
    exact ⟨trivial, trivial⟩
  | some s =>
    cases hfired : (t.rollover status.resetsAt).firedAtOrBelow with
    | none =>
      simp [view, hkey, UInt32.toNat_div]
    | some prev =>
      by_cases hlt : s < prev
      · have hlt' : s.toNat < prev.toNat := UInt32.lt_iff_toNat_lt.mp hlt
        simp [hlt, hlt', view, hkey, UInt32.toNat_div]
      · have hlt' : ¬ s.toNat < prev.toNat := fun h => hlt (UInt32.lt_iff_toNat_lt.mpr h)
        simp [hlt, hlt', view, hkey, hfired]

theorem after_view (past : List UserStatus) :
    (after past).view = Tightest.after (past.map observation) := by
  induction past using List.reverseRecOn with
  | nil => rfl
  | append_singleton past status ih =>
    rw [List.map_append, List.map_singleton, Tightest.after_concat, ← ih, after,
      List.foldl_append]
    exact (evaluate_view (after past) status).1

theorem announces_view (past : List UserStatus) (status : UserStatus) :
    (announces past status).map UInt32.toNat =
      (Tightest.announces (past.map observation) (observation status)).map (· / 60) := by
  rw [announces, (evaluate_view _ _).2, after_view, Tightest.announces]

/-! ## The law of a stream -/

/-- `past` ends with a block of `resetsAt` in which the threshold `t` was announced. -/
def AnnouncedInBlock (resetsAt : Int) (past : List UserStatus) (t : Nat) : Prop :=
  ∃ before status later, past = before ++ status :: later ∧
    (∀ s ∈ status :: later, s.resetsAt = resetsAt) ∧ announces before status ≠ none ∧
      Warns status t

theorem announces_observation {past : List UserStatus} {status : UserStatus} {t : Nat} :
    Tightest.announces (past.map observation) (observation status) = some t ↔
      announces past status ≠ none ∧ Warns status t := by
  have hview := announces_view past status
  rw [← candidate_iff]
  constructor
  · intro h
    rw [h] at hview
    refine ⟨fun hnone => ?_, (Tightest.announces_iff.mp h).1⟩
    rw [hnone] at hview
    cases hview
  · intro h
    obtain ⟨hsome, ht⟩ := h
    cases h : Tightest.announces (past.map observation) (observation status) with
    | none =>
      rw [h, Option.map_none, Option.map_eq_none_iff] at hview
      exact absurd hview hsome
    | some u =>
      have hu := (Tightest.announces_iff.mp h).1
      rw [← ht, ← hu]
      rfl

theorem announcedInBlock_iff {resetsAt : Int} {past : List UserStatus} {t : Nat} :
    AnnouncedInBlock resetsAt past t ↔
      Tightest.Announced resetsAt (past.map observation) t := by
  constructor
  · intro h
    obtain ⟨before, status, later, rfl, hkeys, hsome, ht⟩ := h
    refine ⟨before.map observation, observation status, later.map observation, by simp, ?_,
      announces_observation.mpr ⟨hsome, ht⟩⟩
    intro q hq
    rw [← List.map_cons] at hq
    obtain ⟨s, hs, rfl⟩ := List.mem_map.mp hq
    exact hkeys s hs
  · intro h
    obtain ⟨before, o, later, h, hkeys, ht⟩ := h
    obtain ⟨first, rest, rfl, rfl, hrest⟩ := List.map_eq_append_iff.mp h
    obtain ⟨status, later', rfl, rfl, rfl⟩ := List.map_eq_cons_iff.mp hrest
    obtain ⟨hsome, hwarns⟩ := announces_observation.mp ht
    refine ⟨first, status, later', rfl, fun s hs => ?_, hsome, hwarns⟩
    refine hkeys (observation s) ?_
    rw [← List.map_cons]
    exact List.mem_map_of_mem hs

theorem announces_iff {past : List UserStatus} {status : UserStatus} {v : UInt32} :
    announces past status = some v ↔
      ∃ t, Warns status t ∧ (∀ u, AnnouncedInBlock status.resetsAt past u → t < u) ∧
        v.toNat = t / 60 := by
  have hview := announces_view past status
  simp only [← candidate_iff, announcedInBlock_iff]
  constructor
  · intro h
    rw [h, Option.map_some, eq_comm, Option.map_eq_some_iff] at hview
    obtain ⟨t, ht, hv⟩ := hview
    obtain ⟨hcandidate, hless⟩ := Tightest.announces_iff.mp ht
    exact ⟨t, hcandidate, hless, hv.symm⟩
  · intro h
    obtain ⟨t, hcandidate, hless, hv⟩ := h
    have ht : Tightest.announces (past.map observation) (observation status) = some t :=
      Tightest.announces_iff.mpr ⟨hcandidate, hless⟩
    rw [ht, Option.map_some, Option.map_eq_some_iff] at hview
    obtain ⟨w, hw, heq⟩ := hview
    have hwv : w = v := UInt32.toNat_inj.mp (heq.trans hv.symm)
    rw [hw, hwv]

/-- Of two thresholds of one block the later one is shown as fewer minutes, unless
the earlier one is `u32::MAX` seconds. -/
theorem minutes_lt {s s' : UserStatus} {t u : Nat} (ht : Warns s t) (hu : Warns s' u)
    (hlt : t < u) : t / 60 < u / 60 ∨ u = 2 ^ 32 - 1 ∧ t / 60 = 71582788 ∧ u / 60 = 71582788 := by
  obtain ⟨-, -, -, ⟨⟨m, -, hm⟩, -⟩, -⟩ := ht
  obtain ⟨-, -, -, ⟨⟨n, -, hn⟩, -⟩, -⟩ := hu
  omega

/-- The two statuses differ at most in the order and the repetition of their
thresholds. -/
def SameThresholds (s s' : UserStatus) : Prop :=
  s' = { s with warnThresholdsMinutes := s'.warnThresholdsMinutes } ∧
    ∀ m, m ∈ s.warnThresholdsMinutes ↔ m ∈ s'.warnThresholdsMinutes

theorem SameThresholds.observation_eq {s s' : UserStatus} (h : SameThresholds s s') :
    observation s = observation s' := by
  obtain ⟨heq, hmem⟩ := h
  have hwarns : ∀ t, Warns s t ↔ Warns s' t := by
    intro t
    rw [heq]
    simp only [Warns, Crossed, hmem]
  have hcandidate : (candidate s).map UInt32.toNat = (candidate s').map UInt32.toNat :=
    Option.ext fun t => by rw [candidate_iff, candidate_iff, hwarns]
  rw [observation, observation, hcandidate, heq]

theorem announces_congr {past past' : List UserStatus} {s s' : UserStatus}
    (hpast : List.Forall₂ SameThresholds past past') (hs : SameThresholds s s') :
    announces past s = announces past' s' := by
  have hmap : past.map observation = past'.map observation := by
    induction hpast with
    | nil => rfl
    | cons h _ ih => rw [List.map_cons, List.map_cons, h.observation_eq, ih]
  have hview := announces_view past s
  rw [hmap, hs.observation_eq, ← announces_view past' s'] at hview
  exact Option.map_injective (fun a b => UInt32.toNat_inj.mp) hview

theorem evaluate_inactive {t : NotifTracker} {status : UserStatus}
    (h : status.state ≠ .active) : t.evaluate status = (t.rollover status.resetsAt, none) := by
  simp only [evaluate, ne_eq, h, not_false_eq_true, if_true]

theorem evaluate_key (t : NotifTracker) (status : UserStatus) :
    (t.evaluate status).1.lastResetsAt = some status.resetsAt := by
  have hkey : (t.evaluate status).1.view.key = some status.resetsAt := by
    rw [(evaluate_view t status).1]
    exact Tightest.key_observe _ _
  exact hkey

theorem after_concat (past : List UserStatus) (status : UserStatus) :
    after (past ++ [status]) = ((after past).evaluate status).1 := by
  rw [after, List.foldl_append]
  rfl

theorem after_key (past : List UserStatus) :
    (after past).lastResetsAt = past.getLast?.map fun s => s.resetsAt := by
  induction past using List.reverseRecOn with
  | nil => rfl
  | append_singleton past status _ =>
    rw [after_concat, evaluate_key, List.getLast?_concat]
    rfl

theorem rollover_same {t : NotifTracker} {resetsAt : Int} (h : t.lastResetsAt = some resetsAt) :
    t.rollover resetsAt = t := if_neg (not_not.mpr h)

theorem rollover_rollover (t : NotifTracker) (resetsAt : Int) :
    (t.rollover resetsAt).rollover resetsAt = t.rollover resetsAt :=
  rollover_same (t.rollover_view resetsAt).1

theorem evaluate_rollover (t : NotifTracker) (status : UserStatus) :
    (t.rollover status.resetsAt).evaluate status = t.evaluate status := by
  rw [evaluate_eq, evaluate_eq, rollover_rollover]

/-- What is announced depends on the tracker that the stream so far leaves. -/
theorem announces_append (past later : List UserStatus) (s : UserStatus) :
    announces (past ++ later) s =
      (((later.foldl (fun t status => (t.evaluate status).1) (after past))).evaluate s).2 := by
  rw [announces, after, List.foldl_append]
  rfl

/-- A status in another state next to one of its own block could be left out. -/
theorem announces_without {past later : List UserStatus} {status s : UserStatus}
    (h : status.state ≠ .active)
    (hblock : (past.getLast?.map fun s => s.resetsAt) = some status.resetsAt ∨
      ((later ++ [s]).head?.map fun s => s.resetsAt) = some status.resetsAt) :
    announces (past ++ status :: later) s = announces (past ++ later) s := by
  rw [List.append_cons, announces_append (past ++ [status]), announces_append past, after_concat,
    evaluate_inactive h]
  rcases hblock with hlast | hhead
  · rw [rollover_same ((after_key past).trans hlast)]
  · cases later with
    | nil =>
      have hs : s.resetsAt = status.resetsAt := Option.some.inj hhead
      rw [List.foldl_nil, List.foldl_nil, ← hs, evaluate_rollover]
    | cons q later =>
      have hq : q.resetsAt = status.resetsAt := Option.some.inj hhead
      rw [List.foldl_cons, List.foldl_cons, ← hq, evaluate_rollover]

/-- What is announced after any stream of statuses. -/
theorem announces_tightens (past : List UserStatus) (status : UserStatus) :
    (∀ v, announces past status = some v ↔
        ∃ t, Warns status t ∧ (∀ u, AnnouncedInBlock status.resetsAt past u → t < u) ∧
          v.toNat = t / 60) ∧
      (∀ v, announces past status = some v →
        ∀ before s later w, past = before ++ s :: later →
          (∀ q ∈ s :: later, q.resetsAt = status.resetsAt) → announces before s = some w →
            v < w ∨ Warns s (2 ^ 32 - 1) ∧ v = 71582788 ∧ w = 71582788) ∧
      (status.state ≠ .active →
        announces past status = none ∧
          ∀ later s, (past.getLast?.map fun s => s.resetsAt) = some status.resetsAt ∨
              ((later ++ [s]).head?.map fun s => s.resetsAt) = some status.resetsAt →
            announces (past ++ status :: later) s = announces (past ++ later) s) ∧
      (∀ past' status', List.Forall₂ SameThresholds past past' → SameThresholds status status' →
        announces past status = announces past' status') := by
  refine ⟨fun v => announces_iff, ?_, ?_, fun past' status' => announces_congr⟩
  · intro v hv before s later w hpast hkeys hw
    obtain ⟨t, ht, hless, hvt⟩ := announces_iff.mp hv
    obtain ⟨u, hu, -, hwu⟩ := announces_iff.mp hw
    have hsome : announces before s ≠ none := by
      rw [hw]
      exact Option.some_ne_none w
    have hlt := hless u ⟨before, s, later, hpast, hkeys, hsome, hu⟩
    rcases minutes_lt ht hu hlt with hmin | ⟨rfl, hvmax, hwmax⟩
    · refine Or.inl (UInt32.lt_iff_toNat_lt.mpr ?_)
      rw [hvt, hwu]
      exact hmin
    · refine Or.inr ⟨hu, UInt32.toNat_inj.mp ?_, UInt32.toNat_inj.mp ?_⟩
      · exact hvt.trans hvmax
      · exact hwu.trans hwmax
  · intro hstate
    refine ⟨?_, fun later s => announces_without hstate⟩
    rw [announces, evaluate_inactive hstate]

/-- A status of one day with an hour's limit. -/
def ofDay (state : SessionState) (remaining : Int) (minutes : List UInt32) : UserStatus where
  uid := 501
  username := "alice"
  state := state
  dailyLimitSeconds := 3600
  usedSeconds := UInt32.ofNat (3600 - remaining).toNat
  remainingSeconds := remaining
  resetsAt := 0
  warnThresholdsMinutes := minutes

theorem announces_tightens_day :
    (∃ t, Warns (ofDay .active 300 [15, 5, 1]) t ∧
        (∀ u, AnnouncedInBlock 0 [ofDay .active 900 [15, 5, 1]] u → t < u) ∧
          (5 : UInt32).toNat = t / 60) ∧
      ((5 : UInt32) < 15 ∨
        Warns (ofDay .active 900 [15, 5, 1]) (2 ^ 32 - 1) ∧ (5 : UInt32) = 71582788 ∧
          (15 : UInt32) = 71582788) ∧
      (announces [ofDay .active 900 [15, 5, 1]] (ofDay .offline 900 []) = none ∧
        announces ([ofDay .active 900 [15, 5, 1]] ++ [ofDay .offline 900 []])
            (ofDay .active 300 [15, 5, 1]) =
          announces ([ofDay .active 900 [15, 5, 1]] ++ []) (ofDay .active 300 [15, 5, 1])) ∧
      announces [ofDay .active 900 [15, 5, 1]] (ofDay .active 300 [15, 5, 1]) =
        announces [ofDay .active 900 [5, 1, 15, 15]] (ofDay .active 300 [1, 1, 5, 15]) := by
  have hpast : ∀ m : UInt32, m ∈ [15, 5, 1] ↔ m ∈ [5, 1, 15, 15] := by grind
  have hnow : ∀ m : UInt32, m ∈ [15, 5, 1] ↔ m ∈ [1, 1, 5, 15] := by grind
  have hfirst : announces [] (ofDay .active 900 [15, 5, 1]) = some 15 := by decide +kernel
  have hsecond : announces [ofDay .active 900 [15, 5, 1]] (ofDay .active 300 [15, 5, 1]) =
      some 5 := by decide +kernel
  have hsame : ∀ remaining minutes, (∀ m, m ∈ [15, 5, 1] ↔ m ∈ minutes) →
      SameThresholds (ofDay .active remaining [15, 5, 1]) (ofDay .active remaining minutes) :=
    fun remaining minutes hmem => ⟨rfl, hmem⟩
  obtain ⟨hlaw, hless, -, hlists⟩ :=
    announces_tightens [ofDay .active 900 [15, 5, 1]] (ofDay .active 300 [15, 5, 1])
  obtain ⟨-, -, hsilent, -⟩ :=
    announces_tightens [ofDay .active 900 [15, 5, 1]] (ofDay .offline 900 [])
  refine ⟨(hlaw 5).mp hsecond, ?_, ?_, ?_⟩
  · exact hless 5 hsecond [] _ [] 15 rfl (by simp [ofDay]) hfirst
  · obtain ⟨hnone, hwithout⟩ := hsilent SessionState.noConfusion
    exact ⟨hnone, hwithout [] _ (Or.inl rfl)⟩
  · exact hlists _ _ (.cons (hsame 900 _ hpast) .nil) (hsame 300 _ hnow)

/-- An active user of one day, with two thresholds of about 136 years. -/
def longWarning (remaining : Int) : UserStatus where
  uid := 501
  username := "alice"
  state := .active
  dailyLimitSeconds := 4294967295
  usedSeconds := UInt32.ofNat (4294967295 - remaining).toNat
  remainingSeconds := remaining
  resetsAt := 0
  warnThresholdsMinutes := [71582788, 71582789]

/-- The saturated threshold and the one below it are announced as the same number
of minutes. -/
theorem announces_repeats :
    ¬ ∀ past status v, announces past status = some v →
      ∀ before s later w, past = before ++ s :: later →
        (∀ q ∈ s :: later, q.resetsAt = status.resetsAt) → announces before s = some w →
          v < w := by
  intro h
  have hlast : announces [longWarning 4294967290] (longWarning 60) = some 71582788 := by
    decide +kernel
  have hfirst : announces [] (longWarning 4294967290) = some 71582788 := by decide +kernel
  have hlt := h _ _ _ hlast [] _ [] _ rfl (by simp [longWarning]) hfirst
  exact absurd hlt (by decide)

end NotifTracker

end Tray
end Konstantin
