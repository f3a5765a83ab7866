import Konstantin.Tray.Notifications

/-!
# The warnings of a day

The statuses that the tray evaluated, each with the local date of that moment.
When every `resets_at` is the instant that ends its date, and the dates come in
order, the tracker's blocks are the dates, and what it promises for a block it
keeps for each date.
-/

namespace Konstantin
namespace Tray

open Calendar Daemon Streams

/-- A status that was evaluated: on which date, what the user had left of that
date then, and what was announced. -/
structure Evaluation where
  date : NaiveDate
  status : UserStatus
  remaining : Int
  announced : Option UInt32
  deriving DecidableEq

/-- The least of the thresholds that the remaining time is not above. -/
def LeastCrossed (minutes : List UInt32) (remaining : Int) (m : UInt32) : Prop :=
  m ∈ minutes ∧ remaining ≤ 60 * (m.toNat : Int) ∧
    ∀ k ∈ minutes, remaining ≤ 60 * (k.toNat : Int) → m ≤ k

/-- What is announced during one date goes down. -/
def Decreasing (es : List Evaluation) : Prop :=
  es.Pairwise fun e f => e.date = f.date →
    ∀ m n, e.announced = some m → f.announced = some n → n < m

/-- The user has no more left than what is announced. -/
def InTime (es : List Evaluation) : Prop :=
  ∀ e ∈ es, ∀ m, e.announced = some m → e.remaining ≤ 60 * (m.toNat : Int)

/-- Once the least threshold crossed is seen, it or a smaller one was announced on
that date. -/
def Covered (minutes : List UInt32) (es : List Evaluation) : Prop :=
  ∀ before e later, es = before ++ e :: later → e.status.state = .active →
    0 ≤ e.status.remainingSeconds →
      ∀ m, LeastCrossed minutes e.status.remainingSeconds m →
        ∃ f ∈ before ++ [e], f.date = e.date ∧ ∃ n ≤ m, f.announced = some n

/-- A status that shows its date: it resets at the end of it, and the user has no more
left than it says.  A larger remainder could be told by the saturated threshold only. -/
structure Evaluation.Faithful (c : Local) (minutes : List UInt32) (e : Evaluation) : Prop where
  shown : ∃ clock, c.zone.localDate clock = e.date
  resetsAt : Ends c e.date e.status.resetsAt
  thresholds : e.status.warnThresholdsMinutes = minutes
  remaining : e.remaining ≤ e.status.remainingSeconds
  active : e.status.state = .active →
    0 < e.status.remainingSeconds ∧ e.status.remainingSeconds ≤ 60 * 71582788

def Evaluation.obs (e : Evaluation) : Int × Option Nat := observation e.status

/-- The statuses of a tracker that was fed them in the order of their dates. -/
structure Dated (c : Local) (minutes : List UInt32) (es : List Evaluation) : Prop where
  sorted : es.Pairwise fun e f => e.date ≤ f.date
  faithful : ∀ e ∈ es, e.Faithful c minutes
  announced : ∀ before e later, es = before ++ e :: later →
    e.announced = NotifTracker.announces (before.map Evaluation.status) e.status

namespace Dated

variable {c : Local} {minutes : List UInt32} {es : List Evaluation} {e : Evaluation}

theorem nil (c : Local) (minutes : List UInt32) : Dated c minutes [] where
  sorted := List.Pairwise.nil
  faithful := fun e he => absurd he List.not_mem_nil
  announced := fun before e later h => by simp at h

theorem concat (h : Dated c minutes es) (hdate : ∀ f ∈ es, f.date ≤ e.date)
    (he : e.Faithful c minutes)
    (hannounced : e.announced = NotifTracker.announces (es.map Evaluation.status) e.status) :
    Dated c minutes (es ++ [e]) where
  sorted := by
    refine List.pairwise_append.mpr ⟨h.sorted, List.pairwise_singleton _ e, fun f hf g hg => ?_⟩
    rw [List.mem_singleton.mp hg]
    exact hdate f hf
  faithful := by
    intro f hf
    rcases List.mem_append.mp hf with hf | hf
    · exact h.faithful f hf
    · rw [List.mem_singleton.mp hf]
      exact he
  announced := by
    intro before f later hsplit
    rcases List.eq_nil_or_concat later with rfl | ⟨later, g, rfl⟩
    · obtain ⟨rfl, hef⟩ := List.append_inj' hsplit rfl
      cases hef
      exact hannounced
    · rw [List.concat_eq_append, ← List.cons_append, ← List.append_assoc] at hsplit
      exact h.announced before f later (List.append_inj' hsplit rfl).1

theorem left {later : List Evaluation} (h : Dated c minutes (es ++ later)) :
    Dated c minutes es where
  sorted := (List.pairwise_append.mp h.sorted).1
  faithful := fun f hf => h.faithful f (List.mem_append_left later hf)
  announced := by
    intro before f rest hsplit
    refine h.announced before f (rest ++ later) ?_
    rw [hsplit, List.append_assoc, List.cons_append]

theorem at_split (h : Dated c minutes es) {before later : List Evaluation}
    (hsplit : es = before ++ e :: later) : Dated c minutes (before ++ [e]) := by
  rw [hsplit, List.append_cons] at h
  exact h.left

theorem periodic (h : Dated c minutes es) :
    Tightest.Periodic Evaluation.date Evaluation.obs es where
  sorted := h.sorted
  key := by
    intro e he f hf
    have hme := (h.faithful e he).resetsAt
    have hmf := (h.faithful f hf).resetsAt
    constructor
    · intro hkey
      have hkey' : e.status.resetsAt = f.status.resetsAt := hkey
      rw [hkey'] at hme
      obtain ⟨now, hnow⟩ := (h.faithful e he).shown
      obtain ⟨later, hlater⟩ := (h.faithful f hf).shown
      rw [← hnow] at hme ⊢
      rw [← hlater] at hmf ⊢
      exact Int.le_antisymm (hmf.date_le hme) (hme.date_le hmf)
    · intro hdate
      rw [hdate] at hme
      exact hme.unique hmf

/-- What is announced is below what was announced earlier on the date. -/
theorem announces_iff (h : Dated c minutes (es ++ [e])) {t : Nat} :
    Tightest.announces (es.map Evaluation.obs) e.obs = some t ↔
      Warns e.status t ∧ ∀ before f later u, es = before ++ f :: later → f.date = e.date →
        Tightest.announces (before.map Evaluation.obs) f.obs = some u → t < u := by
  have hcandidate : e.obs.2 = some t ↔ Warns e.status t := candidate_iff
  rw [Tightest.announces_iff, hcandidate]
  refine and_congr_right fun _ => ?_
  constructor
  · intro hall before f later u hsplit hdate hu
    exact hall u (h.periodic.announced_iff.mpr ⟨before, f, later, hsplit, hdate, hu⟩)
  · intro hall u hu
    obtain ⟨before, f, later, hsplit, hdate, hf⟩ := h.periodic.announced_iff.mp hu
    exact hall before f later u hsplit hdate hf

theorem announced_iff (h : Dated c minutes (es ++ [e])) {m : UInt32} :
    e.announced = some m ↔
      ∃ t, Tightest.announces (es.map Evaluation.obs) e.obs = some t ∧ m.toNat = t / 60 := by
  have hview := NotifTracker.announces_view (es.map Evaluation.status) e.status
  rw [← h.announced es e [] rfl, List.map_map] at hview
  show _ ↔ ∃ t, Tightest.announces (es.map (observation ∘ Evaluation.status))
    (observation e.status) = some t ∧ m.toNat = t / 60
  constructor
  · intro hm
    rw [hm, Option.map_some, eq_comm, Option.map_eq_some_iff] at hview
    obtain ⟨t, ht, hmt⟩ := hview
    exact ⟨t, ht, hmt.symm⟩
  · intro h
    obtain ⟨t, ht, hmt⟩ := h
    rw [ht, Option.map_some, Option.map_eq_some_iff] at hview
    obtain ⟨n, hn, hnt⟩ := hview
    rw [hn, UInt32.toNat_inj.mp (hnt.trans hmt.symm)]

/-- A threshold that is crossed is announced as at least the time that is left. -/
theorem le_minutes (h : Dated c minutes es) (he : e ∈ es) {t : Nat} (ht : Warns e.status t) :
    e.status.remainingSeconds ≤ 60 * ((t / 60 : Nat) : Int) := by
  obtain ⟨hactive, -, -, ⟨⟨m, -, hm⟩, -, hle⟩, -⟩ := ht
  have hbound := ((h.faithful e he).active hactive).2
  omega

theorem minutes_lt (h : Dated c minutes es) {f : Evaluation} (he : e ∈ es) (hf : f ∈ es)
    {t u : Nat} (ht : Warns e.status t) (hu : Warns f.status u) (hlt : t < u) :
    t / 60 < u / 60 := by
  rcases NotifTracker.minutes_lt ht hu hlt with hmin | ⟨hu', ht', -⟩
  · exact hmin
  · -- `u` is saturated, and `t` below it would have been found for `f` already
    exfalso
    obtain ⟨-, -, -, ⟨hcrossed, hpos, -⟩, -⟩ := ht
    obtain ⟨hactive, -, -, -, hleast⟩ := hu
    have hbound := ((h.faithful f hf).active hactive).2
    have hle : u ≤ t := by
      refine hleast ⟨?_, hpos, by omega⟩
      rw [(h.faithful f hf).thresholds, ← (h.faithful e he).thresholds]
      exact hcrossed
    omega

theorem warns_of_leastCrossed (h : Dated c minutes es) (he : e ∈ es)
    (hactive : e.status.state = .active) {m : UInt32}
    (hm : LeastCrossed minutes e.status.remainingSeconds m) :
    Warns e.status (min (60 * m.toNat) (2 ^ 32 - 1)) := by
  obtain ⟨hmem, hle, hleast⟩ := hm
  obtain ⟨hpos, hbound⟩ := (h.faithful e he).active hactive
  refine ⟨hactive, by omega, by omega, ⟨⟨m, ?_, rfl⟩, by omega, by omega⟩, ?_⟩
  · rw [(h.faithful e he).thresholds]
    exact hmem
  · rintro u ⟨⟨k, hk, rfl⟩, -, hu⟩
    rw [(h.faithful e he).thresholds] at hk
    have hmk : m ≤ k := hleast k hk (by omega)
    have hmk' : m.toNat ≤ k.toNat := UInt32.le_iff_toNat_le.mp hmk
    omega

/-! ## What holds for each date -/

theorem decreasing (h : Dated c minutes es) : Decreasing es := by
  induction es using List.reverseRecOn with
  | nil => exact List.Pairwise.nil
  | append_singleton es e ih =>
    refine List.pairwise_append.mpr ⟨ih h.left, List.pairwise_singleton _ e, ?_⟩
    intro f hf g hg hdate m n hm hn
    rw [List.mem_singleton.mp hg] at hdate hn
    obtain ⟨before, later, hsplit⟩ := List.append_of_mem hf
    have hpast := h.left.at_split hsplit
    obtain ⟨u, hu, hmu⟩ := hpast.announced_iff.mp hm
    obtain ⟨t, ht, hnt⟩ := h.announced_iff.mp hn
    obtain ⟨hwarns, hbelow⟩ := h.announces_iff.mp ht
    have hlt : t < u := hbelow before f later u hsplit hdate hu
    have hmin : t / 60 < u / 60 :=
      h.minutes_lt (by simp) (List.mem_append_left [e] hf) hwarns (hpast.announces_iff.mp hu).1 hlt
    refine UInt32.lt_iff_toNat_lt.mpr ?_
    rw [hmu, hnt]
    exact hmin

theorem inTime (h : Dated c minutes es) : InTime es := by
  intro e he m hm
  obtain ⟨before, later, hsplit⟩ := List.append_of_mem he
  have hpast := h.at_split hsplit
  obtain ⟨t, ht, hmt⟩ := hpast.announced_iff.mp hm
  have hle := h.le_minutes he (hpast.announces_iff.mp ht).1
  have hremaining := (h.faithful e he).remaining
  rw [hmt]
  omega

theorem covered (h : Dated c minutes es) : Covered minutes es := by
  intro before e later hsplit hactive _ m hm
  have hpast := h.at_split hsplit
  have he : e ∈ before ++ [e] := by simp
  have hwarns := hpast.warns_of_leastCrossed he hactive hm
  cases hnow : e.announced with
  | some n =>
    refine ⟨e, he, rfl, n, ?_, hnow⟩
    obtain ⟨t, ht, hnt⟩ := hpast.announced_iff.mp hnow
    have hsame := (hpast.announces_iff.mp ht).1.2.2.2.unique hwarns.2.2.2
    refine UInt32.le_iff_toNat_le.mpr ?_
    omega
  | none =>
    -- a silent tracker has announced this threshold or a smaller one already
    have hsilent : Tightest.announces (before.map Evaluation.obs) e.obs = none := by
      have hview := NotifTracker.announces_view (before.map Evaluation.status) e.status
      rw [← hpast.announced before e [] rfl, hnow, List.map_map] at hview
      exact Option.map_eq_none_iff.mp hview.symm
    obtain ⟨w, hle, hw⟩ := Tightest.announced_of_silent (candidate_iff.mpr hwarns) hsilent
    obtain ⟨first, f, rest, hfsplit, hdate, hf⟩ := hpast.periodic.announced_iff.mp hw
    have hfirst := hpast.left.at_split hfsplit
    have hmin : w / 60 < 2 ^ 32 := by omega
    refine ⟨f, List.mem_append_left [e] (by simp [hfsplit]), hdate, UInt32.ofNat (w / 60), ?_, ?_⟩
    · refine UInt32.le_iff_toNat_le.mpr ?_
      rw [UInt32.toNat_ofNat']
      omega
    · refine hfirst.announced_iff.mpr ⟨w, hf, ?_⟩
      rw [UInt32.toNat_ofNat', Nat.mod_eq_of_lt hmin]

end Dated

end Tray
end Konstantin
