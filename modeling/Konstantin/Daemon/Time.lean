import Mathlib.Data.Nat.Find
import Konstantin.Calendar.Zone

/-!
# The next local midnight

`crates/daemon/src/time.rs`.  The search starts on the date that the clocks show
24 hours ahead, which is tomorrow only when no transition falls into the day, and
goes by what `chrono` tells of a midnight: `isNext_iff_regular` says exactly when it
finds the next midnight all the same.
-/

namespace Konstantin
namespace Daemon

open Calendar

/-- The first `n` dates from `date` on, up to the first whose midnight is told. -/
def searchMidnight (c : Local) : Nat → Int → Option Int
  | 0, _ => none
  | n + 1, date =>
    match c.fromLocalDatetime (date * day) with
    | .single t => some t
    | .ambiguous earlier _ => some earlier
    | .none => searchMidnight c n (date + 1)

def nextLocalMidnightAfter (c : Local) (now : Int) : Int :=
  (searchMidnight c 7 (c.zone.localDate (now + day))).getD (now + day)

/-- The first instant at which the clocks show the midnight of `date`. -/
def midnight (z : Zone) (date : Int) : Option Int := z.firstInstant (date * day)

/-- The instant that `chrono` names first for the midnight of `date`. -/
def told (c : Local) (date : Int) : Option Int := (c.fromLocalDatetime (date * day)).first

/-- `date` is the first date after today that has a midnight. -/
def IsNextDate (z : Zone) (now date : Int) : Prop :=
  z.localDate now < date ∧ midnight z date ≠ none ∧
    ∀ e, z.localDate now < e → e < date → midnight z e = none

/-- `r` is in the future, and it is the midnight of the first date after today
that has one. -/
def IsNext (z : Zone) (now r : Int) : Prop :=
  now < r ∧ ∃ date, IsNextDate z now date ∧ midnight z date = some r

/-- The date 24 hours ahead is not past `date` nor more than six days before it, and
`date` is the first from there on of which `chrono` tells a midnight. -/
def FirstTold (c : Local) (now date : Int) : Prop :=
  c.zone.localDate (now + day) ≤ date ∧ date ≤ c.zone.localDate (now + day) + 6 ∧
    told c date ≠ none ∧ ∀ e, c.zone.localDate (now + day) ≤ e → e < date → told c e = none

/-- The clocks have not shown the coming midnight yet, and `chrono` names it first of
all the midnights of those seven dates.  It does so for the date itself, or for an
earlier one over which the clocks jump.  If it tells of no midnight at all, the
coming one is 24 hours ahead. -/
def Regular (c : Local) (now : Int) : Prop :=
  ∀ date t, IsNextDate c.zone now date → midnight c.zone date = some t →
    now < t ∧ ((∃ d, FirstTold c now d ∧ told c d = some t) ∨
      (∀ d, ¬ FirstTold c now d) ∧ t = now + day)

theorem searchMidnight_succ (c : Local) (n : Nat) (date : Int) :
    searchMidnight c (n + 1) date = (told c date).or (searchMidnight c n (date + 1)) := by
  rw [searchMidnight, told]
  cases c.fromLocalDatetime (date * day) <;> rfl

theorem searchMidnight_eq_some {c : Local} {n : Nat} {date t : Int} :
    searchMidnight c n date = some t ↔
      ∃ d, date ≤ d ∧ d < date + n ∧ told c d = some t ∧
        ∀ e, date ≤ e → e < d → told c e = none := by
  induction n generalizing date with
  | zero =>
    simp only [searchMidnight, reduceCtorEq, false_iff]
    intro h
    obtain ⟨d, h₁, h₂, -⟩ := h
    omega
  | succ n ih =>
    rw [searchMidnight_succ]
    cases hm : told c date with
    | some s =>
      simp only [Option.some_or, Option.some.injEq]
      constructor
      · rintro rfl
        exact ⟨date, by omega, by omega, hm, fun e h₁ h₂ => by omega⟩
      · intro h
        obtain ⟨d, h₁, -, hd, hbefore⟩ := h
        by_cases hlt : date < d
        · have hnone := hbefore date (Int.le_refl date) hlt
          rw [hm] at hnone
          cases hnone
        · have heq : d = date := by omega
          rw [heq, hm] at hd
          exact Option.some.inj hd
    | none =>
      simp only [Option.none_or, ih]
      constructor
      · intro h
        obtain ⟨d, h₁, h₂, hd, hbefore⟩ := h
        refine ⟨d, by omega, by omega, hd, fun e he hlt => ?_⟩
        by_cases heq : e = date
        · rw [heq, hm]
        · exact hbefore e (by omega) hlt
      · intro h
        obtain ⟨d, h₁, h₂, hd, hbefore⟩ := h
        have hne : d ≠ date := by
          rintro rfl
          rw [hm] at hd
          cases hd
        exact ⟨d, by omega, by omega, hd, fun e he hlt => hbefore e (by omega) hlt⟩

theorem nextLocalMidnightAfter_of_firstTold {c : Local} {now d t : Int} (h : FirstTold c now d)
    (hd : told c d = some t) : nextLocalMidnightAfter c now = t := by
  obtain ⟨hfrom, hto, -, hbefore⟩ := h
  have hs : searchMidnight c 7 (c.zone.localDate (now + day)) = some t :=
    searchMidnight_eq_some.mpr ⟨d, hfrom, by omega, hd, hbefore⟩
  rw [nextLocalMidnightAfter, hs, Option.getD_some]

/-- The result is the first midnight that is told, or 24 hours ahead. -/
theorem nextLocalMidnightAfter_iff {c : Local} {now t : Int} :
    nextLocalMidnightAfter c now = t ↔
      (∃ d, FirstTold c now d ∧ told c d = some t) ∨
        (∀ d, ¬ FirstTold c now d) ∧ t = now + day := by
  cases hs : searchMidnight c 7 (c.zone.localDate (now + day)) with
  | some s =>
    obtain ⟨d, hfrom, hto, hd, hbefore⟩ := searchMidnight_eq_some.mp hs
    have hsome : told c d ≠ none := by
      rw [hd]
      exact Option.some_ne_none s
    have hfirst : FirstTold c now d := ⟨hfrom, by omega, hsome, hbefore⟩
    constructor
    · intro hr
      rw [nextLocalMidnightAfter_of_firstTold hfirst hd] at hr
      exact Or.inl ⟨d, hfirst, hr ▸ hd⟩
    · rintro (⟨e, he, ht⟩ | ⟨hnone, -⟩)
      · exact nextLocalMidnightAfter_of_firstTold he ht
      · exact absurd hfirst (hnone d)
  | none =>
    have hr : nextLocalMidnightAfter c now = now + day := by
      rw [nextLocalMidnightAfter, hs, Option.getD_none]
    have hnone : ∀ d, ¬ FirstTold c now d := by
      rintro d ⟨hfrom, hto, hd, hbefore⟩
      obtain ⟨s, hsome⟩ := Option.ne_none_iff_exists'.mp hd
      have hfound := searchMidnight_eq_some.mpr ⟨d, hfrom, (by omega : d < _ + (7 : Nat)), hsome,
        hbefore⟩
      rw [hs] at hfound
      cases hfound
    constructor
    · intro h
      exact Or.inr ⟨hnone, h.symm.trans hr⟩
    · rintro (⟨d, hd, -⟩ | ⟨-, rfl⟩)
      · exact absurd hd (hnone d)
      · exact hr

/-- A date with a midnight among those after today: the first of them is next. -/
theorem exists_isNextDate {z : Zone} {now : Int} {k : Nat} (hk : 1 ≤ k)
    (h : midnight z (z.localDate now + k) ≠ none) : ∃ date, IsNextDate z now date := by
  have hex : ∃ n : Nat, midnight z (z.localDate now + 1 + n) ≠ none := by
    refine ⟨k - 1, ?_⟩
    have hsame : z.localDate now + 1 + ((k - 1 : Nat) : Int) = z.localDate now + k := by omega
    rw [hsame]
    exact h
  refine ⟨z.localDate now + 1 + Nat.find hex, by omega, Nat.find_spec hex, fun e he hlt => ?_⟩
  have hmin := Nat.find_min hex (m := (e - (z.localDate now + 1)).toNat) (by omega)
  have hsame : z.localDate now + 1 + ((e - (z.localDate now + 1)).toNat : Int) = e := by omega
  rw [hsame, not_not] at hmin
  exact hmin

theorem isNextDate_unique {z : Zone} {now d e : Int} (hd : IsNextDate z now d)
    (he : IsNextDate z now e) : d = e := by
  have hde : ¬ d < e := fun hlt => hd.2.1 (he.2.2 d hd.1 hlt)
  have hed : ¬ e < d := fun hlt => he.2.1 (hd.2.2 e he.1 hlt)
  omega

/-- Where `chrono` names the first instant of every midnight and no other, it depends on
the clocks alone: the coming midnight is not over, its date is the one that they show
24 hours ahead or one of the six after that, and none from there up to today has a
midnight. -/
theorem regular_iff_of_faithful {c : Local} {now : Int}
    (h : ∀ d, told c d = midnight c.zone d) :
    Regular c now ↔
      ∀ date t, IsNextDate c.zone now date → midnight c.zone date = some t →
        now < t ∧ c.zone.localDate (now + day) ≤ date ∧
          date ≤ c.zone.localDate (now + day) + 6 ∧
            ∀ e, c.zone.localDate (now + day) ≤ e → e ≤ c.zone.localDate now →
              midnight c.zone e = none := by
  have hshown : ∀ {d t : Int}, midnight c.zone d = some t → c.zone.localDate t = d := by
    intro d t ht
    rw [Zone.localDate, (Zone.firstInstant_eq_some.mp ht).1]
    exact Int.mul_ediv_cancel d (by decide)
  refine forall_congr' fun date => forall_congr' fun t => ?_
  refine imp_congr_right fun hdate => imp_congr_right fun ht => and_congr_right fun _ => ?_
  obtain ⟨hlater, hsome, hskipped⟩ := hdate
  constructor
  · intro hfound
    have hfirst : FirstTold c now date := by
      rcases hfound with ⟨d, hd, htold⟩ | ⟨hnone, rfl⟩
      · -- the clocks show one date at an instant
        rw [h d] at htold
        obtain rfl : d = date := (hshown htold).symm.trans (hshown ht)
        exact hd
      · have hahead : c.zone.localDate (now + day) = date := hshown ht
        refine absurd ⟨Int.le_of_eq hahead, by omega, ?_, fun e h₁ h₂ => by omega⟩ (hnone date)
        rw [h date]
        exact hsome
    obtain ⟨hfrom, hto, -, hbefore⟩ := hfirst
    refine ⟨hfrom, hto, fun e h₁ h₂ => ?_⟩
    rw [← h e]
    exact hbefore e h₁ (by omega)
  · rintro ⟨hfrom, hto, hover⟩
    refine Or.inl ⟨date, ⟨hfrom, hto, ?_, fun e h₁ h₂ => ?_⟩, (h date).trans ht⟩
    · rw [h date]
      exact hsome
    · rw [h e]
      by_cases hpast : e ≤ c.zone.localDate now
      · exact hover e h₁ hpast
      · exact hskipped e (by omega) h₂

/-- The search comes to the first date after today whose midnight is told, and the
instant it is told falls on the next date that the clocks show. -/
def Ordinary (c : Local) (now : Int) : Prop :=
  ∃ d, FirstTold c now d ∧ c.zone.localDate now < d ∧
    (∀ e, c.zone.localDate now < e → e < d → told c e = none) ∧
    ∀ t, told c d = some t → c.zone.localDate now < c.zone.localDate t ∧
      ∀ s, c.zone.localDate now < c.zone.localDate s →
        c.zone.localDate t ≤ c.zone.localDate s

/-- `t` is the instant told for the first date after `date` that has one, and it falls
on the next date that the clocks show. -/
structure Ends (c : Local) (date t : Int) : Prop where
  told : ∃ d, date < d ∧ told c d = some t ∧ ∀ e, date < e → e < d → told c e = none
  after : date < c.zone.localDate t
  next : ∀ s, date < c.zone.localDate s → c.zone.localDate t ≤ c.zone.localDate s

theorem Ordinary.ends {c : Local} {now : Int} (h : Ordinary c now) :
    Ends c (c.zone.localDate now) (nextLocalMidnightAfter c now) := by
  obtain ⟨d, hfirst, hlt, hbefore, htold⟩ := h
  obtain ⟨t, ht⟩ := Option.ne_none_iff_exists'.mp hfirst.2.2.1
  rw [nextLocalMidnightAfter_of_firstTold hfirst ht]
  obtain ⟨hafter, hnext⟩ := htold t ht
  exact ⟨⟨d, hlt, ht, hbefore⟩, hafter, hnext⟩

/-- A date has one end, and two dates that the clocks show have two. -/
theorem Ends.unique {c : Local} {date t s : Int} (ht : Ends c date t) (hs : Ends c date s) :
    t = s := by
  obtain ⟨d, hd, htold, hbefore⟩ := ht.told
  obtain ⟨e, he, hetold, hebefore⟩ := hs.told
  have hde : ¬ d < e := by
    intro hlt
    rw [hebefore d hd hlt] at htold
    cases htold
  have hed : ¬ e < d := by
    intro hlt
    rw [hbefore e he hlt] at hetold
    cases hetold
  have hsame : d = e := by omega
  rw [hsame, hetold] at htold
  exact (Option.some.inj htold).symm

theorem Ends.date_le {c : Local} {date t clock : Int} (h : Ends c date t)
    (h' : Ends c (c.zone.localDate clock) t) : c.zone.localDate clock ≤ date := by
  by_contra hlt
  have hle := h.next clock (by omega)
  have hafter := h'.after
  omega

/-- The clocks of one zone: two hours ahead, put back to one hour ahead one hour
after the epoch, at 03:00 of the date 0. -/
def autumn : Zone where
  initial := 7200 * 10 ^ 9
  transitions := [(3600 * 10 ^ 9, 3600 * 10 ^ 9)]
  sorted := List.pairwise_singleton _ _

/-- One hour ahead, put back to none half an hour into the date 1. -/
def backOverMidnight : Zone where
  initial := 3600 * 10 ^ 9
  transitions := [(84600 * 10 ^ 9, 0)]
  sorted := List.pairwise_singleton _ _

/-- Of a midnight that is shown twice the later instant is named first. -/
example : midnight backOverMidnight 1 = some (82800 * 10 ^ 9) ∧
    nextLocalMidnightAfter (.ofZone backOverMidnight) 0 = 86400 * 10 ^ 9 := by decide

theorem midnight_fixed (offset d : Int) :
    midnight (Zone.fixed offset) d = some (d * day - offset) := by
  rw [midnight, Zone.firstInstant_eq_some]
  simp only [Zone.toLocal, Zone.offsetAt_fixed]
  exact ⟨by omega, fun s hs => by omega⟩

theorem told_fixed (offset d : Int) : told (.fixed offset) d = some (d * day - offset) := rfl

theorem firstTold_fixed (offset now : Int) :
    FirstTold (.fixed offset) now ((Zone.fixed offset).localDate now + 1) := by
  have hdate : (Zone.fixed offset).localDate (now + day) =
      (Zone.fixed offset).localDate now + 1 := by
    simp only [Zone.localDate_fixed, day]
    omega
  refine ⟨Int.le_of_eq hdate, ?_, Option.some_ne_none _, fun e h₁ h₂ => ?_⟩
  · show _ ≤ (Zone.fixed offset).localDate (now + day) + 6
    omega
  · have hfrom : (Zone.fixed offset).localDate (now + day) ≤ e := h₁
    omega

theorem nextLocalMidnightAfter_fixed (offset now : Int) :
    nextLocalMidnightAfter (.fixed offset) now =
      ((Zone.fixed offset).localDate now + 1) * day - offset :=
  nextLocalMidnightAfter_of_firstTold (firstTold_fixed offset now) (told_fixed _ _)

theorem ordinary_fixed (offset now : Int) : Ordinary (.fixed offset) now := by
  refine ⟨_, firstTold_fixed offset now, Int.lt_succ _, fun e h₁ h₂ => ?_, fun t ht => ?_⟩
  · have hfrom : (Zone.fixed offset).localDate now < e := h₁
    omega
  · rw [told_fixed] at ht
    cases ht
    have hshown : (Zone.fixed offset).localDate
        (((Zone.fixed offset).localDate now + 1) * day - offset) =
          (Zone.fixed offset).localDate now + 1 := by
      simp only [Zone.localDate_fixed, day]
      omega
    show (Zone.fixed offset).localDate now < (Zone.fixed offset).localDate _ ∧ ∀ s,
      (Zone.fixed offset).localDate now < (Zone.fixed offset).localDate s →
        (Zone.fixed offset).localDate _ ≤ (Zone.fixed offset).localDate s
    rw [hshown]
    exact ⟨Int.lt_succ _, fun s hs => hs⟩

end Daemon
end Konstantin
