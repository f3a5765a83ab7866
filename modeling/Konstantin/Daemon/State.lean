import Mathlib.Algebra.Group.Int.Defs
import Mathlib.Algebra.Group.Nat.Defs
import Mathlib.Data.List.AList

/-!
# The persistent counters

`crates/daemon/src/state.rs`: the day the counters belong to, the seconds
counted for each user, and the set of users seen at the last tick.

Addition of counters is `u32` addition as the release build performs it.
-/

namespace Konstantin
namespace Daemon

/-- A calendar date, as the number of days since a fixed one. -/
abbrev NaiveDate := Int

/-- A `HashSet` of usernames, in the order in which it is iterated. -/
structure UserSet where
  names : List String
  nodup : names.Nodup
  deriving DecidableEq

namespace UserSet

instance : Membership String UserSet := ⟨fun s u => u ∈ s.names⟩

instance (u : String) (s : UserSet) : Decidable (u ∈ s) :=
  inferInstanceAs (Decidable (u ∈ s.names))

instance : EmptyCollection UserSet := ⟨⟨[], List.nodup_nil⟩⟩

instance : Singleton String UserSet := ⟨fun u => ⟨[u], List.nodup_singleton u⟩⟩

end UserSet

structure State where
  day : Option NaiveDate
  counters : AList fun _ : String => UInt32
  activeNow : UserSet
  deriving DecidableEq

namespace State

/-- `State::default`. -/
def fresh : State := { day := none, counters := ∅, activeNow := ∅ }

/-- What `serde_json` writes and reads back: `active_now` is skipped. -/
def persisted (s : State) : State := { s with activeNow := ∅ }

/-- Zero the counters if `today` differs from `day`; `true` on a rollover. -/
def resetIfNewDay (s : State) (today : NaiveDate) : State × Bool :=
  match s.day with
  | some d =>
    if d = today then (s, false) else ({ s with day := some today, counters := ∅ }, true)
  | none => ({ s with day := some today, counters := ∅ }, true)

/-- `*counters.entry(user).or_insert(0) += delta`. -/
def credit (deltaSeconds : UInt32) (counters : AList fun _ : String => UInt32) (user : String) :
    AList fun _ : String => UInt32 :=
  counters.insert user ((counters.lookup user).getD 0 + deltaSeconds)

/-- Add `deltaSeconds` to every user in `active`; replace `activeNow`. -/
def tick (s : State) (active : UserSet) (deltaSeconds : UInt32) : State :=
  { s with counters := active.names.foldl (credit deltaSeconds) s.counters, activeNow := active }

def used (s : State) (username : String) : UInt32 := (s.counters.lookup username).getD 0

def isActive (s : State) (username : String) : Bool := decide (username ∈ s.activeNow)

/-! ## What the operations do to one user's counter -/

theorem resetIfNewDay_same {s : State} {today : NaiveDate} (h : s.day = some today) :
    s.resetIfNewDay today = (s, false) := by
  simp [resetIfNewDay, h]

theorem resetIfNewDay_other {s : State} {today : NaiveDate} (h : s.day ≠ some today) :
    s.resetIfNewDay today = ({ s with day := some today, counters := ∅ }, true) := by
  unfold resetIfNewDay
  split
  · rename_i d hd
    rw [if_neg]
    rintro rfl
    exact h hd
  · rfl

theorem resetIfNewDay_day (s : State) (today : NaiveDate) :
    (s.resetIfNewDay today).1.day = some today := by
  by_cases h : s.day = some today
  · rw [resetIfNewDay_same h]
    exact h
  · rw [resetIfNewDay_other h]

theorem used_resetIfNewDay (s : State) (today : NaiveDate) (u : String) :
    (s.resetIfNewDay today).1.used u = if s.day = some today then s.used u else 0 := by
  by_cases h : s.day = some today
  · rw [resetIfNewDay_same h, if_pos h]
  · rw [resetIfNewDay_other h, if_neg h]
    rfl

theorem lookup_foldl_credit_of_not_mem {deltaSeconds : UInt32} {u : String} {names : List String}
    (h : u ∉ names) (counters : AList fun _ : String => UInt32) :
    (names.foldl (credit deltaSeconds) counters).lookup u = counters.lookup u := by
  induction names generalizing counters with
  | nil => rfl
  | cons name names ih =>
    rw [List.mem_cons, not_or] at h
    rw [List.foldl_cons, ih h.2, credit, AList.lookup_insert_ne h.1]

theorem lookup_foldl_credit_of_mem {deltaSeconds : UInt32} {u : String} {names : List String}
    (hn : names.Nodup) (h : u ∈ names) (counters : AList fun _ : String => UInt32) :
    (names.foldl (credit deltaSeconds) counters).lookup u =
      some ((counters.lookup u).getD 0 + deltaSeconds) := by
  induction names generalizing counters with
  | nil => simp at h
  | cons name names ih =>
    rw [List.nodup_cons] at hn
    rw [List.foldl_cons]
    rcases List.mem_cons.mp h with rfl | hmem
    · rw [lookup_foldl_credit_of_not_mem hn.1, credit, AList.lookup_insert]
    · have hne : u ≠ name := fun e => hn.1 (e ▸ hmem)
      rw [ih hn.2 hmem, credit, AList.lookup_insert_ne hne]

theorem used_tick (s : State) (active : UserSet) (deltaSeconds : UInt32) (u : String) :
    (s.tick active deltaSeconds).used u =
      if u ∈ active then s.used u + deltaSeconds else s.used u := by
  unfold used tick
  by_cases h : u ∈ active
  · rw [if_pos h, lookup_foldl_credit_of_mem active.nodup h, Option.getD_some]
  · rw [if_neg h, lookup_foldl_credit_of_not_mem h]

/-- One locked section of the ticker: roll over if needed, then tick. -/
def advance (s : State) (today : NaiveDate) (active : UserSet) (deltaSeconds : UInt32) : State :=
  (s.resetIfNewDay today).1.tick active deltaSeconds

theorem advance_day (s : State) (today : NaiveDate) (active : UserSet) (deltaSeconds : UInt32) :
    (s.advance today active deltaSeconds).day = some today := resetIfNewDay_day s today

end State

end Daemon
end Konstantin
