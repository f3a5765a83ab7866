import Konstantin.Daemon.Agreement
import Konstantin.Daemon.Machine

/-!
# Ticks that overflow a counter

A run of ticks on one date, from what `State::load` found in the state file.  The
stored counters may be any numbers and the number of ticks has no bound, so the
`u32` addition of `tick` can wrap.  `staysReached_iff` says when it does not, and that
a reached limit then stays reached.
-/

namespace Konstantin
namespace Daemon

open Fs Transition

/-- One locked section of the ticker on the date `today`. -/
def tickOn (cfg : Config) (today : NaiveDate) (s : State) (active : UserSet) : Option State :=
  some (s.advance today active cfg.tickSeconds)

/-- In how many of the ticks the user has a console session. -/
def presence (username : String) (ticks : List UserSet) : Nat :=
  ticks.countP fun active => decide (username ∈ active)

/-- No addition of this tick leaves the `u32`. -/
def NoOverflow (cfg : Config) (s : State) (active : UserSet) (_ : State) : Prop :=
  ∀ u ∈ active, (s.used u).toNat + cfg.tickSeconds.toNat < UInt32.size

/-- What holds of a user's counter and limit in `s` still holds in `t`. -/
structure Kept (cfg : Config) (s t : State) : Prop where
  used : ∀ u, s.used u ≤ t.used u
  status : ∀ username uid resetsAt resetsAt',
    (computeStatus username uid cfg s resetsAt).state = .limitReached →
      (computeStatus username uid cfg t resetsAt').state = .limitReached
  decision : ∀ username lastKicked now lastKicked' now',
    Enforcement.decide cfg username (s.used username) lastKicked now = .kick .limitReached →
      Enforcement.decide cfg username (t.used username) lastKicked' now' = .kick .limitReached ∨
        ∃ kicked, lastKicked' = some kicked ∧ now' - kicked < bootoutBackoff

/-- Over a whole run on one date: no addition overflows, and any later state keeps
what an earlier one has. -/
structure StaysReached (cfg : Config) (today : NaiveDate) (s : State) (ticks : List UserSet) :
    Prop where
  noOverflow : Along (tickOn cfg today) (NoOverflow cfg) s ticks
  kept : ∀ before middle later t t', ticks = before ++ middle ++ later →
    exec (tickOn cfg today) s before = some t → exec (tickOn cfg today) t middle = some t' →
      Kept cfg t t'

/-! ## Counters along a run -/

section

variable {cfg : Config} {today : NaiveDate}

theorem used_advance {s : State} (hday : s.day = some today) (active : UserSet) (u : String) :
    (s.advance today active cfg.tickSeconds).used u =
      if u ∈ active then s.used u + cfg.tickSeconds else s.used u := by
  rw [State.advance, State.resetIfNewDay_same hday, State.used_tick]

theorem toNat_add_of_lt {a b : UInt32} (h : a.toNat + b.toNat < UInt32.size) :
    (a + b).toNat = a.toNat + b.toNat := by
  rw [UInt32.toNat_add]
  exact Nat.mod_eq_of_lt h

theorem presence_of_mem {active : UserSet} {u : String} (hu : u ∈ active)
    (ticks : List UserSet) : presence u (active :: ticks) = presence u ticks + 1 :=
  List.countP_cons_of_pos (decide_eq_true hu)

theorem presence_of_not_mem {active : UserSet} {u : String} (hu : u ∉ active)
    (ticks : List UserSet) : presence u (active :: ticks) = presence u ticks :=
  List.countP_cons_of_neg (by simpa using hu)

/-- A tick that does not overflow moves its seconds from the ticks to come into the
counter. -/
theorem total_advance {s : State} (hday : s.day = some today) {active : UserSet} {u : String}
    (hfits : u ∈ active → (s.used u).toNat + cfg.tickSeconds.toNat < UInt32.size)
    (ticks : List UserSet) :
    ((s.advance today active cfg.tickSeconds).used u).toNat +
        cfg.tickSeconds.toNat * presence u ticks =
      (s.used u).toNat + cfg.tickSeconds.toNat * presence u (active :: ticks) := by
  rw [used_advance hday]
  by_cases hu : u ∈ active
  · rw [if_pos hu, toNat_add_of_lt (hfits hu), presence_of_mem hu, Nat.mul_add, Nat.mul_one]
    omega
  · rw [if_neg hu, presence_of_not_mem hu]

/-- The first tick fits when the total does. -/
theorem fits_of_total {s : State} {active : UserSet} {u : String} {ticks : List UserSet}
    (h : (s.used u).toNat + cfg.tickSeconds.toNat * presence u (active :: ticks) < UInt32.size)
    (hu : u ∈ active) : (s.used u).toNat + cfg.tickSeconds.toNat < UInt32.size := by
  rw [presence_of_mem hu, Nat.mul_add, Nat.mul_one] at h
  omega

/-- While the total fits, the counter is the total. -/
theorem used_exec {s t : State} (hday : s.day = some today) {ticks : List UserSet} {u : String}
    (hfits : (s.used u).toNat + cfg.tickSeconds.toNat * presence u ticks < UInt32.size)
    (h : exec (tickOn cfg today) s ticks = some t) :
    t.day = some today ∧
      (t.used u).toNat = (s.used u).toNat + cfg.tickSeconds.toNat * presence u ticks := by
  induction ticks generalizing s with
  | nil =>
    cases h
    exact ⟨hday, rfl⟩
  | cons active ticks ih =>
    have hstep : tickOn cfg today s active = some (s.advance today active cfg.tickSeconds) := rfl
    rw [exec_cons hstep] at h
    have hnext := s.advance_day today active cfg.tickSeconds
    have htotal := total_advance hday (fits_of_total hfits) ticks
    obtain ⟨ht, hvalue⟩ := ih hnext (htotal ▸ hfits) h
    exact ⟨ht, hvalue.trans htotal⟩

/-- No addition of the run overflows exactly if every user's total fits. -/
theorem noOverflow_iff {s : State} (hday : s.day = some today) (ticks : List UserSet) :
    Along (tickOn cfg today) (NoOverflow cfg) s ticks ↔
      ∀ u, (s.used u).toNat + cfg.tickSeconds.toNat * presence u ticks < UInt32.size := by
  induction ticks generalizing s with
  | nil =>
    refine ⟨fun _ u => ?_, fun _ => trivial⟩
    exact (s.used u).toNat_lt
  | cons active ticks ih =>
    have hstep : tickOn cfg today s active = some (s.advance today active cfg.tickSeconds) := rfl
    rw [along_cons hstep, ih (s.advance_day today active cfg.tickSeconds)]
    constructor
    · rintro ⟨hfirst, hrest⟩ u
      rw [← total_advance hday (hfirst u) ticks]
      exact hrest u
    · intro htotal
      refine ⟨fun u => fits_of_total (htotal u), fun u => ?_⟩
      rw [total_advance hday (fits_of_total (htotal u)) ticks]
      exact htotal u

/-! ## A limit that was reached -/

theorem wanted_of_decide {username : String} {used : UInt32} {lastKicked : Option Nat} {now : Nat}
    (h : Enforcement.decide cfg username used lastKicked now = .kick .limitReached) :
    Enforcement.wanted cfg username used = .kick .limitReached := by
  unfold Enforcement.decide at h
  split at h
  · split at h
    · cases h
    · exact h
  · exact h

theorem wanted_mono {username : String} {used more : UInt32} (hle : used ≤ more)
    (h : Enforcement.wanted cfg username used = .kick .limitReached) :
    Enforcement.wanted cfg username more = .kick .limitReached := by
  unfold Enforcement.wanted at h ⊢
  cases hu : cfg.userByName username with
  | none =>
    rw [hu] at h
    exact h
  | some u =>
    rw [hu] at h
    dsimp only at h ⊢
    by_cases hlimit : used ≥ Config.limitSeconds u
    · exact if_pos (UInt32.le_trans hlimit hle)
    · rw [if_neg hlimit] at h
      cases h

/-- A decision that is not held off by the backoff is the one that is wanted. -/
theorem decide_or_backoff {username : String} {used : UInt32} (lastKicked : Option Nat) (now : Nat)
    (h : Enforcement.wanted cfg username used = .kick .limitReached) :
    Enforcement.decide cfg username used lastKicked now = .kick .limitReached ∨
      ∃ kicked, lastKicked = some kicked ∧ now - kicked < bootoutBackoff := by
  cases lastKicked with
  | none => exact Or.inl h
  | some kicked =>
    by_cases hbackoff : now - kicked < bootoutBackoff
    · exact Or.inr ⟨kicked, rfl, hbackoff⟩
    · left
      rw [Enforcement.decide, if_neg hbackoff]
      exact h

theorem kept_of_used {s t : State} (h : ∀ u, s.used u ≤ t.used u) : Kept cfg s t where
  used := h
  status := fun username _ _ _ hs => sessionState_limitReached_mono (h username) hs
  decision := fun username _ _ lastKicked' now' hs =>
    decide_or_backoff lastKicked' now' (wanted_mono (h username) (wanted_of_decide hs))

/-- Later counters are larger while the totals fit. -/
theorem used_le_of_fits {s t t' : State} (hday : s.day = some today)
    {before middle later : List UserSet}
    (hfits : ∀ u, (s.used u).toNat +
      cfg.tickSeconds.toNat * presence u (before ++ middle ++ later) < UInt32.size)
    (ht : exec (tickOn cfg today) s before = some t)
    (ht' : exec (tickOn cfg today) t middle = some t') (u : String) : t.used u ≤ t'.used u := by
  have hsum := hfits u
  have hcount : presence u (before ++ middle ++ later) =
      presence u before + presence u middle + presence u later := by
    rw [presence, List.countP_append, List.countP_append]
    rfl
  rw [hcount, Nat.mul_add, Nat.mul_add] at hsum
  obtain ⟨htday, hbefore⟩ := used_exec hday (u := u) (by omega) ht
  obtain ⟨-, hmiddle⟩ := used_exec htday (u := u) (by omega) ht'
  rw [UInt32.le_iff_toNat_le]
  omega

theorem staysReached_of_day {s : State} (hday : s.day = some today) (ticks : List UserSet) :
    StaysReached cfg today s ticks ↔
      ∀ u, (s.used u).toNat + cfg.tickSeconds.toNat * presence u ticks < UInt32.size := by
  constructor
  · exact fun h => (noOverflow_iff hday ticks).mp h.noOverflow
  · intro hfits
    refine ⟨(noOverflow_iff hday ticks).mpr hfits, ?_⟩
    rintro before middle later t t' rfl ht ht'
    exact kept_of_used (used_le_of_fits hday hfits ht ht')

end

/-- The counter a user begins the date `today` with. -/
def countedOn (loaded : State) (today : NaiveDate) (username : String) : UInt32 :=
  if loaded.day = some today then loaded.used username else 0

/-- From whatever the state file holds, a run of ticks is good exactly if no total
passes the `u32`. -/
theorem staysReached_iff (cfg : Config) (disk : Disk) (today : NaiveDate) (initial : UserSet)
    (ticks : List UserSet) :
    StaysReached cfg today
        (Process.start cfg (State.load cfg.statePath disk) today initial).state ticks ↔
      ∀ u, (countedOn (State.load cfg.statePath disk) today u).toNat +
        cfg.tickSeconds.toNat * presence u ticks < UInt32.size := by
  have hday : (Process.start cfg (State.load cfg.statePath disk) today initial).state.day =
      some today := State.resetIfNewDay_day (State.load cfg.statePath disk) today
  have hused : ∀ u, (Process.start cfg (State.load cfg.statePath disk) today initial).state.used u =
      countedOn (State.load cfg.statePath disk) today u :=
    State.used_resetIfNewDay (State.load cfg.statePath disk) today
  rw [staysReached_of_day hday]
  simp only [hused]

/-! ## A state file at the limit of its numbers -/

/-- The largest counter for alice, on the day 0. -/
def fullState : State where
  day := some 0
  counters := (∅ : AList fun _ : String => UInt32).insert "alice" 4294967295
  activeNow := ∅

/-- Alice may use an hour a day. -/
def hourConfig : Config :=
  { Config.defaults with users := (∅ : AList fun _ : String => UserConfig).insert "alice" ⟨60⟩ }

/-- A disk with this state in the state file. -/
def fullDisk : Disk where
  inode := fun n => if n = hourConfig.statePath.resolve then some 0 else none
  data := fun _ => .whole ⟨0, fullState⟩
  fresh := 1
  inode_lt := by
    intro n i h
    split at h
    · cases h
      exact Nat.zero_lt_one
    · cases h
  inode_inj := by
    intro m n i hm hn
    split at hm
    · rename_i hmp
      split at hn
      · rename_i hnp
        rw [hmp, hnp]
      · cases hn
    · cases hm

theorem load_fullDisk : State.load hourConfig.statePath fullDisk = fullState := by
  have hinode : fullDisk.inode hourConfig.statePath.resolve = some 0 := by
    unfold fullDisk
    dsimp only
    rw [if_pos rfl]
  have hread : fullDisk.read hourConfig.statePath.resolve = some (.whole ⟨0, fullState⟩) := by
    rw [Volume.read, hinode]
    rfl
  rw [State.load, hread]
  rfl

/-- The first tick of five seconds takes the counter to four: alice, who was to be
logged out, has time again. -/
theorem staysReached_fails :
    hourConfig.validate = .ok () ∧
      ¬ StaysReached hourConfig 0
        (Process.start hourConfig (State.load hourConfig.statePath fullDisk) 0 {"alice"}).state
        [{"alice"}] ∧
      Enforcement.decide hourConfig "alice" (fullState.used "alice") none 0 =
        .kick .limitReached ∧
      Enforcement.decide hourConfig "alice"
        ((fullState.tick {"alice"} hourConfig.tickSeconds).used "alice") none 0 = .noOp := by
  refine ⟨by decide, fun h => ?_, by decide, by decide⟩
  have hfirst := h.noOverflow
  rw [load_fullDisk] at hfirst
  have hadd := ((along_cons rfl []).mp hfirst).1 "alice" List.mem_cons_self
  revert hadd
  decide

end Daemon
end Konstantin
