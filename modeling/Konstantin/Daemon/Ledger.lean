import Konstantin.Daemon.Process

/-!
# The counters as a ledger of the day

A counter is owed `tick_seconds` for every ticker iteration that read the date of
the counters and saw the user, and what the state file had for that date when the
process started.  The two tasks keep this balance as long as neither of them
applies a date that the state has already left.
-/

namespace Konstantin
namespace Daemon
namespace Process

def seen (ticks : List (NaiveDate × UserSet)) (d : NaiveDate) (u : String) : Nat :=
  ticks.countP fun t => decide (t.1 = d ∧ u ∈ t.2)

/-- What a state file counts for a process that starts on `today`. -/
def carried (loaded : State) (today d : NaiveDate) (u : String) : Nat :=
  if loaded.day = some today ∧ d = today then (loaded.used u).toNat else 0

/-- What is owed to a user on a date, on top of `base`. -/
def owed (base : NaiveDate → String → Nat) (p : Process) (d : NaiveDate) (u : String) : Nat :=
  base d u + p.cfg.tickSeconds.toNat * seen p.ticks d u

def Exact (base : NaiveDate → String → Nat) (p : Process) : Prop :=
  ∀ d u, p.state.day = some d → owed base p d u < 2 ^ 32 →
    (p.state.used u).toNat = owed base p d u

/-- A step that does not turn the day back and leaves the counters exact. -/
def KeepsLedger (base : NaiveDate → String → Nat) (p : Process) (_ : TaskStep) (q : Process) :
    Prop :=
  (∀ d e, p.state.day = some d → q.state.day = some e → d ≤ e) ∧ Exact base q

/-- No locked section applies a date before the day of the state. -/
def OnTime (p : Process) (l : TaskStep) (_ : Process) : Prop :=
  ∀ today d, p.lockDate l = some today → p.state.day = some d → d ≤ today

/-- The balance, in the arithmetic of the counters. -/
structure Balanced (base : NaiveDate → String → Nat) (p : Process) (d : NaiveDate) : Prop where
  day : p.state.day = some d
  ticks_le : ∀ t ∈ p.ticks, t.1 ≤ d
  base_later : ∀ e u, d < e → base e u = 0
  used : ∀ u, p.state.used u = UInt32.ofNat (owed base p d u)

theorem seen_append (ticks : List (NaiveDate × UserSet)) (t : NaiveDate × UserSet)
    (d : NaiveDate) (u : String) :
    seen (ticks ++ [t]) d u = seen ticks d u + if t.1 = d ∧ u ∈ t.2 then 1 else 0 := by
  simp [seen, List.countP_append, List.countP_cons]

theorem seen_eq_zero {ticks : List (NaiveDate × UserSet)} {d e : NaiveDate}
    (h : ∀ t ∈ ticks, t.1 ≤ d) (hlt : d < e) (u : String) : seen ticks e u = 0 := by
  rw [seen, List.countP_eq_zero]
  intro t ht
  have hle := h t ht
  simp only [decide_eq_true_eq, not_and]
  rintro rfl
  exact absurd hle (Int.not_le.mpr hlt)

namespace Balanced

variable {base : NaiveDate → String → Nat} {p q : Process} {d : NaiveDate}

theorem exact (h : Balanced base p d) : Exact base p := by
  intro e u he hfit
  have hde : d = e := Option.some.inj (h.day.symm.trans he)
  subst hde
  rw [h.used u, UInt32.toNat_ofNat']
  exact Nat.mod_eq_of_lt hfit

theorem owed_later (h : Balanced base p d) {e : NaiveDate} (hlt : d < e) (u : String) :
    owed base p e u = 0 := by
  rw [owed, h.base_later e u hlt, seen_eq_zero h.ticks_le hlt u, Nat.mul_zero]

theorem resetIfNewDay (h : Balanced base p d) {today : NaiveDate} (hle : d ≤ today) (u : String) :
    ((p.state.resetIfNewDay today).1).used u = UInt32.ofNat (owed base p today u) := by
  rw [State.used_resetIfNewDay]
  by_cases hd : d = today
  · subst hd
    rw [if_pos h.day, h.used u]
  · have hlt : d < today := Int.lt_iff_le_and_ne.mpr ⟨hle, hd⟩
    have hne : p.state.day ≠ some today := by
      rw [h.day]
      simpa using hd
    rw [if_neg hne, h.owed_later hlt u]
    rfl

theorem lockResetter (h : Balanced base p d) {today : NaiveDate} (hle : d ≤ today) :
    Balanced base (p.lockResetter today) today where
  day := State.resetIfNewDay_day p.state today
  ticks_le := fun t ht => Int.le_trans (h.ticks_le t ht) hle
  base_later := fun e u he => h.base_later e u (Int.lt_of_le_of_lt hle he)
  used := h.resetIfNewDay hle

theorem lockTicker (h : Balanced base p d) {active : UserSet} {today : NaiveDate}
    (hle : d ≤ today) : Balanced base (p.lockTicker active today) today where
  day := State.advance_day p.state today active p.cfg.tickSeconds
  ticks_le := by
    intro t ht
    rcases List.mem_append.mp ht with hold | hnew
    · exact Int.le_trans (h.ticks_le t hold) hle
    · exact Int.le_of_eq (congrArg Prod.fst (List.mem_singleton.mp hnew))
  base_later := fun e u he => h.base_later e u (Int.lt_of_le_of_lt hle he)
  used := by
    intro u
    show (p.state.advance today active p.cfg.tickSeconds).used u = _
    rw [State.advance, State.used_tick, h.resetIfNewDay hle]
    simp only [owed, Process.lockTicker, seen_append, true_and]
    by_cases hu : u ∈ active
    · rw [if_pos hu, if_pos hu, Nat.mul_add, Nat.mul_one, ← Nat.add_assoc, UInt32.ofNat_add _
        p.cfg.tickSeconds.toNat, UInt32.ofNat_toNat]
    · rw [if_neg hu, if_neg hu, Nat.add_zero]

theorem start (cfg : Config) (loaded : State) (today : NaiveDate) (initial : UserSet) :
    Balanced (carried loaded today) (Process.start cfg loaded today initial) today where
  day := State.resetIfNewDay_day loaded today
  ticks_le := by simp [Process.start]
  base_later := by
    intro e u he
    rw [carried, if_neg]
    intro h
    obtain ⟨-, rfl⟩ := h
    exact Int.lt_irrefl e he
  used := by
    intro u
    show (loaded.resetIfNewDay today).1.used u = _
    rw [State.used_resetIfNewDay]
    simp only [owed, Process.start, seen, List.countP_nil, Nat.mul_zero, Nat.add_zero, carried,
      and_true]
    by_cases h : loaded.day = some today
    · rw [if_pos h, if_pos h, UInt32.ofNat_toNat]
    · rw [if_neg h, if_neg h]
      rfl

theorem step {l : TaskStep} (h : Balanced base p d) (hstep : p.step l = some q)
    (hg : OnTime p l q) : ∃ e, d ≤ e ∧ Balanced base q e := by
  rcases step_cases hstep with ⟨active, today, rfl, hp, rfl⟩ | ⟨today, rfl, hp, rfl⟩ |
    ⟨-, hcfg, hstate, -, hticks⟩
  · have hle : d ≤ today := hg today d (lockDate_tickerLock hp) h.day
    exact ⟨today, hle, h.lockTicker hle⟩
  · have hle : d ≤ today := hg today d (lockDate_resetterLock hp) h.day
    exact ⟨today, hle, h.lockResetter hle⟩
  · refine ⟨d, Int.le_refl d, ?_, ?_, h.base_later, ?_⟩
    · rw [hstate]
      exact h.day
    · rw [hticks]
      exact h.ticks_le
    · intro u
      rw [hstate, h.used u, owed, owed, hcfg, hticks]

end Balanced

/-- A process keeps its ledger along a run exactly when the run is on time. -/
theorem keepsLedger_iff_onTime (cfg : Config) (loaded : State) (today : NaiveDate)
    (initial : UserSet) (ls : List TaskStep) :
    (Exact (carried loaded today) (start cfg loaded today initial) ∧
        Transition.Along step (KeepsLedger (carried loaded today))
          (start cfg loaded today initial) ls) ↔
      Transition.Along step OnTime (start cfg loaded today initial) ls := by
  have hstart := Balanced.start cfg loaded today initial
  rw [and_iff_right hstart.exact]
  symm
  refine Transition.along_iff (I := fun p => ∃ d, Balanced (carried loaded today) p d)
    ?_ ?_ ls ⟨today, hstart⟩
  · rintro p l q hstep ⟨d, hd⟩
    constructor
    · intro hg
      obtain ⟨e, hle, he⟩ := hd.step hstep hg
      refine ⟨?_, he.exact⟩
      intro d' e' hd' he'
      have hd₀ : d = d' := Option.some.inj (hd.day.symm.trans hd')
      have he₀ : e = e' := Option.some.inj (he.day.symm.trans he')
      exact hd₀ ▸ he₀ ▸ hle
    · intro hkeep date d' hlock hday
      exact hkeep.1 d' date hday (day_of_lockDate hstep hlock)
  · rintro p l q hstep ⟨d, hd⟩ hg
    obtain ⟨e, -, he⟩ := hd.step hstep hg
    exact ⟨e, he⟩

/-- Readings that never go back do not make a run on time: the ticker reads the
old date, the midnight task reads and applies the new one, and the ticker then
turns the day back. -/
theorem keepsLedger_fails :
    ¬ ∀ (cfg : Config) (loaded : State) (today : NaiveDate) (initial : UserSet)
        (ls : List TaskStep), (today :: ls.filterMap TaskStep.dateRead).Pairwise (· ≤ ·) →
      Transition.Along step (KeepsLedger (carried loaded today))
        (start cfg loaded today initial) ls := by
  intro h
  have hrun := h .defaults .fresh 1 ∅ ([.tickerRead {"alice"} 1, .resetterRead 2, .resetterLock] ++
    .tickerLock :: []) (by decide)
  have hlast := Transition.along_at hrun rfl rfl
  have hback : (2 : Int) ≤ 1 := hlast.1 2 1 rfl rfl
  omega

end Process
end Daemon
end Konstantin
