import Konstantin.Daemon.Enforcement
import Konstantin.Daemon.Status

/-!
# The status a user sees and the decision that is made

`compute_status` and `decide` take the limit from the configuration and compare it
with the counter, each for itself.  The counters of users without a limit advance
too, and their limit in a status is zero.
-/

namespace Konstantin
namespace Daemon

/-- A `u32` as an `i64`. -/
def asI64 (n : UInt32) : Int64 := Int64.ofInt n.toNat

/-- `remaining_seconds` as it is computed. -/
def remainingI64 (dailyLimitSeconds used : UInt32) : Int64 := asI64 dailyLimitSeconds - asI64 used

theorem toInt_remainingI64 (dailyLimitSeconds used : UInt32) :
    (remainingI64 dailyLimitSeconds used).toInt = dailyLimitSeconds.toNat - used.toNat := by
  have hlimit := dailyLimitSeconds.toNat_lt
  have hused := used.toNat_lt
  rw [remainingI64, asI64, asI64, ← Int64.ofInt_sub]
  exact Int64.toInt_ofInt_of_le (by omega) (by omega)

/-- More seconds are counted than the user is allowed. -/
def OverLimit (cfg : Config) (username : String) (used : UInt32) : Prop :=
  ∃ u, cfg.userByName username = some u ∧ Config.limitSeconds u < used

/-- A status against the decision on the same counter, without backoff. -/
structure Agrees (cfg : Config) (username : String) (s : State) (status : UserStatus) : Prop where
  state : ∀ now, status.state = .limitReached ↔
    Enforcement.decide cfg username ((s.counters.lookup username).getD 0) none now =
      .kick .limitReached
  remaining : status.remainingSeconds = status.dailyLimitSeconds.toNat - status.usedSeconds.toNat ∧
    status.remainingSeconds =
      (remainingI64 status.dailyLimitSeconds status.usedSeconds).toInt
  configured : cfg.userByName username ≠ none →
    (status.remainingSeconds ≤ 0 ↔ status.state = .limitReached) ∧
      (0 < status.remainingSeconds ↔ status.state = .active ∨ status.state = .offline)
  negative : status.remainingSeconds < 0 →
    OverLimit cfg username ((s.counters.lookup username).getD 0)

section

variable (cfg : Config) (username : String) (uid : UInt32) (s : State) (resetsAt : Int)

theorem computeStatus_none (h : cfg.userByName username = none) :
    (computeStatus username uid cfg s resetsAt).state = .notConfigured ∧
      (computeStatus username uid cfg s resetsAt).remainingSeconds = -(s.used username).toNat := by
  have hsession : sessionState cfg username (s.used username) (s.isActive username) =
      (.notConfigured, 0) := by rw [sessionState, h]
  rw [computeStatus, hsession]
  exact ⟨rfl, by simp⟩

theorem computeStatus_some {u : UserConfig} (h : cfg.userByName username = some u) :
    (computeStatus username uid cfg s resetsAt).state =
        (if s.used username ≥ Config.limitSeconds u then .limitReached
          else if s.isActive username then .active else .offline) ∧
      (computeStatus username uid cfg s resetsAt).remainingSeconds =
        (Config.limitSeconds u).toNat - (s.used username).toNat := by
  have hsession : sessionState cfg username (s.used username) (s.isActive username) =
      (if s.used username ≥ Config.limitSeconds u then .limitReached
        else if s.isActive username then .active else .offline, Config.limitSeconds u) := by
    rw [sessionState, h]
  rw [computeStatus, hsession]
  exact ⟨rfl, rfl⟩

theorem state_iff_decide (now : Nat) :
    (computeStatus username uid cfg s resetsAt).state = .limitReached ↔
      Enforcement.decide cfg username ((s.counters.lookup username).getD 0) none now =
        .kick .limitReached := by
  show _ ↔ Enforcement.wanted cfg username (s.used username) = _
  cases hu : cfg.userByName username with
  | none =>
    rw [(computeStatus_none cfg username uid s resetsAt hu).1, Enforcement.wanted, hu]
    cases cfg.defaultPolicy <;> simp
  | some u =>
    rw [(computeStatus_some cfg username uid s resetsAt hu).1, Enforcement.wanted, hu]
    by_cases hreached : s.used username ≥ Config.limitSeconds u
    · simp [hreached]
    · cases s.isActive username <;> simp [hreached]

theorem configured_sign {u : UserConfig} (h : cfg.userByName username = some u) :
    ((computeStatus username uid cfg s resetsAt).remainingSeconds ≤ 0 ↔
        (computeStatus username uid cfg s resetsAt).state = .limitReached) ∧
      (0 < (computeStatus username uid cfg s resetsAt).remainingSeconds ↔
        (computeStatus username uid cfg s resetsAt).state = .active ∨
          (computeStatus username uid cfg s resetsAt).state = .offline) := by
  obtain ⟨hstate, hremaining⟩ := computeStatus_some cfg username uid s resetsAt h
  rw [hstate, hremaining]
  by_cases hreached : s.used username ≥ Config.limitSeconds u
  · have hle := UInt32.le_iff_toNat_le.mp hreached
    rw [if_pos hreached]
    refine ⟨⟨fun _ => rfl, fun _ => by omega⟩, fun hpos => by omega, fun hstate => ?_⟩
    rcases hstate with hstate | hstate <;> cases hstate
  · have hlt : (s.used username).toNat < (Config.limitSeconds u).toNat := by
      have hnot := mt UInt32.le_iff_toNat_le.mpr hreached
      omega
    rw [if_neg hreached]
    refine ⟨⟨fun hneg => by omega, fun hstate => ?_⟩, fun _ => ?_, fun _ => by omega⟩
    · cases hactive : s.isActive username <;> rw [hactive] at hstate <;> cases hstate
    · cases s.isActive username with
      | false => exact Or.inr rfl
      | true => exact Or.inl rfl

theorem negative_iff :
    ((computeStatus username uid cfg s resetsAt).remainingSeconds < 0 →
        OverLimit cfg username ((s.counters.lookup username).getD 0)) ↔
      (cfg.userByName username ≠ none ∨ s.used username = 0) := by
  cases hu : cfg.userByName username with
  | none =>
    rw [(computeStatus_none cfg username uid s resetsAt hu).2]
    have hnot : ¬ OverLimit cfg username ((s.counters.lookup username).getD 0) := by
      rintro ⟨u, hsome, -⟩
      rw [hu] at hsome
      cases hsome
    constructor
    · intro h
      refine Or.inr (UInt32.toNat_inj.mp ?_)
      by_cases hzero : (s.used username).toNat = 0
      · exact hzero
      · exact absurd (h (by omega)) hnot
    · rintro (habsurd | hzero) hneg
      · exact absurd rfl habsurd
      · rw [hzero] at hneg
        exact absurd hneg (by decide)
  | some u =>
    rw [(computeStatus_some cfg username uid s resetsAt hu).2]
    refine ⟨fun _ => Or.inl (Option.some_ne_none u), fun _ hneg => ⟨u, hu, ?_⟩⟩
    refine UInt32.lt_iff_toNat_lt.mpr ?_
    show _ < (s.used username).toNat
    omega

/-- A status agrees with the decisions exactly for users with a limit, and for
others while nothing is counted for them. -/
theorem agrees_iff :
    Agrees cfg username s (computeStatus username uid cfg s resetsAt) ↔
      (cfg.userByName username ≠ none ∨ s.used username = 0) := by
  refine ⟨fun h => (negative_iff cfg username uid s resetsAt).mp h.negative, fun h => ?_⟩
  exact
    { state := state_iff_decide cfg username uid s resetsAt
      remaining := ⟨rfl, (toInt_remainingI64 _ _).symm⟩
      configured := fun hne => by
        obtain ⟨u, hu⟩ := Option.ne_none_iff_exists'.mp hne
        exact configured_sign cfg username uid s resetsAt hu
      negative := (negative_iff cfg username uid s resetsAt).mpr h }

end

/-- A user without a limit, after one tick. -/
theorem agrees_fails :
    ¬ Agrees Config.defaults "bob" (State.fresh.tick {"bob"} 5)
      (computeStatus "bob" 502 Config.defaults (State.fresh.tick {"bob"} 5) 0) := by
  intro h
  obtain ⟨u, hu, -⟩ := h.negative (by decide)
  cases hu

end Daemon
end Konstantin
