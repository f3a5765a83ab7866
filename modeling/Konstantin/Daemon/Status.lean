import Konstantin.Daemon.Process
import Konstantin.Daemon.Time

/-!
# The status sent to a client

`compute_status` of `crates/daemon/src/ipc.rs`.  It reads the counters under the
state lock, releases the lock, and then reads the clock to tell when the counters
are next given back.  Anything may happen between the two readings.

`Serving` is a daemon process with its clock and the status computations of its
connections.
-/

namespace Konstantin
namespace Daemon

open Calendar

inductive SessionState where
  | active
  | paused
  | limitReached
  | offline
  | notConfigured
  deriving DecidableEq

structure UserStatus where
  uid : UInt32
  username : String
  state : SessionState
  dailyLimitSeconds : UInt32
  usedSeconds : UInt32
  remainingSeconds : Int
  resetsAt : Int
  warnThresholdsMinutes : List UInt32
  deriving DecidableEq

def sessionState (cfg : Config) (username : String) (used : UInt32) (active : Bool) :
    SessionState × UInt32 :=
  match cfg.userByName username with
  | none => (.notConfigured, 0)
  | some u =>
    let limit := Config.limitSeconds u
    (if used ≥ limit then .limitReached else if active then .active else .offline, limit)

/-- The rest of `compute_status` once the lock is released: `s` is what was read
under it, `resetsAt` the next local midnight. -/
def computeStatus (username : String) (uid : UInt32) (cfg : Config) (s : State)
    (resetsAt : Int) : UserStatus :=
  let used := s.used username
  let session := sessionState cfg username used (s.isActive username)
  { uid := uid
    username := username
    state := session.1
    dailyLimitSeconds := session.2
    usedSeconds := used
    remainingSeconds := (session.2.toNat : Int) - (used.toNat : Int)
    resetsAt := resetsAt
    warnThresholdsMinutes := cfg.warnThresholdsMinutes }

theorem sessionState_limitReached_mono {cfg : Config} {username : String} {used more : UInt32}
    {active active' : Bool} (hle : used ≤ more)
    (h : (sessionState cfg username used active).1 = .limitReached) :
    (sessionState cfg username more active').1 = .limitReached := by
  unfold sessionState at h ⊢
  cases hu : cfg.userByName username with
  | none => simp [hu] at h
  | some u =>
    simp only [hu] at h ⊢
    by_cases hlimit : used ≥ Config.limitSeconds u
    · rw [if_pos (UInt32.le_trans hlimit hle)]
    · rw [if_neg hlimit] at h
      cases active <;> cases h

/-- A status computation between its two readings: the state read under the lock,
and when. -/
structure Call where
  username : String
  uid : UInt32
  state : State
  readAt : Int

/-- A process, its clock, the calls under way on its connections, and the
statuses sent so far with the state each was read from. -/
structure Serving where
  clock : Int
  process : Process
  calls : Nat → Option Call
  sent : List (State × UserStatus)

inductive ServingStep where
  | advance (by_ : Nat)
  | task (l : TaskStep)
  | read (connection : Nat) (username : String) (uid : UInt32)
  | send (connection : Nat)

namespace Serving

def start (offset : Int) (clock : Int) (cfg : Config) (loaded : State) (initial : UserSet) :
    Serving where
  clock := clock
  process := Process.start cfg loaded ((Zone.fixed offset).localDate clock) initial
  calls := fun _ => none
  sent := []

def setCall (s : Serving) (c : Nat) (call : Option Call) : Serving :=
  { s with calls := fun k => if k = c then call else s.calls k }

/-- One step in a zone of constant offset.  A task reads its date from the clock. -/
def step (offset : Int) (s : Serving) : ServingStep → Option Serving
  | .advance n => some { s with clock := s.clock + n }
  | .task l =>
    if ∀ d ∈ l.dateRead, d = (Zone.fixed offset).localDate s.clock then
      (s.process.step l).map fun p => { s with process := p }
    else none
  | .read c username uid =>
    some (s.setCall c (some ⟨username, uid, s.process.state, s.clock⟩))
  | .send c =>
    (s.calls c).map fun call =>
      { s.setCall c none with
        sent := s.sent ++ [(call.state,
          computeStatus call.username call.uid s.process.cfg call.state
            (nextLocalMidnightAfter (.fixed offset) s.clock))] }

/-- The counters of a status are those of the date that ends when they are given
back. -/
def Unmixed (offset : Int) (e : State × UserStatus) : Prop :=
  e.2.usedSeconds = e.1.used e.2.username ∧
    ∃ d : Int, e.1.day = some d ∧ midnight (Zone.fixed offset) (d + 1) = some e.2.resetsAt

def SendsUnmixed (offset : Int) (_ : Serving) (_ : ServingStep) (t : Serving) : Prop :=
  ∀ e ∈ t.sent, Unmixed offset e

/-- A status is sent on the date on which its counters were read, and the state
was on that date. -/
def OneDay (offset : Int) (s : Serving) (l : ServingStep) (_ : Serving) : Prop :=
  ∀ c call, l = .send c → s.calls c = some call →
    call.state.day = some ((Zone.fixed offset).localDate call.readAt) ∧
      (Zone.fixed offset).localDate call.readAt = (Zone.fixed offset).localDate s.clock

/-! ## Dates never run ahead of the clock -/

theorem localDate_fixed_mono (offset : Int) {a b : Int} (h : a ≤ b) :
    (Zone.fixed offset).localDate a ≤ (Zone.fixed offset).localDate b := by
  simp only [Zone.localDate_fixed, day]
  omega

structure Current (offset : Int) (s : Serving) : Prop where
  day : ∀ d, s.process.state.day = some d → d ≤ (Zone.fixed offset).localDate s.clock
  pending : ∀ d, s.process.Pending d → d ≤ (Zone.fixed offset).localDate s.clock
  readAt : ∀ c call, s.calls c = some call → call.readAt ≤ s.clock
  readDay : ∀ c call d, s.calls c = some call → call.state.day = some d →
    d ≤ (Zone.fixed offset).localDate call.readAt
  sent : ∀ e ∈ s.sent, Unmixed offset e

theorem current_start (offset clock : Int) (cfg : Config) (loaded : State) (initial : UserSet) :
    Current offset (start offset clock cfg loaded initial) where
  day := by
    intro d hd
    have hday : (start offset clock cfg loaded initial).process.state.day = _ :=
      State.resetIfNewDay_day loaded ((Zone.fixed offset).localDate clock)
    rw [hday] at hd
    cases hd
    exact Int.le_refl _
  pending := by
    rintro d (⟨active, h⟩ | h) <;> cases h
  readAt := fun c call h => by cases h
  readDay := fun c call d h => by cases h
  sent := fun e h => by cases h

theorem unmixed_iff {offset : Int} {s : State} {cfg : Config} {username : String} {uid : UInt32}
    {clock : Int} :
    Unmixed offset (s, computeStatus username uid cfg s
        (nextLocalMidnightAfter (.fixed offset) clock)) ↔
      s.day = some ((Zone.fixed offset).localDate clock) := by
  have hresets : nextLocalMidnightAfter (.fixed offset) clock = _ :=
    nextLocalMidnightAfter_fixed offset clock
  constructor
  · intro h
    obtain ⟨-, d, hd, hmid⟩ := h
    rw [midnight_fixed, computeStatus, hresets] at hmid
    have heq := Option.some.inj hmid
    have hsame : d = (Zone.fixed offset).localDate clock := by
      simp only [Calendar.day] at heq
      omega
    rw [hd, hsame]
  · intro h
    refine ⟨rfl, (Zone.fixed offset).localDate clock, h, ?_⟩
    rw [midnight_fixed, computeStatus, hresets]

namespace Current

variable {offset : Int} {s t : Serving}

theorem advance (h : Current offset s) (n : Nat) :
    Current offset { s with clock := s.clock + n } where
  day := by
    intro d hd
    have hmono : s.clock ≤ s.clock + n := by omega
    exact Int.le_trans (h.day d hd) (localDate_fixed_mono offset hmono)
  pending := by
    intro d hd
    have hmono : s.clock ≤ s.clock + n := by omega
    exact Int.le_trans (h.pending d hd) (localDate_fixed_mono offset hmono)
  readAt := by
    intro c call hc
    have hle : call.readAt ≤ s.clock := h.readAt c call hc
    show call.readAt ≤ s.clock + n
    omega
  readDay := h.readDay
  sent := h.sent

theorem task (h : Current offset s) {l : TaskStep} {p : Process}
    (hread : ∀ d ∈ l.dateRead, d = (Zone.fixed offset).localDate s.clock)
    (hstep : s.process.step l = some p) : Current offset { s with process := p } where
  day := by
    intro d hd
    rcases Process.day_step hstep with hsame | ⟨e, hpend, hday⟩
    · exact h.day d (hsame ▸ hd)
    · have hed : e = d := Option.some.inj (hday.symm.trans hd)
      exact h.pending d (hed ▸ hpend)
  pending := by
    intro d hd
    rcases Process.pending_step hstep hd with hold | hnew
    · exact h.pending d hold
    · exact Int.le_of_eq (hread d hnew)
  readAt := h.readAt
  readDay := h.readDay
  sent := h.sent

theorem of_setCall {c k : Nat} {o : Option Call} {call : Call}
    (hk : (s.setCall c o).calls k = some call) : o = some call ∨ s.calls k = some call := by
  by_cases hkc : k = c
  · exact Or.inl ((if_pos hkc).symm.trans hk)
  · exact Or.inr ((if_neg hkc).symm.trans hk)

theorem read (h : Current offset s) (c : Nat) (username : String) (uid : UInt32) :
    Current offset (s.setCall c (some ⟨username, uid, s.process.state, s.clock⟩)) where
  day := h.day
  pending := h.pending
  readAt := by
    intro k call hk
    rcases of_setCall hk with hnew | hold
    · cases hnew
      exact Int.le_refl s.clock
    · exact h.readAt k call hold
  readDay := by
    intro k call d hk hd
    rcases of_setCall hk with hnew | hold
    · cases hnew
      exact h.day d hd
    · exact h.readDay k call d hold hd
  sent := h.sent

theorem send (h : Current offset s) (c : Nat) {e : State × UserStatus} (he : Unmixed offset e) :
    Current offset { s.setCall c none with sent := s.sent ++ [e] } where
  day := h.day
  pending := h.pending
  readAt := by
    intro k call hk
    rcases of_setCall hk with hnew | hold
    · cases hnew
    · exact h.readAt k call hold
  readDay := by
    intro k call d hk hd
    rcases of_setCall hk with hnew | hold
    · cases hnew
    · exact h.readDay k call d hold hd
  sent := by
    intro f hf
    rcases List.mem_append.mp hf with hold | hnew
    · exact h.sent f hold
    · rw [List.mem_singleton.mp hnew]
      exact he

/-- The state a call read was on the date on which it is answered exactly when it
was on the date of the reading and that date is not over. -/
theorem day_iff (h : Current offset s) {c : Nat} {call : Call} (hc : s.calls c = some call) :
    call.state.day = some ((Zone.fixed offset).localDate s.clock) ↔
      call.state.day = some ((Zone.fixed offset).localDate call.readAt) ∧
        (Zone.fixed offset).localDate call.readAt = (Zone.fixed offset).localDate s.clock := by
  constructor
  · intro hday
    have hle := h.readDay c call _ hc hday
    have hmono := localDate_fixed_mono offset (h.readAt c call hc)
    have heq : (Zone.fixed offset).localDate call.readAt = (Zone.fixed offset).localDate s.clock :=
      Int.le_antisymm hmono hle
    exact ⟨heq ▸ hday, heq⟩
  · intro h
    obtain ⟨hday, heq⟩ := h
    rw [hday, heq]

end Current

/-- Every step but the sending of a status is harmless, and a status is unmixed
exactly when it is sent within one day. -/
theorem current_step {offset : Int} {s t : Serving} {l : ServingStep} (h : Current offset s)
    (hstep : step offset s l = some t) :
    (OneDay offset s l t ↔ SendsUnmixed offset s l t) ∧ (SendsUnmixed offset s l t →
      Current offset t) := by
  cases l with
  | advance n =>
    cases hstep
    exact ⟨⟨fun _ => h.sent, fun _ c call hl => by cases hl⟩, fun _ => h.advance n⟩
  | task l =>
    simp only [step] at hstep
    split at hstep
    · rename_i hread
      obtain ⟨p, hp, rfl⟩ := Option.map_eq_some_iff.mp hstep
      exact ⟨⟨fun _ => h.sent, fun _ c call hl => by cases hl⟩, fun _ => h.task hread hp⟩
    · cases hstep
  | read c username uid =>
    cases hstep
    exact ⟨⟨fun _ => h.sent, fun _ c call hl => by cases hl⟩, fun _ => h.read c username uid⟩
  | send c =>
    obtain ⟨call, hc, rfl⟩ := Option.map_eq_some_iff.mp hstep
    have hlast : ∀ e, (∀ f ∈ s.sent ++ [e], Unmixed offset f) ↔ Unmixed offset e := by
      intro e
      rw [List.forall_mem_append, List.forall_mem_singleton]
      exact and_iff_right h.sent
    have hone : ∀ t, OneDay offset s (.send c) t ↔
        call.state.day = some ((Zone.fixed offset).localDate s.clock) := by
      intro t
      rw [h.day_iff hc]
      constructor
      · exact fun hone => hone c call rfl hc
      · intro hday k other hk hother
        cases hk
        rw [hc] at hother
        cases hother
        exact hday
    refine ⟨?_, fun hsent => h.send c ((hlast _).mp hsent)⟩
    exact (hone _).trans (unmixed_iff.symm.trans (hlast _).symm)

/-- A run sends no mixed status exactly when every status is sent within one day. -/
theorem sendsUnmixed_iff_oneDay (offset clock : Int) (cfg : Config) (loaded : State)
    (initial : UserSet) (ls : List ServingStep) :
    Transition.Along (step offset) (SendsUnmixed offset) (start offset clock cfg loaded initial)
        ls ↔
      Transition.Along (step offset) (OneDay offset) (start offset clock cfg loaded initial)
        ls := by
  symm
  refine Transition.along_iff (I := Current offset) ?_ ?_ ls
    (current_start offset clock cfg loaded initial)
  · exact fun s l t hstep h => (current_step h hstep).1
  · intro s l t hstep h hg
    exact (current_step h hstep).2 ((current_step h hstep).1.mp hg)

/-- One second before midnight the state is read, and the status is sent at
midnight: it gives the seconds of the day that is over and the midnight after the
new one. -/
theorem sendsUnmixed_fails :
    ¬ ∀ (offset clock : Int) (cfg : Config) (loaded : State) (initial : UserSet)
        (ls : List ServingStep),
      Transition.Along (step offset) (SendsUnmixed offset)
        (start offset clock cfg loaded initial) ls := by
  intro h
  have hrun := h 0 (86399 * 10 ^ 9) .defaults .fresh ∅
    ([.read 0 "alice" 501, .advance (10 ^ 9)] ++ .send 0 :: [])
  have hlast := Transition.along_at hrun rfl rfl
  obtain ⟨-, d, hd, hmid⟩ := hlast _ (List.mem_cons_self)
  have hday : (0 : Int) = d := Option.some.inj hd
  subst hday
  exact absurd hmid (by decide)

end Serving

end Daemon
end Konstantin
