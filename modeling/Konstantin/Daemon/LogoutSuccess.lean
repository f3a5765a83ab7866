import Konstantin.Daemon.Backoff

/-!
# What a successful logout has seen

`force_logout` against any machine: the commands succeed, report failure or cannot
be run, and the enumerations list whom they like.  A logout that reports success
should have seen the user off the console after its last command.
-/

namespace Konstantin
namespace Daemon

open Effect

/-- The users on the console as they were enumerated since the last command. -/
def see : Option UserSet → Sigma Op.Reply → Option UserSet
  | _, ⟨.consoleUsers, users⟩ => some users
  | _, ⟨.run .., _⟩ => none
  | seen, _ => seen

def lastSeen (trace : List (Sigma Op.Reply)) : Option UserSet := trace.foldl see none

/-- The last enumeration comes after the last command, and does not list the user. -/
def SeenGone (username : String) (trace : List (Sigma Op.Reply)) : Prop :=
  ∃ users, lastSeen trace = some users ∧ username ∉ users

section

variable {σ : Type} (answer : (o : Op) → σ → o.Reply × σ) (username : String) (uid : UInt32)

/-- The machine when the bootouts have settled. -/
def settled (s : σ) : σ :=
  let gui := answer (bootout "gui" uid) s
  let user := answer (bootout "user" uid) gui.2
  (answer (.settle settleAfterBootout) user.2).2

/-- The enumeration made after the settle. -/
def stillActive (s : σ) : UserSet := (answer .consoleUsers (settled answer uid s)).1

/-- What `pkill` would report then. -/
def killed (s : σ) : Except String Bool :=
  (answer (pkill uid) (answer .consoleUsers (settled answer uid s)).2).1

/-- The logout by its commands and what it saw. -/
structure ReportsTruly (s : σ) : Prop where
  bootouts : ∃ rest, ((forceLogout username uid).run answer s).asked =
    bootout "gui" uid :: bootout "user" uid :: .settle settleAfterBootout :: .consoleUsers :: rest
  pkill_iff : pkill uid ∈ ((forceLogout username uid).run answer s).asked ↔
    username ∈ stillActive answer uid s
  ok : ((forceLogout username uid).run answer s).value = .ok () →
    SeenGone username ((forceLogout username uid).trace answer s)

/-- In Logout mode the backoff is stamped only for a user seen to be off the
console.  The instant is read for the stamp alone. -/
def StampsTruly (e : Enforcer) (cfg : Config) (usedS : UInt32) (reason : KickReason)
    (s : σ) : Prop :=
  cfg.enforcement = .logout →
    Op.now ∈ ((e.actOn cfg username uid usedS reason).run answer s).asked →
      SeenGone username ((e.actOn cfg username uid usedS reason).trace answer s)

/-- Where `pkill` is sent, it does not report success. -/
def PkillFails (s : σ) : Prop :=
  username ∈ stillActive answer uid s → killed answer uid s ≠ .ok true

/-! ## One logout -/

/-- The ways a logout can end: its result, and what it asked after the first
enumeration. -/
inductive LogoutEnd (s : σ) : Except String Unit → List (Sigma Op.Reply) → Prop where
  | cleared (hgone : username ∉ stillActive answer uid s) : LogoutEnd s (.ok ()) []
  | unsent (message : String) (hactive : username ∈ stillActive answer uid s)
      (hkilled : killed answer uid s = .error message) (e : String) :
      LogoutEnd s (.error e) [⟨pkill uid, .error message⟩]
  | killed (hactive : username ∈ stillActive answer uid s)
      (hkilled : killed answer uid s = .ok true) : LogoutEnd s (.ok ()) [⟨pkill uid, .ok true⟩]
  | remained (users : UserSet) (hactive : username ∈ stillActive answer uid s)
      (hkilled : killed answer uid s = .ok false) (hremained : username ∈ users) (e : String) :
      LogoutEnd s (.error e) [⟨pkill uid, .ok false⟩, ⟨.consoleUsers, users⟩]
  | left (users : UserSet) (hactive : username ∈ stillActive answer uid s)
      (hkilled : killed answer uid s = .ok false) (hgone : username ∉ users) :
      LogoutEnd s (.ok ()) [⟨pkill uid, .ok false⟩, ⟨.consoleUsers, users⟩]

theorem forceLogout_end (s : σ) :
    ∃ a b c rest, (forceLogout username uid).trace answer s =
        ⟨bootout "gui" uid, a⟩ :: ⟨bootout "user" uid, b⟩ :: ⟨.settle settleAfterBootout, c⟩ ::
          ⟨.consoleUsers, stillActive answer uid s⟩ :: rest ∧
      LogoutEnd answer username uid s ((forceLogout username uid).run answer s).value rest := by
  refine ⟨_, _, _, _, rfl, ?_⟩
  simp only [forceLogout, Program.run]
  split
  · rename_i hgone
    exact .cleared hgone
  · rename_i hnot
    have hactive : username ∈ stillActive answer uid s := not_not.mp hnot
    simp only [Program.run, Program.trace]
    cases hkilled : killed answer uid s with
    | error message =>
      have hreply := hkilled
      simp only [killed, settled] at hreply
      simp only [hreply]
      exact .unsent message hactive hkilled _
    | ok matched =>
      have hreply := hkilled
      simp only [killed, settled] at hreply
      simp only [hreply]
      cases matched with
      | true => exact .killed hactive hkilled
      | false =>
        simp only [Program.run, Program.trace]
        split
        · rename_i hremained
          exact .remained _ hactive hkilled hremained _
        · rename_i hleft
          exact .left _ hactive hkilled hleft

theorem seenGone_iff {trace : List (Sigma Op.Reply)} {seen : Option UserSet}
    (h : lastSeen trace = seen) :
    SeenGone username trace ↔ ∃ users, seen = some users ∧ username ∉ users := by
  rw [SeenGone, h]

theorem lastSeen_stamped (path : Fs.Path) (present : Bool) (trace : List (Sigma Op.Reply))
    (t : Nat) :
    lastSeen (⟨.killSwitchExists path, present⟩ :: (trace ++ [⟨.now, t⟩])) = lastSeen trace := by
  rw [lastSeen, List.foldl_cons, List.foldl_append]
  rfl

/-- What a logout that reports success has seen. -/
theorem seenGone_of_end {s : σ} {r : Except String Unit} {rest : List (Sigma Op.Reply)}
    (h : LogoutEnd answer username uid s r rest) (hok : r = .ok ()) :
    (∃ users, rest.foldl see (some (stillActive answer uid s)) = some users ∧ username ∉ users) ↔
      PkillFails answer username uid s := by
  cases h with
  | cleared hgone => exact ⟨fun _ hactive => absurd hactive hgone, fun _ => ⟨_, rfl, hgone⟩⟩
  | unsent => cases hok
  | killed hactive hkilled =>
    refine ⟨fun ⟨users, hseen, _⟩ => ?_, fun hfails => absurd hkilled (hfails hactive)⟩
    cases hseen
  | remained => cases hok
  | left users hactive hkilled hgone =>
    refine ⟨fun _ _ htrue => ?_, fun _ => ⟨users, rfl, hgone⟩⟩
    rw [hkilled] at htrue
    cases htrue

theorem pkillFails_of_error {s : σ} {r : Except String Unit} {rest : List (Sigma Op.Reply)}
    (h : LogoutEnd answer username uid s r rest) (hr : r ≠ .ok ()) :
    PkillFails answer username uid s := by
  intro hactive htrue
  cases h with
  | unsent _ _ hkilled => cases hkilled.symm.trans htrue
  | remained _ _ hkilled => cases hkilled.symm.trans htrue
  | cleared => exact hr rfl
  | killed => exact hr rfl
  | left => exact hr rfl

theorem pkill_mem_end {s : σ} {r : Except String Unit} {rest : List (Sigma Op.Reply)}
    (h : LogoutEnd answer username uid s r rest) :
    pkill uid ∈ rest.map Sigma.fst ↔ username ∈ stillActive answer uid s := by
  cases h with
  | cleared hgone => exact ⟨fun hmem => absurd hmem List.not_mem_nil, fun h => absurd h hgone⟩
  | unsent _ hactive => exact ⟨fun _ => hactive, fun _ => List.mem_cons_self⟩
  | killed hactive => exact ⟨fun _ => hactive, fun _ => List.mem_cons_self⟩
  | remained _ hactive => exact ⟨fun _ => hactive, fun _ => List.mem_cons_self⟩
  | left _ hactive => exact ⟨fun _ => hactive, fun _ => List.mem_cons_self⟩

theorem now_not_mem_end {s : σ} {r : Except String Unit} {rest : List (Sigma Op.Reply)}
    (h : LogoutEnd answer username uid s r rest) : Op.now ∉ rest.map Sigma.fst := by
  cases h <;> simp [pkill]

theorem reportsTruly_iff (s : σ) :
    ReportsTruly answer username uid s ↔ PkillFails answer username uid s := by
  obtain ⟨a, b, c, rest, htrace, hend⟩ := forceLogout_end answer username uid s
  have hasked : ((forceLogout username uid).run answer s).asked = _ :=
    (forceLogout username uid).asked_eq_trace s
  rw [htrace] at hasked
  have hlast : lastSeen ((forceLogout username uid).trace answer s) =
      rest.foldl see (some (stillActive answer uid s)) := by
    rw [htrace]
    rfl
  have hseen := seenGone_iff username hlast
  constructor
  · intro h
    by_cases hr : ((forceLogout username uid).run answer s).value = .ok ()
    · exact (seenGone_of_end answer username uid hend hr).mp (hseen.mp (h.ok hr))
    · exact pkillFails_of_error answer username uid hend hr
  · intro hfails
    refine ⟨⟨_, hasked⟩, ?_, fun hr => ?_⟩
    · rw [hasked, ← pkill_mem_end answer username uid hend]
      simp [pkill, bootout]
    · exact hseen.mpr ((seenGone_of_end answer username uid hend hr).mpr hfails)

/-! ## The stamp -/

theorem stampsTruly_iff (e : Enforcer) (cfg : Config) (usedS : UInt32) (reason : KickReason)
    (s : σ) :
    StampsTruly answer username uid e cfg usedS reason s ↔
      (cfg.enforcement = .logout → (answer (.killSwitchExists cfg.killSwitchPath) s).1 = false →
        PkillFails answer username uid (answer (.killSwitchExists cfg.killSwitchPath) s).2) := by
  unfold StampsTruly
  refine forall_congr' fun hmode => ?_
  rw [Program.asked_eq_trace]
  simp only [Enforcer.actOn, Program.trace, hmode]
  split
  · rename_i hpresent
    refine ⟨fun _ habsent => ?_, fun _ hnow => ?_⟩
    · rw [hpresent] at habsent
      cases habsent
    · simp [Program.trace] at hnow
  · rename_i hnot
    have habsent : (answer (.killSwitchExists cfg.killSwitchPath) s).1 = false :=
      eq_false_of_ne_true hnot
    rw [Program.trace_bind]
    generalize (answer (.killSwitchExists cfg.killSwitchPath) s).2 = s'
    obtain ⟨a, b, c, rest, htrace, hend⟩ := forceLogout_end answer username uid s'
    rw [htrace]
    cases hr : ((forceLogout username uid).run answer s').value with
    | error message =>
      rw [hr] at hend
      have hnow := now_not_mem_end answer username uid hend
      refine ⟨fun _ _ => pkillFails_of_error answer username uid hend (by simp), fun _ hmem => ?_⟩
      exact absurd hmem (by simpa [Program.trace, bootout] using hnow)
    | ok u =>
      rw [← seenGone_of_end answer username uid hend hr]
      have hmem : ∀ (present : Bool) (trace : List (Sigma Op.Reply)) (t : Nat),
          Op.now ∈ (⟨.killSwitchExists cfg.killSwitchPath, present⟩ ::
            (trace ++ [⟨.now, t⟩]) : List (Sigma Op.Reply)).map Sigma.fst := by
        intro present trace t
        simp
      refine ⟨fun h _ => ?_, fun h _ => ?_⟩
      · exact (seenGone_iff username (lastSeen_stamped _ _ _ _)).mp (h (hmem _ _ _))
      · exact (seenGone_iff username (lastSeen_stamped _ _ _ _)).mpr (h habsent)

/-- Nothing is stamped where the instant is not read. -/
theorem actOn_unstamped (e : Enforcer) (cfg : Config) (usedS : UInt32) (reason : KickReason)
    (s : σ) (h : Op.now ∉ ((e.actOn cfg username uid usedS reason).run answer s).asked) :
    ((e.actOn cfg username uid usedS reason).run answer s).value = e := by
  revert h
  simp only [Enforcer.actOn, Program.run]
  split
  · exact fun _ => rfl
  · cases cfg.enforcement with
    | log =>
      intro h
      exact absurd (by simp [Program.run]) h
    | logout =>
      dsimp only
      rw [Program.run_bind]
      dsimp only
      cases ((forceLogout username uid).run answer
        (answer (.killSwitchExists cfg.killSwitchPath) s).2).value with
      | error message => exact fun _ => rfl
      | ok u =>
        intro h
        exact absurd (by simp [Program.run]) h

/-- Success and stamp are true of what was seen exactly where `pkill`, if it is
sent, does not report success: there nobody looks again. -/
theorem logout_true_iff (e : Enforcer) (cfg : Config) (usedS : UInt32) (reason : KickReason)
    (s : σ) :
    (ReportsTruly answer username uid s ↔ PkillFails answer username uid s) ∧
      (StampsTruly answer username uid e cfg usedS reason s ↔
        (cfg.enforcement = .logout →
          (answer (.killSwitchExists cfg.killSwitchPath) s).1 = false →
            PkillFails answer username uid
              (answer (.killSwitchExists cfg.killSwitchPath) s).2)) :=
  ⟨reportsTruly_iff answer username uid s,
    stampsTruly_iff answer username uid e cfg usedS reason s⟩

end

/-- The machine of a user who is on the console at each look, and whom `pkill` hits. -/
def staying : Visit where
  username := "alice"
  uid := some 601
  killSwitch := false
  ran := [.ok true, .ok true, .ok true]
  console := [{"alice"}, {"alice"}]
  finished := 0

theorem logout_true_fails :
    ¬ ReportsTruly Visit.answer "alice" 601 staying ∧
      ¬ StampsTruly Visit.answer "alice" 601 .new { Config.defaults with enforcement := .logout }
        3600 .limitReached staying := by
  have hkilled : ¬ PkillFails Visit.answer "alice" 601 staying :=
    fun h => h (by decide) rfl
  refine ⟨fun h => hkilled ((reportsTruly_iff _ _ _ _).mp h), fun h => hkilled ?_⟩
  exact (stampsTruly_iff _ _ _ _ _ _ _ _).mp h rfl rfl

end Daemon
end Konstantin
