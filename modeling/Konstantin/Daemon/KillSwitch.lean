import Konstantin.Daemon.Enforcement
import Konstantin.Transition

/-!
# The kill switch and a running escalation

`Enforcer::act_on` looks for the marker file once and then goes through the whole
chain of `force_logout`.  Here an operator makes and removes the marker between
any two steps of the chain.
-/

namespace Konstantin
namespace Daemon

open Fs Effect

/-- What is left of an escalation, and the marker.  `checked` and `touched` are
bookkeeping: whether the escalation has looked for the marker, and what the
operator last did to it since. -/
structure Escalation where
  program : Program Op Op.Reply Enforcer
  marker : Bool
  checked : Bool
  touched : Option Bool

inductive EscalationStep where
  | touch
  | remove
  | reply (r : (o : Op) → o.Reply)

namespace Escalation

def start (e : Enforcer) (cfg : Config) (username : String) (uid usedS : UInt32)
    (reason : KickReason) (marker : Bool) : Escalation where
  program := e.actOn cfg username uid usedS reason
  marker := marker
  checked := false
  touched := none

/-- The replies of the machine are arbitrary, but for that on the marker. -/
def answer (marker : Bool) (r : (o : Op) → o.Reply) : (o : Op) → o.Reply
  | .killSwitchExists _ => marker
  | o => r o

def step (s : Escalation) : EscalationStep → Option Escalation
  | .touch => some { s with marker := true, touched := some true }
  | .remove => some { s with marker := false, touched := some false }
  | .reply r =>
    match s.program with
    | .done _ => none
    | .ask o k =>
      some
        { program := k (answer s.marker r o)
          marker := s.marker
          checked := s.checked || o.isCheck
          touched := if o.isCheck then none else s.touched }

def StartsCommand (s : Escalation) (l : EscalationStep) : Prop :=
  ∃ r o k, l = .reply r ∧ s.program = .ask o k ∧ o.isCommand = true

def RespectsMarker (s : Escalation) (l : EscalationStep) (_ : Escalation) : Prop :=
  s.StartsCommand l → s.marker = false

/-- No command is started after the operator made the marker behind the check,
unless he removed it again. -/
def NotTouchedBehind (s : Escalation) (l : EscalationStep) (_ : Escalation) : Prop :=
  s.StartsCommand l → s.touched ≠ some true

/-- Nothing is asked but commands and what goes with them. -/
def CheckedOnce (p : Program Op Op.Reply Enforcer) : Prop := p.All fun o => o.isCheck = false

def Quiet (p : Program Op Op.Reply Enforcer) : Prop := p.All fun o => o.isCommand = false

/-- Before the check the escalation is whole; after it the marker is there only
if it was made since, unless the escalation issues no command any more. -/
inductive Sound : Escalation → Prop
  | whole (e : Enforcer) (cfg : Config) (username : String) (uid usedS : UInt32)
      (reason : KickReason) (marker : Bool) (touched : Option Bool) :
      Sound ⟨e.actOn cfg username uid usedS reason, marker, false, touched⟩
  | refused (p : Program Op Op.Reply Enforcer) (marker : Bool) (touched : Option Bool)
      (hquiet : Quiet p) : Sound ⟨p, marker, true, touched⟩
  | going (p : Program Op Op.Reply Enforcer) (touched : Option Bool) (honce : CheckedOnce p) :
      Sound ⟨p, touched.getD false, true, touched⟩

theorem checkedOnce_forceLogout (username : String) (uid : UInt32) :
    (forceLogout username uid).All fun o => o.isCheck = false := by
  refine ⟨rfl, fun _ => ⟨rfl, fun _ => ⟨rfl, fun _ => ⟨rfl, fun stillActive => ?_⟩⟩⟩⟩
  dsimp only
  split
  · trivial
  · refine ⟨rfl, fun status => ?_⟩
    dsimp only
    split
    · trivial
    · trivial
    · refine ⟨rfl, fun after => ?_⟩
      dsimp only
      split <;> trivial

theorem checkedOnce_rest (e : Enforcer) (cfg : Config) (username : String) (uid usedS : UInt32)
    (reason : KickReason) :
    ∃ k, e.actOn cfg username uid usedS reason = .ask (.killSwitchExists cfg.killSwitchPath) k ∧
      k true = .done e ∧ CheckedOnce (k false) := by
  refine ⟨_, rfl, rfl, ?_⟩
  simp only [Bool.false_eq_true, if_false]
  cases cfg.enforcement with
  | log => exact ⟨rfl, fun _ => ⟨rfl, fun _ => trivial⟩⟩
  | logout =>
    refine Program.all_bind (checkedOnce_forceLogout username uid) fun result => ?_
    cases result with
    | ok u => exact ⟨rfl, fun _ => trivial⟩
    | error msg => trivial

theorem sound_step {s t : Escalation} {l : EscalationStep} (hs : Sound s)
    (hstep : s.step l = some t) : Sound t := by
  cases hs with
  | whole e cfg username uid usedS reason marker touched =>
    obtain ⟨k, hprogram, hrefused, honce⟩ := checkedOnce_rest e cfg username uid usedS reason
    cases l with
    | touch =>
      cases hstep
      exact .whole e cfg username uid usedS reason true (some true)
    | remove =>
      cases hstep
      exact .whole e cfg username uid usedS reason false (some false)
    | reply r =>
      simp only [step, hprogram] at hstep
      cases hstep
      cases marker with
      | true => exact .refused _ _ _ (hrefused ▸ trivial)
      | false => exact .going _ none honce
  | refused p marker touched hquiet =>
    cases l with
    | touch =>
      cases hstep
      exact .refused p true (some true) hquiet
    | remove =>
      cases hstep
      exact .refused p false (some false) hquiet
    | reply r =>
      cases p with
      | done e => cases hstep
      | ask o k =>
        cases hstep
        exact .refused _ marker _ (hquiet.2 _)
  | going p touched honce =>
    cases l with
    | touch =>
      cases hstep
      exact .going p (some true) honce
    | remove =>
      cases hstep
      exact .going p (some false) honce
    | reply r =>
      cases p with
      | done e => cases hstep
      | ask o k =>
        have ho : o.isCheck = false := honce.1
        simp only [step, ho, Bool.false_eq_true, if_false] at hstep
        cases hstep
        exact .going _ touched (honce.2 _)

theorem respectsMarker_iff {s t : Escalation} {l : EscalationStep} (hs : Sound s) :
    NotTouchedBehind s l t ↔ RespectsMarker s l t := by
  refine forall_congr' fun hstarts => ?_
  obtain ⟨r, o, k, -, hprogram, hcommand⟩ := hstarts
  cases hs with
  | whole e cfg username uid usedS reason marker touched =>
    obtain ⟨k', hask, -, -⟩ := checkedOnce_rest e cfg username uid usedS reason
    have hop := hask.symm.trans hprogram
    cases hop
    cases hcommand
  | refused p marker touched hquiet =>
    subst hprogram
    rw [hquiet.1] at hcommand
    cases hcommand
  | going p touched honce =>
    cases touched with
    | none => simp
    | some b => cases b <;> simp

/-- An escalation starts no command while the marker is there exactly when the
marker was not made behind its check. -/
theorem respectsMarker_iff_notTouchedBehind (e : Enforcer) (cfg : Config) (username : String)
    (uid usedS : UInt32) (reason : KickReason) (marker : Bool) (ls : List EscalationStep) :
    Transition.Along step RespectsMarker (start e cfg username uid usedS reason marker) ls ↔
      Transition.Along step NotTouchedBehind (start e cfg username uid usedS reason marker) ls := by
  symm
  refine Transition.along_iff (I := Sound) ?_ ?_ ls
    (.whole e cfg username uid usedS reason marker none)
  · exact fun s l t _ hs => respectsMarker_iff hs
  · exact fun s l t hstep hs _ => sound_step hs hstep

/-- The operator makes the marker right after the check: the first bootout is
started all the same. -/
theorem respectsMarker_fails :
    ¬ ∀ (e : Enforcer) (cfg : Config) (username : String) (uid usedS : UInt32)
        (reason : KickReason) (marker : Bool) (ls : List EscalationStep),
      Transition.Along step RespectsMarker (start e cfg username uid usedS reason marker) ls := by
  intro h
  let visit : Visit := { username := "alice", uid := some 501, killSwitch := false, ran := [],
                         console := [], finished := 0 }
  let reply : (o : Op) → o.Reply := fun o => (Visit.answer o visit).1
  have hrun := h .new { Config.defaults with enforcement := .logout } "alice" 501 3600
    .limitReached false ([.reply reply, .touch] ++ .reply reply :: [])
  have hlast := Transition.along_at hrun rfl rfl
  have hmarker : true = false := hlast ⟨reply, _, _, rfl, rfl, rfl⟩
  cases hmarker

end Escalation

end Daemon
end Konstantin
