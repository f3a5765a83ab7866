import Mathlib.Logic.Function.Basic
import Konstantin.Daemon.Config
import Konstantin.Daemon.State
import Konstantin.Effect.Program

/-!
# Enforcement

`crates/daemon/src/enforcement.rs`.  `decide` is a function; what has effects is
a program over `Op`, so that the order in which the kill switch is looked at and
the commands are issued is the order of the source.  Instants of the monotonic
clock are counted in nanoseconds.

Of the log lines only `would have kicked` is modelled: it is what Log mode does
in place of a logout.
-/

namespace Konstantin
namespace Daemon

open Fs Effect

def bootoutBackoff : Nat := 10 * 10 ^ 9

def settleAfterBootout : Nat := 10 ^ 9

inductive KickReason where
  | limitReached
  | blockedByDefaultPolicy
  deriving DecidableEq

inductive Decision where
  | noOp
  | kick (reason : KickReason)
  deriving DecidableEq

namespace Enforcement

/-- What `decide` says of a user who was not acted on lately. -/
def wanted (cfg : Config) (username : String) (used : UInt32) : Decision :=
  match cfg.userByName username with
  | some u => if used ≥ Config.limitSeconds u then .kick .limitReached else .noOp
  | none =>
    match cfg.defaultPolicy with
    | .unrestricted => .noOp
    | .block => .kick .blockedByDefaultPolicy

/-- `Instant::duration_since` is zero for a later instant. -/
def decide (cfg : Config) (username : String) (used : UInt32) (lastKicked : Option Nat)
    (now : Nat) : Decision :=
  match lastKicked with
  | some t => if now - t < bootoutBackoff then .noOp else wanted cfg username used
  | none => wanted cfg username used

end Enforcement

inductive Op where
  | resolveUid (username : String)
  | killSwitchExists (path : Path)
  | wouldHaveKicked (username : String) (uid usedS : UInt32) (reason : KickReason)
  | run (program : String) (args : List String)
  | settle (duration : Nat)
  | consoleUsers
  | now
  deriving DecidableEq

/-- A command ran and says whether it succeeded, or could not be run in time. -/
def Op.Reply : Op → Type
  | resolveUid _ => Option UInt32
  | killSwitchExists _ => Bool
  | wouldHaveKicked .. => Unit
  | run .. => Except String Bool
  | settle _ => Unit
  | consoleUsers => UserSet
  | now => Nat

namespace Op

def isCommand : Op → Bool
  | run .. => true
  | _ => false

def isCheck : Op → Bool
  | killSwitchExists _ => true
  | _ => false

/-- A command, or what Log mode does in its place. -/
def isAction : Op → Bool
  | run .. => true
  | wouldHaveKicked .. => true
  | _ => false

end Op

def bootout (domain : String) (uid : UInt32) : Op :=
  .run "/bin/launchctl" ["bootout", domain ++ "/" ++ toString uid.toNat]

def pkill (uid : UInt32) : Op := .run "/usr/bin/pkill" ["-KILL", "-U", toString uid.toNat]

def forceLogout (username : String) (uid : UInt32) : Program Op Op.Reply (Except String Unit) :=
  .ask (bootout "gui" uid) fun _ =>
  .ask (bootout "user" uid) fun _ =>
  .ask (.settle settleAfterBootout) fun _ =>
  .ask .consoleUsers fun (stillActive : UserSet) =>
    if username ∉ stillActive then .done (.ok ())
    else
      .ask (pkill uid) fun (status : Except String Bool) =>
        match status with
        | .error _ => .done (.error ("pkill -KILL -U " ++ toString uid.toNat))
        | .ok true => .done (.ok ())
        | .ok false =>
          .ask .consoleUsers fun (after : UserSet) =>
            if username ∈ after then
              .done (.error ("pkill -KILL -U " ++ toString uid.toNat ++
                " matched nothing but user still active"))
            else .done (.ok ())

structure Enforcer where
  lastKicked : UInt32 → Option Nat

namespace Enforcer

def new : Enforcer := ⟨fun _ => none⟩

def stamp (e : Enforcer) (uid : UInt32) (t : Nat) : Enforcer :=
  ⟨Function.update e.lastKicked uid (some t)⟩

def actOn (e : Enforcer) (cfg : Config) (username : String) (uid usedS : UInt32)
    (reason : KickReason) : Program Op Op.Reply Enforcer :=
  .ask (.killSwitchExists cfg.killSwitchPath) fun (present : Bool) =>
    if present then .done e
    else
      match cfg.enforcement with
      | .log =>
        .ask (.wouldHaveKicked username uid usedS reason) fun _ =>
        .ask .now fun (t : Nat) => .done (e.stamp uid t)
      | .logout =>
        (forceLogout username uid).bind fun result =>
          match result with
          | .ok () => .ask .now fun (t : Nat) => .done (e.stamp uid t)
          | .error _ => .done e

/-- The body of the loop of `Enforcer::step`. -/
def visit (e : Enforcer) (cfg : Config) (counters : AList fun _ : String => UInt32) (now : Nat)
    (username : String) : Program Op Op.Reply Enforcer :=
  .ask (.resolveUid username) fun (resolved : Option UInt32) =>
    match resolved with
    | none => .done e
    | some uid =>
      let used := (counters.lookup username).getD 0
      match Enforcement.decide cfg username used (e.lastKicked uid) now with
      | .noOp => .done e
      | .kick reason => e.actOn cfg username uid used reason

end Enforcer

/-- What the machine answers while one user is visited.  Commands and
enumerations are answered in order; when their list is used up, a command
succeeds and nobody is on the console. -/
structure Visit where
  username : String
  uid : Option UInt32
  killSwitch : Bool
  ran : List (Except String Bool)
  console : List UserSet
  finished : Nat

def Visit.answer : (o : Op) → Visit → o.Reply × Visit
  | .resolveUid _, v => (v.uid, v)
  | .killSwitchExists _, v => (v.killSwitch, v)
  | .wouldHaveKicked .., v => ((), v)
  | .run .., v => (v.ran.headD (.ok true), { v with ran := v.ran.tail })
  | .settle _, v => ((), v)
  | .consoleUsers, v => (v.console.headD ∅, { v with console := v.console.tail })
  | .now, v => (v.finished, v)

namespace Enforcer

def visited (e : Enforcer) (cfg : Config) (counters : AList fun _ : String => UInt32) (now : Nat)
    (v : Visit) : Program.Outcome Op Enforcer Visit :=
  (e.visit cfg counters now v.username).run Visit.answer v

/-- `Enforcer::step` from the instant it read on: the enforcer it leaves, and what
was asked for each user of the active set. -/
def step (cfg : Config) (counters : AList fun _ : String => UInt32) (now : Nat) :
    Enforcer → List Visit → Enforcer × List (List Op)
  | e, [] => (e, [])
  | e, v :: vs =>
    let r := e.visited cfg counters now v
    let rest := step cfg counters now r.value vs
    (rest.1, r.asked :: rest.2)

theorem step_all {P : List Op → Prop} {cfg : Config} {counters : AList fun _ : String => UInt32}
    {now : Nat} {vs : List Visit}
    (h : ∀ (e : Enforcer), ∀ v ∈ vs, P (e.visited cfg counters now v).asked) (e : Enforcer) :
    ∀ asked ∈ (step cfg counters now e vs).2, P asked := by
  induction vs generalizing e with
  | nil =>
    intro asked ha
    cases ha
  | cons v vs ih =>
    intro asked ha
    rcases List.mem_cons.mp ha with rfl | hrest
    · exact h e v List.mem_cons_self
    · exact ih (fun e u hu => h e u (List.mem_cons_of_mem _ hu)) _ asked hrest

end Enforcer

end Daemon
end Konstantin
