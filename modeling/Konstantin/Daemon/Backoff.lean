import Mathlib.Data.List.Induction
import Konstantin.Daemon.Enforcement
import Konstantin.Transition

/-!
# Runs of the enforcer

A `Patrol` is an enforcer with the actions it has taken so far; each of its steps
is one `Enforcer::step`, on any counters and with any answers of the machine.
The only thing asked of a pass is what the source relies on: the active set lists
a name once, and the monotonic clock does not go back.
-/

namespace Konstantin
namespace Daemon

open Effect

/-- An attempt to act on a uid.  A logout is `ok` when it succeeded; in Log mode
an action always is. -/
structure Action where
  uid : UInt32
  ok : Bool
  time : Nat
  deriving DecidableEq

structure Pass where
  begun : Nat
  counters : AList fun _ : String => UInt32
  visits : List Visit

structure Patrol where
  enforcer : Enforcer
  clock : Nat
  actions : List Action

def Visit.outcome (v : Visit) (uid : UInt32) : Except String Unit :=
  ((forceLogout v.username uid).run Visit.answer v).value

def Visit.ok (cfg : Config) (v : Visit) (uid : UInt32) : Bool :=
  match cfg.enforcement with
  | .log => true
  | .logout => (v.outcome uid).isOk

namespace Enforcer

def actionOf (cfg : Config) (v : Visit) (asked : List Op) : List Action :=
  if asked.any Op.isAction then (v.uid.map fun uid => ⟨uid, v.ok cfg uid, v.finished⟩).toList
  else []

def actionsOf (cfg : Config) (visits : List Visit) (asked : List (List Op)) : List Action :=
  (visits.zip asked).flatMap fun p => actionOf cfg p.1 p.2

end Enforcer

namespace Patrol

def new : Patrol := { enforcer := .new, clock := 0, actions := [] }

def results (cfg : Config) (s : Patrol) (p : Pass) : Enforcer × List (List Op) :=
  s.enforcer.step cfg p.counters p.begun p.visits

def taken (cfg : Config) (s : Patrol) (p : Pass) : List Action :=
  Enforcer.actionsOf cfg p.visits (s.results cfg p).2

def readings (p : Pass) : List Nat := p.begun :: p.visits.map Visit.finished

def step (cfg : Config) (s : Patrol) (p : Pass) : Option Patrol :=
  if (p.visits.map Visit.username).Nodup ∧ (s.clock :: readings p).Pairwise (· ≤ ·) then
    some
      { enforcer := (s.results cfg p).1
        clock := (readings p).getLast (by simp [readings])
        actions := s.actions ++ s.taken cfg p }
  else none

/-- The user has used up the limit, or is not configured and blocked by default. -/
def Due (cfg : Config) (username : String) (used : UInt32) : Prop :=
  (∃ u, cfg.userByName username = some u ∧ Config.limitSeconds u ≤ used) ∨
    (cfg.userByName username = none ∧ cfg.defaultPolicy = .block)

def Rested (actions : List Action) (uid : UInt32) (now : Nat) : Prop :=
  ∀ a ∈ actions, a.uid = uid → a.ok = true → a.time + bootoutBackoff ≤ now

/-- What an attempt on `uid` issues first: in Log mode its log line, in Logout mode
the two bootouts. -/
def attempt (cfg : Config) (username : String) (uid used : UInt32) (reason : KickReason) :
    List Op :=
  match cfg.enforcement with
  | .log => [.wouldHaveKicked username uid used reason]
  | .logout => [bootout "gui" uid, bootout "user" uid]

/-- What an attempt on `uid` may issue behind that. -/
def escalation (cfg : Config) (uid : UInt32) : List Op :=
  match cfg.enforcement with
  | .log => []
  | .logout => [pkill uid]

/-- The operations asked for a user are an attempt on `uid`, behind a look for the
marker of the config, and no action on anyone else. -/
def Acts (cfg : Config) (username : String) (uid used : UInt32) (asked : List Op) : Prop :=
  ∃ reason rest, Enforcement.wanted cfg username used = .kick reason ∧
    asked = .resolveUid username :: .killSwitchExists cfg.killSwitchPath :: rest ∧
      (rest.filter Op.isAction = attempt cfg username uid used reason ∨
        rest.filter Op.isAction = attempt cfg username uid used reason ++ escalation cfg uid)

/-- The operations asked for a user who is left alone. -/
def LeavesAlone (cfg : Config) (username : String) (asked : List Op) : Prop :=
  asked = [.resolveUid username] ∨
    asked = [.resolveUid username, .killSwitchExists cfg.killSwitchPath]

/-- The law of one pass. -/
structure Lawful (cfg : Config) (s : Patrol) (p : Pass) (t : Patrol) : Prop where
  /-- Among distinct uids the uid of a user is acted on exactly when that is due, the
  kill switch is off and no success was stamped within the backoff. -/
  acts_iff : (p.visits.filterMap Visit.uid).Nodup →
    ∀ x ∈ p.visits.zip (s.results cfg p).2, ∀ uid, x.1.uid = some uid →
      (Acts cfg x.1.username uid ((p.counters.lookup x.1.username).getD 0) x.2 ↔
        Due cfg x.1.username ((p.counters.lookup x.1.username).getD 0) ∧
          x.1.killSwitch = false ∧ Rested s.actions uid p.begun)
  /-- A user is acted on by the uid found, or left alone. -/
  nothing_else : ∀ x ∈ p.visits.zip (s.results cfg p).2,
    (∃ uid, x.1.uid = some uid ∧
        Acts cfg x.1.username uid ((p.counters.lookup x.1.username).getD 0) x.2) ∨
      LeavesAlone cfg x.1.username x.2
  /-- No uid has two successes in one pass, not even when names share it. -/
  once : (((s.taken cfg p).filter Action.ok).map Action.uid).Nodup
  /-- Two successes on one uid are the backoff apart. -/
  apart : ∀ a ∈ s.taken cfg p, a.ok = true → Rested s.actions a.uid a.time
  /-- In Log mode no command is issued. -/
  log : cfg.enforcement = .log → ∀ asked ∈ (s.results cfg p).2, ∀ o ∈ asked, o.isCommand = false
  /-- The backoff of a uid changes by a success on that uid only. -/
  frame : ∀ uid, (∀ a ∈ s.taken cfg p, a.ok = true → a.uid ≠ uid) →
    t.enforcer.lastKicked uid = s.enforcer.lastKicked uid

end Patrol

/-! ## One visit -/

theorem Enforcement.wanted_ne_noOp {cfg : Config} {username : String} {used : UInt32} :
    Enforcement.wanted cfg username used ≠ .noOp ↔ Patrol.Due cfg username used := by
  unfold Enforcement.wanted Patrol.Due
  cases hu : cfg.userByName username with
  | some u =>
    by_cases hle : used ≥ Config.limitSeconds u
    · simp [hle]
    · simp [hle]
  | none =>
    cases hp : cfg.defaultPolicy <;> simp

theorem Enforcement.decide_ne_noOp {cfg : Config} {username : String} {used : UInt32}
    {lastKicked : Option Nat} {now : Nat} :
    Enforcement.decide cfg username used lastKicked now ≠ .noOp ↔
      Patrol.Due cfg username used ∧ ∀ t, lastKicked = some t → t + bootoutBackoff ≤ now := by
  unfold Enforcement.decide
  cases lastKicked with
  | none => simp [Enforcement.wanted_ne_noOp]
  | some t =>
    have hpos : 0 < bootoutBackoff := by decide
    by_cases hlt : now - t < bootoutBackoff
    · have hno : ¬ t + bootoutBackoff ≤ now := by omega
      simp [hlt, hno]
    · have hyes : t + bootoutBackoff ≤ now := by omega
      simp [hlt, hyes, Enforcement.wanted_ne_noOp]

theorem Enforcement.wanted_of_decide {cfg : Config} {username : String} {used : UInt32}
    {lastKicked : Option Nat} {now : Nat} {reason : KickReason}
    (h : Enforcement.decide cfg username used lastKicked now = .kick reason) :
    Enforcement.wanted cfg username used = .kick reason := by
  unfold Enforcement.decide at h
  split at h
  · split at h
    · cases h
    · exact h
  · exact h

namespace Enforcer

def record (e : Enforcer) (a : Action) : Enforcer := if a.ok then e.stamp a.uid a.time else e

theorem finished_run {α : Type} (p : Program Op Op.Reply α) (v : Visit) :
    (p.run Visit.answer v).state.finished = v.finished :=
  Program.run_keeps (fun o s => by cases o <;> rfl) p v

theorem forceLogout_asked (v : Visit) (uid : UInt32) :
    ((forceLogout v.username uid).run Visit.answer v).asked.any Op.isAction = true := rfl

theorem forceLogout_actions {σ : Type} (answer : (o : Op) → σ → o.Reply × σ) (s : σ)
    (username : String) (uid : UInt32) :
    let asked := ((forceLogout username uid).run answer s).asked
    asked.filter Op.isAction = [bootout "gui" uid, bootout "user" uid] ∨
      asked.filter Op.isAction = [bootout "gui" uid, bootout "user" uid, pkill uid] := by
  simp only [forceLogout, Program.run]
  split
  · exact Or.inl rfl
  · right
    simp only [Program.run]
    split
    · rfl
    · rfl
    · simp only [Program.run]
      split <;> rfl

/-- A user is acted on exactly when `decide` says so and the kill switch is off,
and then the action is recorded. -/
theorem actOn_spec (e : Enforcer) (cfg : Config) (v : Visit) (uid used : UInt32)
    (reason : KickReason) :
    let r := (e.actOn cfg v.username uid used reason).run Visit.answer v
    r.asked.any Op.isAction = !v.killSwitch ∧
      r.value = if v.killSwitch then e else e.record ⟨uid, v.ok cfg uid, v.finished⟩ := by
  cases hk : v.killSwitch with
  | true => simp [actOn, Program.run, Visit.answer, hk, Op.isAction]
  | false =>
    cases hm : cfg.enforcement with
    | log => simp [actOn, Program.run, Visit.answer, hk, hm, Op.isAction, record, Visit.ok]
    | logout =>
      have hasked := forceLogout_asked v uid
      have hfinished := finished_run (forceLogout v.username uid) v
      cases hr : ((forceLogout v.username uid).run Visit.answer v).value with
      | ok u =>
        simp [actOn, Program.run, Program.run_bind, Visit.answer, hk, hm, Op.isAction, record,
          Visit.ok, Visit.outcome, hr, hasked, hfinished, Except.isOk, Except.toBool]
      | error msg =>
        simp [actOn, Program.run, Program.run_bind, Visit.answer, hk, hm, Op.isAction, record,
          Visit.ok, Visit.outcome, hr, hasked, Except.isOk, Except.toBool]

theorem visited_spec (e : Enforcer) (cfg : Config) (counters : AList fun _ : String => UInt32)
    (now : Nat) (v : Visit) :
    let r := e.visited cfg counters now v
    (r.asked.any Op.isAction = true ↔ ∃ uid, v.uid = some uid ∧
      Enforcement.decide cfg v.username ((counters.lookup v.username).getD 0)
        (e.lastKicked uid) now ≠ .noOp ∧ v.killSwitch = false) ∧
      r.value = (actionOf cfg v r.asked).foldl record e := by
  cases hu : v.uid with
  | none =>
    simp [visited, visit, Program.run, Visit.answer, hu, Op.isAction, actionOf]
  | some uid =>
    cases hd : Enforcement.decide cfg v.username ((counters.lookup v.username).getD 0)
        (e.lastKicked uid) now with
    | noOp =>
      have hrun : e.visited cfg counters now v = ⟨e, [.resolveUid v.username], v⟩ := by
        simp [visited, visit, Program.run, Visit.answer, hu, hd]
      rw [hrun]
      simp [Op.isAction, actionOf, hd]
    | kick reason =>
      obtain ⟨hasked, hvalue⟩ := actOn_spec e cfg v uid
        ((counters.lookup v.username).getD 0) reason
      have hrun : e.visited cfg counters now v =
          let r := (e.actOn cfg v.username uid ((counters.lookup v.username).getD 0) reason).run
            Visit.answer v
          { r with asked := .resolveUid v.username :: r.asked } := by
        simp [visited, visit, Program.run, Visit.answer, hu, hd]
      have hany : (e.visited cfg counters now v).asked.any Op.isAction = !v.killSwitch := by
        rw [hrun]
        exact hasked
      have hlast : (e.visited cfg counters now v).value = _ := (congrArg _ hrun).trans hvalue
      simp only [actionOf, hany, hlast, hu]
      cases hk : v.killSwitch with
      | true => simp
      | false => simp [hd]

/-- The operations of one visit are those of an attempt, or of none. -/
theorem visited_acts (e : Enforcer) (cfg : Config) (counters : AList fun _ : String => UInt32)
    (now : Nat) (v : Visit) :
    (∃ uid, v.uid = some uid ∧ Patrol.Acts cfg v.username uid
        ((counters.lookup v.username).getD 0) (e.visited cfg counters now v).asked) ∨
      Patrol.LeavesAlone cfg v.username (e.visited cfg counters now v).asked := by
  cases hu : v.uid with
  | none =>
    refine Or.inr (Or.inl ?_)
    simp [visited, visit, Program.run, Visit.answer, hu]
  | some uid =>
    cases hd : Enforcement.decide cfg v.username ((counters.lookup v.username).getD 0)
        (e.lastKicked uid) now with
    | noOp =>
      refine Or.inr (Or.inl ?_)
      simp [visited, visit, Program.run, Visit.answer, hu, hd]
    | kick reason =>
      cases hk : v.killSwitch with
      | true =>
        refine Or.inr (Or.inr ?_)
        simp [visited, visit, actOn, Program.run, Visit.answer, hu, hd, hk]
      | false =>
        refine Or.inl ⟨uid, rfl, reason, ?_⟩
        have hwanted := Enforcement.wanted_of_decide hd
        cases hm : cfg.enforcement with
        | log =>
          refine ⟨[.wouldHaveKicked v.username uid ((counters.lookup v.username).getD 0) reason,
            .now], hwanted, ?_, Or.inl ?_⟩
          · simp [visited, visit, actOn, Program.run, Visit.answer, hu, hd, hk, hm]
          · rw [Patrol.attempt, hm]
            rfl
        | logout =>
          -- behind the logout the clock is read, or nothing is asked
          obtain ⟨last, hlast, hasked⟩ : ∃ last, last.filter Op.isAction = [] ∧
              (e.visited cfg counters now v).asked = .resolveUid v.username ::
                .killSwitchExists cfg.killSwitchPath ::
                  (((forceLogout v.username uid).run Visit.answer v).asked ++ last) := by
            cases hr : ((forceLogout v.username uid).run Visit.answer v).value with
            | ok u =>
              refine ⟨[.now], rfl, ?_⟩
              simp [visited, visit, actOn, Program.run, Program.run_bind, Visit.answer, hu, hd, hk,
                hm, hr]
            | error message =>
              refine ⟨[], rfl, ?_⟩
              simp [visited, visit, actOn, Program.run, Program.run_bind, Visit.answer, hu, hd, hk,
                hm, hr]
          refine ⟨_, hwanted, hasked, ?_⟩
          rw [List.filter_append, hlast, List.append_nil, Patrol.attempt, Patrol.escalation, hm]
          exact forceLogout_actions Visit.answer v v.username uid

theorem any_of_acts {cfg : Config} {username : String} {uid used : UInt32} {asked : List Op}
    (h : Patrol.Acts cfg username uid used asked) : asked.any Op.isAction = true := by
  obtain ⟨reason, rest, -, rfl, hacts⟩ := h
  have hne : rest.filter Op.isAction ≠ [] := by
    rcases hacts with h | h <;> rw [h, Patrol.attempt] <;> cases cfg.enforcement <;> simp
  obtain ⟨o, ho⟩ := List.exists_mem_of_ne_nil _ hne
  obtain ⟨hmem, haction⟩ := List.mem_filter.mp ho
  refine List.any_eq_true.mpr ⟨o, ?_, haction⟩
  exact List.mem_cons_of_mem _ (List.mem_cons_of_mem _ hmem)

theorem not_any_of_leavesAlone {cfg : Config} {username : String} {asked : List Op}
    (h : Patrol.LeavesAlone cfg username asked) : asked.any Op.isAction = false := by
  rcases h with rfl | rfl <;> rfl

/-- The operations of a pass, user by user. -/
theorem step_visited {cfg : Config} {counters : AList fun _ : String => UInt32} {now : Nat}
    {vs : List Visit} {e : Enforcer} :
    ∀ x ∈ vs.zip (step cfg counters now e vs).2,
      ∃ e' : Enforcer, x.2 = (e'.visited cfg counters now x.1).asked := by
  induction vs generalizing e with
  | nil =>
    intro x hx
    cases hx
  | cons v vs ih =>
    intro x hx
    rcases List.mem_cons.mp hx with rfl | hrest
    · exact ⟨e, rfl⟩
    · exact ih x hrest

theorem step_acts {cfg : Config} {counters : AList fun _ : String => UInt32} {now : Nat}
    {vs : List Visit} {e : Enforcer} {x : Visit × List Op}
    (hx : x ∈ vs.zip (step cfg counters now e vs).2) :
    (∃ uid, x.1.uid = some uid ∧
        Patrol.Acts cfg x.1.username uid ((counters.lookup x.1.username).getD 0) x.2) ∨
      Patrol.LeavesAlone cfg x.1.username x.2 := by
  obtain ⟨e', hasked⟩ := step_visited x hx
  rw [hasked]
  exact visited_acts e' cfg counters now x.1

theorem actionsOf_cons (cfg : Config) (v : Visit) (vs : List Visit) (asked : List Op)
    (rest : List (List Op)) :
    actionsOf cfg (v :: vs) (asked :: rest) = actionOf cfg v asked ++ actionsOf cfg vs rest := by
  simp [actionsOf]

theorem mem_actionOf {cfg : Config} {v : Visit} {asked : List Op} {a : Action}
    (h : a ∈ actionOf cfg v asked) :
    asked.any Op.isAction = true ∧ v.uid = some a.uid ∧ a.time = v.finished := by
  unfold actionOf at h
  split at h
  · rename_i hany
    rw [Option.mem_toList] at h
    obtain ⟨uid, hu, rfl⟩ := Option.map_eq_some_iff.mp h
    exact ⟨hany, hu, rfl⟩
  · cases h

theorem nodup_actionOf (cfg : Config) (v : Visit) (asked : List Op) :
    (((actionOf cfg v asked).filter Action.ok).map Action.uid).Nodup := by
  unfold actionOf
  split
  · cases v.uid with
    | none => exact List.nodup_nil
    | some uid =>
      simp only [Option.map_some, Option.toList_some, List.filter_cons, List.filter_nil]
      split
      · exact List.nodup_singleton _
      · exact List.nodup_nil
  · exact List.nodup_nil

theorem actionOf_sublist (cfg : Config) (v : Visit) (asked : List Op) :
    ((actionOf cfg v asked).map Action.time).Sublist [v.finished] := by
  unfold actionOf
  split
  · cases v.uid with
    | none => exact List.nil_sublist _
    | some uid => exact List.Sublist.refl _
  · exact List.nil_sublist _

theorem actionsOf_sublist (cfg : Config) (vs : List Visit) (asked : List (List Op)) :
    ((actionsOf cfg vs asked).map Action.time).Sublist (vs.map Visit.finished) := by
  induction vs generalizing asked with
  | nil =>
    rw [actionsOf, List.zip_nil_left]
    exact List.nil_sublist _
  | cons v vs ih =>
    cases asked with
    | nil =>
      rw [actionsOf, List.zip_nil_right]
      exact List.nil_sublist _
    | cons o os =>
      rw [actionsOf_cons, List.map_append, List.map_cons]
      exact (actionOf_sublist cfg v o).append (ih os)

theorem step_value (cfg : Config) (counters : AList fun _ : String => UInt32) (now : Nat)
    (vs : List Visit) (e : Enforcer) :
    (step cfg counters now e vs).1 =
      (actionsOf cfg vs (step cfg counters now e vs).2).foldl record e := by
  induction vs generalizing e with
  | nil => rfl
  | cons v vs ih =>
    have hvalue := (visited_spec e cfg counters now v).2
    simp only [step, actionsOf_cons, List.foldl_append]
    rw [ih, ← hvalue]

theorem step_log {cfg : Config} (h : cfg.enforcement = .log)
    (counters : AList fun _ : String => UInt32) (now : Nat) (vs : List Visit) (e : Enforcer) :
    ∀ asked ∈ (step cfg counters now e vs).2, ∀ o ∈ asked, o.isCommand = false := by
  refine step_all (fun e v _ => ?_) e
  refine Program.asked_of_all (P := fun o : Op => o.isCommand = false) ?_ v
  refine ⟨rfl, fun resolved => ?_⟩
  cases resolved with
  | none => trivial
  | some uid =>
    dsimp only
    split
    · trivial
    · refine ⟨rfl, fun present => ?_⟩
      cases present with
      | true => trivial
      | false =>
        simp only [Bool.false_eq_true, if_false, h]
        exact ⟨rfl, fun _ => ⟨rfl, fun _ => trivial⟩⟩

theorem lastKicked_record (e : Enforcer) (a : Action) (uid : UInt32) :
    (e.record a).lastKicked uid =
      if a.ok = true ∧ a.uid = uid then some a.time else e.lastKicked uid := by
  unfold record
  cases a.ok with
  | false => simp
  | true =>
    by_cases hu : a.uid = uid
    · subst hu
      simp [stamp]
    · have hne : uid ≠ a.uid := fun h => hu h.symm
      simp [stamp, hu, Function.update_of_ne hne]

theorem lastKicked_foldl {actions : List Action} {uid : UInt32}
    (h : ∀ a ∈ actions, a.ok = true → a.uid ≠ uid) (e : Enforcer) :
    (actions.foldl record e).lastKicked uid = e.lastKicked uid := by
  induction actions generalizing e with
  | nil => rfl
  | cons a actions ih =>
    rw [List.foldl_cons, ih fun b hb => h b (List.mem_cons_of_mem _ hb), lastKicked_record, if_neg]
    intro h
    obtain ⟨hok, hu⟩ := h
    exact h a List.mem_cons_self hok hu

theorem rested_iff {actions : List Action}
    (hsorted : actions.Pairwise fun a b => a.time ≤ b.time) (uid : UInt32) (now : Nat) :
    (∀ t, (actions.foldl record new).lastKicked uid = some t → t + bootoutBackoff ≤ now) ↔
      Patrol.Rested actions uid now := by
  induction actions using List.reverseRec with
  | nil => simp [Patrol.Rested, new]
  | append_singleton actions a ih =>
    rw [List.pairwise_append] at hsorted
    rw [List.foldl_append, List.foldl_cons, List.foldl_nil, lastKicked_record]
    by_cases hlast : a.ok = true ∧ a.uid = uid
    · rw [if_pos hlast]
      constructor
      · intro h b hb hu hok
        have hnow : a.time + bootoutBackoff ≤ now := h a.time rfl
        rcases List.mem_append.mp hb with hold | hnew
        · have hle : b.time ≤ a.time := hsorted.2.2 b hold a List.mem_cons_self
          omega
        · rw [List.mem_singleton.mp hnew]
          exact hnow
      · intro h t ht
        cases ht
        exact h a (List.mem_append_right _ List.mem_cons_self) hlast.2 hlast.1
    · rw [if_neg hlast, ih hsorted.1]
      constructor
      · intro h b hb hu hok
        rcases List.mem_append.mp hb with hold | hnew
        · exact h b hold hu hok
        · rw [List.mem_singleton.mp hnew] at hu hok
          exact absurd ⟨hok, hu⟩ hlast
      · intro h b hb hu hok
        exact h b (List.mem_append_left _ hb) hu hok

/-- The actions so far are in the order of their times, none after `lo`. -/
def Timed (actions : List Action) (lo : Nat) : Prop :=
  (actions.Pairwise fun a b => a.time ≤ b.time) ∧ ∀ a ∈ actions, a.time ≤ lo

theorem timed_append {actions more : List Action} {lo hi : Nat} (h : Timed actions lo)
    (hlo : lo ≤ hi) (hmore : more.Pairwise fun a b => a.time ≤ b.time)
    (hrange : ∀ a ∈ more, lo ≤ a.time ∧ a.time ≤ hi) : Timed (actions ++ more) hi := by
  constructor
  · refine List.pairwise_append.mpr ⟨h.1, hmore, fun a ha b hb => ?_⟩
    exact Nat.le_trans (h.2 a ha) (hrange b hb).1
  · intro a ha
    rcases List.mem_append.mp ha with hold | hnew
    · exact Nat.le_trans (h.2 a hold) hlo
    · exact (hrange a hnew).2

theorem timed_visit {actions : List Action} {lo : Nat} (h : Timed actions lo) (cfg : Config)
    {v : Visit} (hle : lo ≤ v.finished) (asked : List Op) :
    Timed (actions ++ actionOf cfg v asked) v.finished := by
  refine timed_append h hle ?_ fun a ha => ?_
  · have hone := List.Pairwise.sublist (actionOf_sublist cfg v asked)
      (List.pairwise_singleton (· ≤ ·) v.finished)
    exact List.pairwise_map.mp hone
  · have htime := (mem_actionOf ha).2.2
    omega

variable (cfg : Config) (counters : AList fun _ : String => UInt32) {now : Nat}

theorem visit_acts_iff {actions : List Action} {e : Enforcer}
    (he : e = actions.foldl record new)
    (hsorted : actions.Pairwise fun a b => a.time ≤ b.time) (v : Visit) :
    (e.visited cfg counters now v).asked.any Op.isAction = true ↔
      ∃ uid, v.uid = some uid ∧
        Patrol.Due cfg v.username ((counters.lookup v.username).getD 0) ∧
        v.killSwitch = false ∧ Patrol.Rested actions uid now := by
  subst he
  rw [(visited_spec _ cfg counters now v).1]
  refine exists_congr fun uid => and_congr_right fun _ => ?_
  rw [Enforcement.decide_ne_noOp, rested_iff hsorted uid now]
  exact ⟨fun h => ⟨h.1.1, h.2, h.1.2⟩, fun h => ⟨⟨h.1, h.2.2⟩, h.2.1⟩⟩

/-- A visit acts on a uid that was rested when the pass began, and after that. -/
theorem rested_of_visit {actions : List Action} {e : Enforcer} {lo : Nat}
    (he : e = actions.foldl record new) (ht : Timed actions lo) (hnow : now ≤ lo) {v : Visit}
    (hfirst : lo ≤ v.finished) {a : Action}
    (ha : a ∈ actionOf cfg v (e.visited cfg counters now v).asked) :
    Patrol.Rested actions a.uid now ∧ now ≤ a.time := by
  obtain ⟨hany, hu, htime⟩ := mem_actionOf ha
  obtain ⟨uid, hu', -, -, hrested⟩ := (visit_acts_iff cfg counters he ht.1 v).mp hany
  have hsame : a.uid = uid := Option.some.inj (hu.symm.trans hu')
  refine ⟨hsame ▸ hrested, ?_⟩
  omega

/-- The uids a pass acts on were rested when it began, and it succeeds on none
twice: a success of the pass itself is stamped after it began. -/
theorem pass_rested {vs : List Visit} {actions : List Action} {e : Enforcer} {lo : Nat}
    (he : e = actions.foldl record new) (ht : Timed actions lo) (hnow : now ≤ lo)
    (hclock : (lo :: vs.map Visit.finished).Pairwise (· ≤ ·)) :
    (∀ a ∈ actionsOf cfg vs (step cfg counters now e vs).2,
        Patrol.Rested actions a.uid now ∧ now ≤ a.time) ∧
      (((actionsOf cfg vs (step cfg counters now e vs).2).filter Action.ok).map
        Action.uid).Nodup := by
  induction vs generalizing actions e lo with
  | nil => exact ⟨fun _ ha => (List.not_mem_nil ha).elim, List.nodup_nil⟩
  | cons v vs ih =>
    obtain ⟨hle, htail⟩ := List.pairwise_cons.mp hclock
    have hfirst : lo ≤ v.finished := hle v.finished List.mem_cons_self
    have hvalue := (visited_spec e cfg counters now v).2
    have hnext : (e.visited cfg counters now v).value =
        (actions ++ actionOf cfg v (e.visited cfg counters now v).asked).foldl record new := by
      rw [hvalue, List.foldl_append, ← he]
    obtain ⟨hrest, hnodup⟩ := ih hnext (timed_visit ht cfg hfirst _) (by omega) htail
    have hsplit : actionsOf cfg (v :: vs) (step cfg counters now e (v :: vs)).2 = _ :=
      actionsOf_cons cfg v vs _ _
    rw [hsplit]
    have hhead : ∀ a ∈ actionOf cfg v (e.visited cfg counters now v).asked,
        Patrol.Rested actions a.uid now ∧ now ≤ a.time :=
      fun _ ha => rested_of_visit cfg counters he ht hnow hfirst ha
    constructor
    · intro a ha
      rcases List.mem_append.mp ha with hnew | hlater
      · exact hhead a hnew
      · exact ⟨fun b hb => (hrest a hlater).1 b (List.mem_append_left _ hb), (hrest a hlater).2⟩
    · rw [List.filter_append, List.map_append, List.nodup_append]
      refine ⟨nodup_actionOf cfg v _, hnodup, ?_⟩
      intro uid hu uid' hu' heq
      obtain ⟨a, ha, rfl⟩ := List.mem_map.mp hu
      obtain ⟨b, hb, rfl⟩ := List.mem_map.mp hu'
      obtain ⟨ha, haok⟩ := List.mem_filter.mp ha
      have hb := (List.mem_filter.mp hb).1
      have hrested := (hrest b hb).1 a (List.mem_append_right _ ha) heq haok
      have hstart := (hhead a ha).2
      have hpos : 0 < bootoutBackoff := by decide
      omega

/-- Among distinct uids the actions of the pass itself do not matter. -/
theorem pass_acts_iff {vs : List Visit} {actions during : List Action} {e : Enforcer} {lo : Nat}
    (he : e = (actions ++ during).foldl record new) (ht : Timed (actions ++ during) lo)
    (hclock : (lo :: vs.map Visit.finished).Pairwise (· ≤ ·))
    (hdistinct : (vs.filterMap Visit.uid).Nodup)
    (hother : ∀ a ∈ during, ∀ v ∈ vs, v.uid ≠ some a.uid) :
    ∀ x ∈ vs.zip (step cfg counters now e vs).2, (x.2.any Op.isAction = true ↔
      ∃ uid, x.1.uid = some uid ∧
        Patrol.Due cfg x.1.username ((counters.lookup x.1.username).getD 0) ∧
        x.1.killSwitch = false ∧ Patrol.Rested actions uid now) := by
  induction vs generalizing during e lo with
  | nil =>
    intro x hx
    cases hx
  | cons v vs ih =>
    obtain ⟨hle, htail⟩ := List.pairwise_cons.mp hclock
    have hfirst : lo ≤ v.finished := hle v.finished List.mem_cons_self
    intro x hx
    rcases List.mem_cons.mp hx with rfl | hrest
    · rw [visit_acts_iff cfg counters he ht.1 v]
      refine exists_congr fun uid => and_congr_right fun hu => ?_
      refine and_congr_right fun _ => and_congr_right fun _ => ?_
      constructor
      · exact fun h a ha => h a (List.mem_append_left _ ha)
      · intro h a ha huid hok
        rcases List.mem_append.mp ha with hold | hnew
        · exact h a hold huid hok
        · exact absurd (huid ▸ hu) (hother a hnew v List.mem_cons_self)
    · have hvalue := (visited_spec e cfg counters now v).2
      have hnext : (e.visited cfg counters now v).value =
          (actions ++ (during ++ actionOf cfg v (e.visited cfg counters now v).asked)).foldl
            record new := by
        rw [hvalue, ← List.append_assoc, List.foldl_append, ← he]
      have htimed := timed_visit ht cfg hfirst (e.visited cfg counters now v).asked
      rw [List.append_assoc] at htimed
      refine ih hnext htimed htail ?_ ?_ x hrest
      · exact hdistinct.sublist ((List.sublist_cons_self v vs).filterMap _)
      · intro a ha u hu
        rcases List.mem_append.mp ha with hold | hnew
        · exact hother a hold u (List.mem_cons_of_mem _ hu)
        · have hv := (mem_actionOf hnew).2.1
          intro hsame
          rw [List.filterMap_cons_some hv, List.nodup_cons] at hdistinct
          exact hdistinct.1 (List.mem_filterMap.mpr ⟨u, hu, hsame⟩)

end Enforcer

/-! ## Runs -/

namespace Patrol

variable {cfg : Config}

structure Ledgered (s : Patrol) : Prop where
  enforcer : s.enforcer = s.actions.foldl Enforcer.record Enforcer.new
  timed : Enforcer.Timed s.actions s.clock

theorem ledgered_new : Ledgered new where
  enforcer := rfl
  timed := ⟨List.Pairwise.nil, fun _ ha => (List.not_mem_nil ha).elim⟩

theorem le_getLast_of_pairwise {l : List Nat} (h : l.Pairwise (· ≤ ·)) (hne : l ≠ []) :
    ∀ t ∈ l, t ≤ l.getLast hne := by
  intro t ht
  have hsplit := List.dropLast_append_getLast hne
  rw [← hsplit, List.pairwise_append] at h
  rw [← hsplit] at ht
  rcases List.mem_append.mp ht with hinit | hlast
  · exact h.2.2 t hinit _ List.mem_cons_self
  · exact Nat.le_of_eq (List.mem_singleton.mp hlast)

theorem taken_times (cfg : Config) (s : Patrol) (p : Pass)
    (hclock : (p.begun :: p.visits.map Visit.finished).Pairwise (· ≤ ·)) :
    ((s.taken cfg p).Pairwise fun a b => a.time ≤ b.time) ∧
      ∀ a ∈ s.taken cfg p, a.time ∈ p.visits.map Visit.finished := by
  have hsub := Enforcer.actionsOf_sublist cfg p.visits (s.results cfg p).2
  constructor
  · exact List.pairwise_map.mp (List.Pairwise.sublist hsub (List.pairwise_cons.mp hclock).2)
  · intro a ha
    exact hsub.mem (List.mem_map_of_mem ha)

theorem ledgered_step {s t : Patrol} {p : Pass} (hs : Ledgered s) (hstep : s.step cfg p = some t) :
    Ledgered t ∧ Lawful cfg s p t := by
  unfold step at hstep
  split at hstep
  · rename_i hpass
    cases hstep
    obtain ⟨hle, hclock⟩ := List.pairwise_cons.mp hpass.2
    have hbegun : s.clock ≤ p.begun := hle p.begun List.mem_cons_self
    have htimed : Enforcer.Timed s.actions p.begun :=
      ⟨hs.timed.1, fun a ha => Nat.le_trans (hs.timed.2 a ha) hbegun⟩
    obtain ⟨hsorted, htimes⟩ := taken_times cfg s p hclock
    obtain ⟨hrested, honce⟩ := Enforcer.pass_rested cfg p.counters hs.enforcer htimed
      (Nat.le_refl p.begun) hclock
    have hvalue := Enforcer.step_value cfg p.counters p.begun p.visits s.enforcer
    refine ⟨⟨?_, ?_⟩, ?_, fun x hx => Enforcer.step_acts hx, honce, ?_, ?_, ?_⟩
    · show (s.results cfg p).1 = _
      rw [results, hvalue, List.foldl_append, ← hs.enforcer]
      rfl
    · refine Enforcer.timed_append htimed ?_ hsorted fun a ha => ⟨?_, ?_⟩
      · exact le_getLast_of_pairwise hclock _ p.begun List.mem_cons_self
      · exact (List.pairwise_cons.mp hclock).1 a.time (htimes a ha)
      · exact le_getLast_of_pairwise hclock _ a.time (List.mem_cons_of_mem _ (htimes a ha))
    · intro hdistinct x hx uid hu
      have henforcer : s.enforcer = (s.actions ++ []).foldl Enforcer.record Enforcer.new := by
        rw [List.append_nil]
        exact hs.enforcer
      have hnone : Enforcer.Timed (s.actions ++ []) p.begun := by
        rw [List.append_nil]
        exact htimed
      have hacts := Enforcer.pass_acts_iff cfg p.counters henforcer hnone hclock hdistinct
        (fun a ha => (List.not_mem_nil ha).elim) x hx
      constructor
      · intro h
        obtain ⟨uid', hu', hlaw⟩ := hacts.mp (Enforcer.any_of_acts h)
        have hsame : uid' = uid := Option.some.inj (hu'.symm.trans hu)
        exact hsame ▸ hlaw
      · intro hlaw
        have hany := hacts.mpr ⟨uid, hu, hlaw⟩
        rcases Enforcer.step_acts hx with ⟨uid', hu', h⟩ | halone
        · have hsame : uid' = uid := Option.some.inj (hu'.symm.trans hu)
          exact hsame ▸ h
        · rw [Enforcer.not_any_of_leavesAlone halone] at hany
          cases hany
    · intro a ha _ b hb huid hok
      have hbefore := (hrested a ha).1 b hb huid hok
      have hafter := (hrested a ha).2
      omega
    · exact fun hlog => Enforcer.step_log hlog p.counters p.begun p.visits s.enforcer
    · intro uid hother
      show (s.results cfg p).1.lastKicked uid = _
      rw [results, hvalue]
      exact Enforcer.lastKicked_foldl hother s.enforcer
  · cases hstep

end Patrol

end Daemon
end Konstantin
