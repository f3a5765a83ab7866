import Konstantin.Transition
import Konstantin.Tray.BundleWatch

/-!
# Scheduling the deferred uninstall

`schedule_uninstall_services` of `crates/tray/src/bin/tray.rs` beside the child that it
starts, which is `deferred_uninstall_services`.  The two run at the same time and share
the ready file.  Homebrew goes on with the bundle once the parent has returned well.
-/

namespace Konstantin
namespace Tray

open Fs Effect Proto

abbrev UninstallProgram : Type := Program UninstallOp UninstallOp.Reply (Except String Unit)

inductive ScheduleError where
  | spawnFailed
  | waitFailed
  | exited
  | timedOut
  deriving DecidableEq

/-- The parent before each of its calls. -/
inductive Scheduler where
  | removing
  | spawning
  | looking
  | waiting
  | timing
  | returned (r : Except ScheduleError Unit)

inductive Child where
  | absent
  | running (p : UninstallProgram)
  | exited
  | killed

/-- `trace` is bookkeeping: what the child has asked, with the replies. -/
structure Handshake where
  bundle : Option Nat
  ready : Bool
  parent : Scheduler
  child : Child
  trace : List (Sigma UninstallOp.Reply)

/-- A call on the ready file that fails may leave the file there. -/
inductive HandshakeStep where
  | removeStale (works : Bool)
  | spawn (works : Bool)
  | look
  | tryWait (works : Bool)
  | deadline (late : Bool)
  /-- The ready file is there before the write returns. -/
  | creates
  | child (answer : (o : UninstallOp) → o.Reply) (left : Bool)
  | childExit
  | homebrew (bundle : Option Nat)

/-- The inode that is read is the one of the bundle. -/
def honest (bundle : Option Nat) : (o : UninstallOp) → o.Reply → Bool
  | .inode _, r =>
    match (r : Except String Nat) with
    | .ok inode => decide (bundle = some inode)
    | .error _ => true
  | _, _ => true

def readyAfter (ready left : Bool) : (o : UninstallOp) → o.Reply → Bool
  | .writeReady, r =>
    match (r : Except String Unit) with
    | .ok () => true
    | .error _ => ready || left
  | .removeReady, _ => ready && left
  | _, _ => ready

namespace Handshake

def start (bundle : Option Nat) (stale : Bool) : Handshake where
  bundle := bundle
  ready := stale
  parent := .removing
  child := .absent
  trace := []

def step (program : UninstallProgram) (s : Handshake) : HandshakeStep → Option Handshake
  | .removeStale works =>
    match s.parent with
    | .removing => some { s with ready := s.ready && !works, parent := .spawning }
    | _ => none
  | .spawn works =>
    match s.parent with
    | .spawning =>
      if works then some { s with parent := .looking, child := .running program }
      else some { s with parent := .returned (.error .spawnFailed) }
    | _ => none
  | .look =>
    match s.parent with
    | .looking => some { s with parent := if s.ready then .returned (.ok ()) else .waiting }
    | _ => none
  | .tryWait works =>
    match s.parent with
    | .waiting =>
      if works then
        match s.child with
        | .exited => some { s with parent := .returned (.error .exited) }
        | _ => some { s with parent := .timing }
      else some { s with parent := .returned (.error .waitFailed) }
    | _ => none
  | .deadline late =>
    match s.parent with
    | .timing =>
      if late then some { s with child := .killed, parent := .returned (.error .timedOut) }
      else some { s with parent := .looking }
    | _ => none
  | .creates =>
    match s.child with
    | .running (.ask .writeReady _) => some { s with ready := true }
    | _ => none
  | .child answer left =>
    match s.child with
    | .running (.ask o k) =>
      if honest s.bundle o (answer o) then
        some { s with
          ready := readyAfter s.ready left o (answer o)
          child := .running (k (answer o))
          trace := s.trace ++ [⟨o, answer o⟩] }
      else none
    | _ => none
  | .childExit =>
    match s.child with
    | .running (.done _) => some { s with child := .exited }
    | _ => none
  | .homebrew bundle =>
    match s.parent with
    | .returned (.ok ()) => some { s with bundle := bundle }
    | _ => none

end Handshake

/-! ## What the child has asked -/

section

variable {debug : AdminResponse → String} {w : Polls}

/-- The child has read the inode of its bundle and has the handles on the services. -/
def Prepared (trace : List (Sigma UninstallOp.Reply)) : Prop :=
  ∃ bundleRoot inode, ⟨.resolveBundle, .ok (some bundleRoot)⟩ ∈ trace ∧
    ⟨.inode bundleRoot, .ok inode⟩ ∈ trace ∧ ⟨.unregisterHandles, .ok ()⟩ ∈ trace

theorem Prepared.mono {trace rest : List (Sigma UninstallOp.Reply)} (h : Prepared trace) :
    Prepared (trace ++ rest) := by
  obtain ⟨bundleRoot, inode, hresolved, hinode, hhandles⟩ := h
  exact ⟨bundleRoot, inode, List.mem_append_left _ hresolved, List.mem_append_left _ hinode,
    List.mem_append_left _ hhandles⟩

def UninstallOp.prepares : UninstallOp → Bool
  | inode _ => true
  | writeReady => true
  | _ => false

theorem unregisterIfPresent_prepares (s : ManagedService) :
    (unregisterIfPresent s).All fun o => o.prepares = false := by
  refine ⟨rfl, fun (r : ServiceStatus) => ?_⟩
  cases r with
  | notRegistered => trivial
  | notFound => trivial
  | enabled => exact ⟨rfl, fun _ => trivial⟩
  | requiresApproval => exact ⟨rfl, fun _ => trivial⟩
  | unknown raw => exact ⟨rfl, fun _ => trivial⟩

theorem unregister_prepares : unregister.All fun o => o.prepares = false := by
  refine Program.all_bind (unregisterIfPresent_prepares .agent) fun r => ?_
  cases r with
  | error message => trivial
  | ok _ => exact unregisterIfPresent_prepares .daemon

theorem afterRemovalWait_prepares (r : Except String Bool) :
    (afterRemovalWait debug r).All fun o => o.prepares = false := by
  cases r with
  | error message => trivial
  | ok removed =>
    refine ⟨rfl, fun _ => ?_⟩
    cases removed with
    | false => trivial
    | true =>
      refine ⟨rfl, fun _ => Program.all_bind unregister_prepares fun r => ?_⟩
      cases r with
      | error message => trivial
      | ok _ => trivial

/-- What the operations so far say about the next one. -/
structure ChildAt (w : Polls) (trace : List (Sigma UninstallOp.Reply)) (p : UninstallProgram) :
    Prop where
  writes : ∀ k, p = .ask .writeReady k → Prepared trace
  reads : ∀ bundleRoot k, p = .ask (.inode bundleRoot) k → ¬ Prepared trace
  gone : ∀ e ∈ trace, e.1.givesUp = true → ∃ bundleRoot inode,
    ⟨.inode bundleRoot, .ok inode⟩ ∈ trace ∧ (waitForBundleRemoval bundleRoot inode w).2 = .ok true

/-- Before the wait nothing is given up. -/
theorem childAt_before {trace : List (Sigma UninstallOp.Reply)} {p : UninstallProgram}
    (h : ∀ e ∈ trace, e.1.givesUp = false)
    (hwrites : ∀ k, p = .ask .writeReady k → Prepared trace)
    (hreads : ∀ bundleRoot k, p = .ask (.inode bundleRoot) k → ¬ Prepared trace) :
    ChildAt w trace p where
  writes := hwrites
  reads := hreads
  gone := by
    intro e he hgives
    rw [h e he] at hgives
    cases hgives

theorem childAt_done {trace : List (Sigma UninstallOp.Reply)} (r : Except String Unit)
    (h : ∀ e ∈ trace, e.1.givesUp = false) : ChildAt w trace (.done r) := by
  apply childAt_before h
  · intro k heq
    cases heq
  · intro bundleRoot k heq
    cases heq

/-- The child behind its wait. -/
theorem childAt_after {bundleRoot : Path} {inode : Nat}
    {before rest : List (Sigma UninstallOp.Reply)} {p : UninstallProgram}
    (hinode : ⟨.inode bundleRoot, .ok inode⟩ ∈ before)
    (hbefore : ∀ e ∈ before, e.1.givesUp = false)
    (h : (afterRemovalWait debug (waitForBundleRemoval bundleRoot inode w).2).Reaches rest p) :
    ChildAt w (before ++ rest) p := by
  have hnext := (h.all (afterRemovalWait_prepares _)).2
  refine ⟨fun k heq => ?_, fun bundleRoot' k heq => ?_, fun e he hgives => ?_⟩
  · rw [heq] at hnext
    cases hnext.1
  · rw [heq] at hnext
    cases hnext.1
  · refine ⟨bundleRoot, inode, List.mem_append_left _ hinode, ?_⟩
    by_contra hwait
    have hquiet := (h.all (afterRemovalWait_quiet debug hwait)).1
    rcases List.mem_append.mp he with hmem | hmem
    · rw [hbefore e hmem] at hgives
      cases hgives
    · rw [hquiet e hmem] at hgives
      cases hgives

theorem childAt_of_reaches {trace : List (Sigma UninstallOp.Reply)} {p : UninstallProgram}
    (h : (deferredUninstallServices debug w).Reaches trace p) : ChildAt w trace p := by
  -- The operations before the wait, one after the other.
  cases h with
  | here =>
    apply childAt_before (List.forall_mem_nil _)
    · intro k heq
      cases heq
    · intro bundleRoot k heq
      cases heq
  | next paths h =>
  cases (paths : Except String (Option Path)) with
  | error message =>
    cases h
    exact childAt_done _ (List.forall_mem_singleton.mpr rfl)
  | ok bundleRoot =>
  cases bundleRoot with
  | none =>
    cases h
    exact childAt_done _ (List.forall_mem_singleton.mpr rfl)
  | some bundleRoot =>
  cases h with
  | here =>
    apply childAt_before (List.forall_mem_singleton.mpr rfl)
    · intro k heq
      cases heq
    · rintro _ k _ ⟨_, _, _, hinode, _⟩
      cases List.mem_singleton.mp hinode
  | next inode h =>
  have hread : ∀ e ∈ [⟨.resolveBundle, .ok (some bundleRoot)⟩, ⟨.inode bundleRoot, inode⟩],
      UninstallOp.givesUp (Sigma.fst e) = false :=
    List.forall_mem_cons.mpr ⟨rfl, List.forall_mem_singleton.mpr rfl⟩
  cases (inode : Except String Nat) with
  | error message =>
    cases h
    exact childAt_done _ hread
  | ok inode =>
  cases h with
  | here =>
    apply childAt_before hread
    · intro k heq
      cases heq
    · intro bundleRoot k heq
      cases heq
  | next handles h =>
  have hhandled : ∀ e ∈ [⟨.resolveBundle, .ok (some bundleRoot)⟩,
      ⟨.inode bundleRoot, .ok inode⟩, ⟨.unregisterHandles, handles⟩],
      UninstallOp.givesUp (Sigma.fst e) = false :=
    List.forall_mem_cons.mpr ⟨rfl, List.forall_mem_cons.mpr ⟨rfl,
      List.forall_mem_singleton.mpr rfl⟩⟩
  cases (handles : Except String Unit) with
  | error message =>
    cases h
    exact childAt_done _ hhandled
  | ok _ =>
  cases h with
  | here =>
    apply childAt_before hhandled
    · intro k _
      exact ⟨bundleRoot, inode, .head _, .tail _ (.head _), .tail _ (.tail _ (.head _))⟩
    · intro bundleRoot k heq
      cases heq
  | next ready h =>
  have hwritten : ∀ e ∈ [⟨.resolveBundle, .ok (some bundleRoot)⟩,
      ⟨.inode bundleRoot, .ok inode⟩, ⟨.unregisterHandles, .ok ()⟩, ⟨.writeReady, ready⟩],
      UninstallOp.givesUp (Sigma.fst e) = false :=
    List.forall_mem_cons.mpr ⟨rfl, List.forall_mem_cons.mpr ⟨rfl, List.forall_mem_cons.mpr ⟨rfl,
      List.forall_mem_singleton.mpr rfl⟩⟩⟩
  cases (ready : Except String Unit) with
  | error message =>
    cases h
    exact childAt_done _ hwritten
  | ok _ => exact childAt_after (.tail _ (.head _)) hwritten h

end

/-! ## Any order of steps -/

namespace Handshake

def Follows (program : UninstallProgram) (trace : List (Sigma UninstallOp.Reply)) :
    Child → Prop
  | .absent => trace = []
  | .running p => program.Reaches trace p
  | _ => ∃ p, program.Reaches trace p

/-- What the parent may rely on before each of its calls. -/
def ParentAt (bundle : Option Nat) (stale : Bool) (s : Handshake) : Scheduler → Prop
  | .removing => s.bundle = bundle ∧ s.child = .absent ∧ s.ready = stale
  | .spawning => s.bundle = bundle ∧ s.child = .absent ∧ s.ready = false
  | .returned (.ok _) => Prepared s.trace
  | .returned (.error e) => s.bundle = bundle ∧ (e ≠ .waitFailed → ∀ p, s.child ≠ .running p)
  | _ => s.bundle = bundle ∧ (s.ready = true → Prepared s.trace)

structure Inv (program : UninstallProgram) (bundle : Option Nat) (stale : Bool) (s : Handshake) :
    Prop where
  parent : ParentAt bundle stale s s.parent
  follows : Follows program s.trace s.child
  read : ∀ bundleRoot inode, ⟨.inode bundleRoot, .ok inode⟩ ∈ s.trace → bundle = some inode

variable {debug : AdminResponse → String} {w : Polls} {bundle : Option Nat} {stale : Bool}
  {s s' : Handshake}

theorem inv_start (program : UninstallProgram) :
    Inv program bundle stale (start bundle stale) where
  parent := ⟨rfl, rfl, rfl⟩
  follows := rfl
  read := fun _ _ h => nomatch h

theorem inv_removeStale {program : UninstallProgram} (h : Inv program bundle stale s)
    {works : Bool} (hfresh : stale = false ∨ works = true)
    (hl : step program s (.removeStale works) = some s') : Inv program bundle stale s' := by
  obtain ⟨current, ready, parent, child, trace⟩ := s
  obtain ⟨hat, hfollows, hread⟩ := h
  cases parent <;> cases hl
  obtain ⟨hbundle, hchild, hready⟩ := hat
  refine ⟨⟨hbundle, hchild, ?_⟩, hfollows, hread⟩
  show (ready && !works) = false
  rcases hfresh with rfl | rfl
  · rw [show ready = false from hready, Bool.false_and]
  · rw [Bool.not_true, Bool.and_false]

theorem inv_spawn {program : UninstallProgram} (h : Inv program bundle stale s)
    {works : Bool} (hl : step program s (.spawn works) = some s') :
    Inv program bundle stale s' := by
  obtain ⟨current, ready, parent, child, trace⟩ := s
  obtain ⟨hat, hfollows, hread⟩ := h
  cases parent <;> cases works <;> cases hl
  · obtain ⟨hbundle, rfl, -⟩ := hat
    refine ⟨⟨hbundle, fun _ p hp => ?_⟩, hfollows, hread⟩
    cases hp
  · obtain ⟨hbundle, rfl, hready⟩ := hat
    obtain rfl : trace = [] := hfollows
    refine ⟨⟨hbundle, fun hthere => ?_⟩, .here _, hread⟩
    cases hready.symm.trans hthere

theorem inv_look {program : UninstallProgram} (h : Inv program bundle stale s)
    (hl : step program s .look = some s') : Inv program bundle stale s' := by
  obtain ⟨current, ready, parent, child, trace⟩ := s
  obtain ⟨hat, hfollows, hread⟩ := h
  cases parent <;> cases hl
  cases ready with
  | false => exact ⟨hat, hfollows, hread⟩
  | true => exact ⟨hat.2 rfl, hfollows, hread⟩

theorem inv_tryWait {program : UninstallProgram} (h : Inv program bundle stale s)
    {works : Bool} (hl : step program s (.tryWait works) = some s') :
    Inv program bundle stale s' := by
  obtain ⟨current, ready, parent, child, trace⟩ := s
  obtain ⟨hat, hfollows, hread⟩ := h
  cases parent <;> cases works <;> try cases hl
  · exact ⟨⟨hat.1, fun hne => absurd rfl hne⟩, hfollows, hread⟩
  · cases child with
    | exited =>
      cases hl
      exact ⟨⟨hat.1, fun _ p hp => nomatch hp⟩, hfollows, hread⟩
    | absent =>
      cases hl
      exact ⟨hat, hfollows, hread⟩
    | running p =>
      cases hl
      exact ⟨hat, hfollows, hread⟩
    | killed =>
      cases hl
      exact ⟨hat, hfollows, hread⟩

theorem reaches_of_follows {program : UninstallProgram} {trace : List (Sigma UninstallOp.Reply)}
    {child : Child} (h : Follows program trace child) : ∃ p, program.Reaches trace p := by
  cases child with
  | absent =>
    obtain rfl : trace = [] := h
    exact ⟨program, .here _⟩
  | running p => exact ⟨p, h⟩
  | exited => exact h
  | killed => exact h

theorem inv_deadline {program : UninstallProgram} (h : Inv program bundle stale s)
    {late : Bool} (hl : step program s (.deadline late) = some s') :
    Inv program bundle stale s' := by
  obtain ⟨current, ready, parent, child, trace⟩ := s
  obtain ⟨hat, hfollows, hread⟩ := h
  cases parent <;> cases late <;> cases hl
  · exact ⟨hat, hfollows, hread⟩
  · exact ⟨⟨hat.1, fun _ p hp => nomatch hp⟩, reaches_of_follows hfollows, hread⟩

/-- The child moves on, with the parent where it was. -/
theorem parentAt_child {p : UninstallProgram} (h : ParentAt bundle stale s s.parent)
    (hrunning : s.child = .running p) {ready : Bool} {child : Child}
    {trace : List (Sigma UninstallOp.Reply)} (hmono : Prepared s.trace → Prepared trace)
    (hready : (s.ready = true → Prepared s.trace) → ready = true → Prepared trace) :
    ParentAt bundle stale { s with ready := ready, child := child, trace := trace } s.parent := by
  obtain ⟨current, ready', parent, child', trace'⟩ := s
  obtain rfl : child' = .running p := hrunning
  cases parent with
  | removing => cases h.2.1
  | spawning => cases h.2.1
  | looking => exact ⟨h.1, hready h.2⟩
  | waiting => exact ⟨h.1, hready h.2⟩
  | timing => exact ⟨h.1, hready h.2⟩
  | returned r =>
    cases r with
    | ok _ => exact hmono h
    | error e => exact ⟨h.1, fun hne => absurd rfl (h.2 hne p)⟩

theorem inv_creates (h : Inv (deferredUninstallServices debug w) bundle stale s)
    (hl : step (deferredUninstallServices debug w) s .creates = some s') :
    Inv (deferredUninstallServices debug w) bundle stale s' := by
  dsimp only [step] at hl
  split at hl
  · rename_i k hrunning
    cases hl
    have hfollows := h.follows
    rw [hrunning] at hfollows
    have hprepared := (childAt_of_reaches hfollows).writes k rfl
    exact ⟨parentAt_child h.parent hrunning id fun _ _ => hprepared, h.follows, h.read⟩
  · cases hl

theorem inv_childExit {program : UninstallProgram} (h : Inv program bundle stale s)
    (hl : step program s .childExit = some s') : Inv program bundle stale s' := by
  dsimp only [step] at hl
  split at hl
  · rename_i r hrunning
    cases hl
    have hfollows := h.follows
    rw [hrunning] at hfollows
    exact ⟨parentAt_child h.parent hrunning id fun hready => hready, ⟨_, hfollows⟩, h.read⟩
  · cases hl

theorem readyAfter_cases {ready left : Bool} {o : UninstallOp} {r : o.Reply}
    (h : readyAfter ready left o r = true) : o = .writeReady ∨ ready = true := by
  cases o with
  | writeReady => exact Or.inl rfl
  | removeReady => exact Or.inr (Bool.and_eq_true_iff.mp h).1
  | resolveBundle => exact Or.inr h
  | inode bundleRoot => exact Or.inr h
  | unregisterHandles => exact Or.inr h
  | send req timeout => exact Or.inr h
  | status service => exact Or.inr h
  | unregister service => exact Or.inr h

/-- The bundle is replaced behind a parent that is done. -/
theorem kept_of_parentAt {t : Scheduler} (h : ParentAt bundle stale s t) :
    s.bundle = bundle ∨ Prepared s.trace := by
  cases t with
  | returned r =>
    cases r with
    | ok _ => exact Or.inr h
    | error e => exact Or.inl h.1
  | _ => exact Or.inl h.1

theorem inv_child (h : Inv (deferredUninstallServices debug w) bundle stale s)
    {answer : (o : UninstallOp) → o.Reply} {left : Bool}
    (hl : step (deferredUninstallServices debug w) s (.child answer left) = some s') :
    Inv (deferredUninstallServices debug w) bundle stale s' := by
  dsimp only [step] at hl
  split at hl
  · rename_i o k hrunning
    split at hl
    · rename_i hhonest
      cases hl
      have hfollows := h.follows
      rw [hrunning] at hfollows
      have hat := childAt_of_reaches hfollows
      refine ⟨parentAt_child h.parent hrunning Prepared.mono ?_, hfollows.concat _, ?_⟩
      · intro hready hafter
        rcases readyAfter_cases hafter with rfl | hthere
        · exact (hat.writes k rfl).mono
        · exact (hready hthere).mono
      · intro bundleRoot inode hmem
        rcases List.mem_append.mp hmem with hold | hlast
        · exact h.read bundleRoot inode hold
        have hkept := kept_of_parentAt h.parent
        cases o with
        | inode bundleRoot' =>
          obtain ⟨heq, hreply⟩ := Sigma.mk.inj (List.mem_singleton.mp hlast)
          cases heq
          rw [← eq_of_heq hreply] at hhonest
          rw [← hkept.resolve_right (hat.reads bundleRoot k rfl)]
          exact of_decide_eq_true hhonest
        | _ => cases congrArg Sigma.fst (List.mem_singleton.mp hlast)
    · cases hl
  · cases hl

theorem inv_step (h : Inv (deferredUninstallServices debug w) bundle stale s) {l : HandshakeStep}
    (hfresh : stale = false ∨ l ≠ .removeStale false)
    (hl : step (deferredUninstallServices debug w) s l = some s') :
    Inv (deferredUninstallServices debug w) bundle stale s' := by
  cases l with
  | removeStale works =>
    refine inv_removeStale h (hfresh.imp_right fun hne => ?_) hl
    cases works with
    | true => rfl
    | false => exact absurd rfl hne
  | spawn works => exact inv_spawn h hl
  | look => exact inv_look h hl
  | tryWait works => exact inv_tryWait h hl
  | deadline late => exact inv_deadline h hl
  | creates => exact inv_creates h hl
  | child answer left => exact inv_child h hl
  | childExit => exact inv_childExit h hl
  | homebrew next =>
    obtain ⟨current, ready, parent, child, trace⟩ := s
    obtain ⟨hat, hfollows, hread⟩ := h
    cases parent with
    | returned r =>
      cases r with
      | ok _ =>
        cases hl
        exact ⟨hat, hfollows, hread⟩
      | error e => cases hl
    | _ => cases hl

theorem inv_run {labels : List HandshakeStep}
    (hfresh : stale = false ∨ .removeStale false ∉ labels)
    (h : Transition.exec (step (deferredUninstallServices debug w)) (start bundle stale) labels =
      some s) :
    Inv (deferredUninstallServices debug w) bundle stale s := by
  revert hfresh
  have hnext : ∀ (past : List HandshakeStep) (t : Handshake) (l : HandshakeStep) (u : Handshake),
      Transition.exec (step (deferredUninstallServices debug w)) (start bundle stale) past =
        some t →
      ((stale = false ∨ .removeStale false ∉ past) →
        Inv (deferredUninstallServices debug w) bundle stale t) →
      step (deferredUninstallServices debug w) t l = some u →
      (stale = false ∨ .removeStale false ∉ past ++ [l]) →
        Inv (deferredUninstallServices debug w) bundle stale u := by
    intro past t l u _ ih hl hfresh
    refine inv_step (ih (hfresh.imp_right fun hnot hmem => ?_))
      (hfresh.imp_right fun hnot heq => ?_) hl
    · exact hnot (List.mem_append_left _ hmem)
    · exact hnot (List.mem_append_right _ (List.mem_singleton.mpr heq.symm))
  exact Transition.exec_history (fun _ => by exact inv_start _) hnext h

/-- Homebrew is let go on only when the child knows the bundle that it is to watch, so an
upgrade cannot be taken for a removal, and a child that is given up does nothing more. -/
theorem homebrew_waits (debug : AdminResponse → String) (w : Polls) (bundle : Option Nat)
    (stale : Bool) (labels : List HandshakeStep) (s : Handshake)
    (hrun : Transition.exec (step (deferredUninstallServices debug w)) (start bundle stale) labels =
      some s)
    (hfresh : stale = false ∨ .removeStale false ∉ labels) :
    (s.parent = .returned (.ok ()) → ∃ bundleRoot inode, bundle = some inode ∧
      ⟨.resolveBundle, .ok (some bundleRoot)⟩ ∈ s.trace ∧
      ⟨.inode bundleRoot, .ok inode⟩ ∈ s.trace ∧ ⟨.unregisterHandles, .ok ()⟩ ∈ s.trace) ∧
    (∀ e ∈ s.trace, e.1.givesUp = true → ∃ inode m n, bundle = some inode ∧
      Absence inode w m n ∧ Undisturbed inode w n) ∧
    (∀ e, s.parent = .returned (.error e) → e ≠ .waitFailed → ∀ answer left,
      step (deferredUninstallServices debug w) s (.child answer left) = none) := by
  have hinv := inv_run hfresh hrun
  have hat := hinv.parent
  have hfollows := hinv.follows
  refine ⟨fun hparent => ?_, fun e he hgives => ?_, fun e hparent he answer left => ?_⟩
  · rw [hparent] at hat
    obtain ⟨bundleRoot, inode, hresolved, hinode, hhandles⟩ := hat
    exact ⟨bundleRoot, inode, hinv.read bundleRoot inode hinode, hresolved, hinode, hhandles⟩
  · obtain ⟨p, hreaches⟩ := reaches_of_follows hfollows
    obtain ⟨bundleRoot, inode, hinode, hremoved⟩ := (childAt_of_reaches hreaches).gone e he hgives
    obtain ⟨m, habsent, hundisturbed, -⟩ := (careful_wait bundleRoot inode w).removed hremoved
    exact ⟨inode, m, _, hinv.read bundleRoot inode hinode, habsent, hundisturbed⟩
  · rw [hparent] at hat
    dsimp only [step]
    split
    · rename_i o k hrunning
      exact absurd hrunning (hat.2 he _)
    · rfl

def steadyAnswer : (o : UninstallOp) → o.Reply
  | .resolveBundle => Except.ok (some (Path.parse "/Applications/Konstantin.app"))
  | .inode _ => Except.ok 7
  | .unregisterHandles => Except.ok ()
  | .writeReady => Except.ok ()
  | .removeReady => ()
  | .send .. => Except.ok .ok
  | .status _ => ServiceStatus.enabled
  | .unregister _ => Except.ok ()

/-- The parent looks once too early, and then while the file is still being written. -/
def earlySteps : List HandshakeStep :=
  [.removeStale true, .spawn true, .look, .tryWait true, .child steadyAnswer false,
    .child steadyAnswer false, .child steadyAnswer false, .deadline false, .creates, .look,
    .homebrew (some 8)]

theorem homebrew_waits_early : ∃ s, Transition.exec
      (step (deferredUninstallServices (fun _ => "") (.steady fun _ => .error .notFound)))
      (start (some 7) true) earlySteps = some s ∧
    s.bundle = some 8 ∧ ∃ bundleRoot inode, some 7 = some inode ∧
      ⟨.resolveBundle, .ok (some bundleRoot)⟩ ∈ s.trace ∧
      ⟨.inode bundleRoot, .ok inode⟩ ∈ s.trace ∧ ⟨.unregisterHandles, .ok ()⟩ ∈ s.trace := by
  refine ⟨_, rfl, rfl, (homebrew_waits (fun _ => "") (.steady fun _ => .error .notFound) (some 7)
    true earlySteps _ rfl (Or.inr ?_)).1 rfl⟩
  simp [earlySteps]

end Handshake

end Tray
end Konstantin
