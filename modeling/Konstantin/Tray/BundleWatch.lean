import Mathlib.Algebra.Group.Int.Defs
import Mathlib.Algebra.Group.Nat.Defs
import Mathlib.Order.Monotone.Basic
import Konstantin.Effect.Polling
import Konstantin.Effect.Program
import Konstantin.Fs.Path
import Konstantin.Proto.Admin

/-!
# The deferred uninstall

The child process of `crates/tray/src/bin/tray.rs` that a Homebrew uninstall leaves
behind.  It watches the app bundle, which an upgrade replaces and an uninstall
removes, and gives up the services only after a removal.

Instants of the monotonic clock are counted in nanoseconds.
-/

namespace Konstantin
namespace Tray

open Fs Effect Proto

inductive BundleObservation where
  | original
  | replaced
  | missing
  deriving DecidableEq

/-- An error of `fs::metadata`. -/
inductive MetadataError where
  | notFound
  | other (kind : String)
  deriving DecidableEq

def observeBundle (originalInode : Nat) :
    Except MetadataError Nat → Except MetadataError BundleObservation
  | .ok inode => if inode ≠ originalInode then .ok .replaced else .ok .original
  | .error .notFound => .ok .missing
  | .error e => .error e

def removalTimeout : Nat := 120 * 10 ^ 9

def removalGrace : Nat := 20 * 10 ^ 9

def pollInterval : Nat := 250 * 10 ^ 6

/-- One turn of the loop: the metadata of the bundle root, and what the clock says
where a new absence is noted, where its length is taken, and where the deadline is
compared. -/
structure Poll where
  metadata : Except MetadataError Nat
  noted : Nat
  measured : Nat
  checked : Nat

/-- The polls of one wait, a sleep apart. -/
structure Polls where
  started : Nat
  poll : Nat → Poll
  begins : started ≤ (poll 0).noted
  noted_le : ∀ i, (poll i).noted ≤ (poll i).measured
  measured_le : ∀ i, (poll i).measured ≤ (poll i).checked
  sleeps : ∀ i, (poll i).checked + pollInterval ≤ (poll (i + 1)).noted

namespace Polls

def deadline (w : Polls) : Nat := w.started + removalTimeout

theorem checked_step (w : Polls) (i : Nat) :
    (w.poll i).checked + pollInterval ≤ (w.poll (i + 1)).checked := by
  have hsleep := w.sleeps i
  have hnoted := w.noted_le (i + 1)
  have hmeasured := w.measured_le (i + 1)
  omega

theorem noted_mono (w : Polls) {i j : Nat} (h : i ≤ j) : (w.poll i).noted ≤ (w.poll j).noted := by
  have hmono : Monotone fun i => (w.poll i).noted := by
    refine monotone_nat_of_le_succ fun i => ?_
    have hnoted := w.noted_le i
    have hmeasured := w.measured_le i
    have hsleep := w.sleeps i
    omega
  exact hmono h

/-- The polls get late. -/
theorem le_checked (w : Polls) (i : Nat) : w.started + i * pollInterval ≤ (w.poll i).checked := by
  induction i with
  | zero =>
    have hbegins := w.begins
    have hnoted := w.noted_le 0
    have hmeasured := w.measured_le 0
    omega
  | succ i ih =>
    have hstep := w.checked_step i
    rw [Nat.succ_mul]
    omega

end Polls

section

variable (bundleRoot : Path) (originalInode : Nat) (w : Polls)

def checkingMessage : String := "checking app bundle at " ++ bundleRoot.display

def timedOutMessage : String :=
  "timed out waiting for Homebrew to remove or replace the app bundle"

/-- The end of a turn that decided nothing. -/
def sleepUnlessLate (i : Nat) (missingSince : Option Nat) : Except String Bool ⊕ Option Nat :=
  if w.deadline ≤ (w.poll i).checked then .inl (.error timedOutMessage) else .inr missingSince

def watchTurn (i : Nat) (missingSince : Option Nat) : Except String Bool ⊕ Option Nat :=
  match observeBundle originalInode (w.poll i).metadata with
  | .ok .replaced => .inl (.ok false)
  | .ok .original => sleepUnlessLate w i none
  | .ok .missing =>
    let since := missingSince.getD (w.poll i).noted
    if removalGrace ≤ (w.poll i).measured - since then .inl (.ok true)
    else sleepUnlessLate w i (some since)
  | .error _ => .inl (.error (checkingMessage bundleRoot))

theorem sleepUnlessLate_inr {i : Nat} {s t : Option Nat} (h : sleepUnlessLate w i s = .inr t) :
    t = s ∧ (w.poll i).checked < w.deadline := by
  unfold sleepUnlessLate at h
  split at h
  · cases h
  · rename_i hlate
    cases h
    exact ⟨rfl, by omega⟩

theorem sleepUnlessLate_inl {i : Nat} {s : Option Nat} {r : Except String Bool}
    (h : sleepUnlessLate w i s = .inl r) :
    r = .error timedOutMessage ∧ w.deadline ≤ (w.poll i).checked := by
  unfold sleepUnlessLate at h
  split at h
  · rename_i hlate
    cases h
    exact ⟨rfl, hlate⟩
  · cases h

/-- The turns that go on: what is seen, and what is remembered of it. -/
theorem watchTurn_inr {i : Nat} {s t : Option Nat}
    (h : watchTurn bundleRoot originalInode w i s = .inr t) :
    (w.poll i).checked < w.deadline ∧
      ((observeBundle originalInode (w.poll i).metadata = .ok .original ∧ t = none) ∨
        (observeBundle originalInode (w.poll i).metadata = .ok .missing ∧
          t = some (s.getD (w.poll i).noted) ∧
          (w.poll i).measured - s.getD (w.poll i).noted < removalGrace)) := by
  unfold watchTurn at h
  split at h
  · cases h
  · rename_i hseen
    obtain ⟨rfl, hearly⟩ := sleepUnlessLate_inr w h
    exact ⟨hearly, Or.inl ⟨hseen, rfl⟩⟩
  · rename_i hseen
    dsimp only at h
    split at h
    · cases h
    · rename_i hshort
      obtain ⟨rfl, hearly⟩ := sleepUnlessLate_inr w h
      exact ⟨hearly, Or.inr ⟨hseen, rfl, by omega⟩⟩
  · cases h

def watcher : Poller (Option Nat) (Except String Bool) where
  turn := watchTurn bundleRoot originalInode w
  room i := w.deadline + pollInterval - (w.poll i).checked
  shrinks := by
    intro i s t h
    have hearly := (watchTurn_inr bundleRoot originalInode w h).1
    have hstep := w.checked_step i
    have hpos : 0 < pollInterval := by decide
    omega

/-- `wait_for_bundle_removal`, with the number of the poll at which it returns. -/
def waitForBundleRemoval : Nat × Except String Bool :=
  (watcher bundleRoot originalInode w).runFrom 0 none

end

/-! ## What decides a wait -/

section

variable (originalInode : Nat) (w : Polls)

def seen (i : Nat) : Except MetadataError BundleObservation :=
  observeBundle originalInode (w.poll i).metadata

/-- Every poll from `m` to `n` saw no bundle, and they span the grace period. -/
structure Absence (m n : Nat) : Prop where
  le : m ≤ n
  missing : ∀ k, m ≤ k → k ≤ n → seen originalInode w k = .ok .missing
  long : (w.poll m).noted + removalGrace ≤ (w.poll n).measured

def Undisturbed (n : Nat) : Prop :=
  ∀ k < n, seen originalInode w k ≠ .ok .replaced ∧ ∀ e, seen originalInode w k ≠ .error e

/-- A poll that settles what became of the bundle. -/
def Decisive (n : Nat) : Prop :=
  seen originalInode w n = .ok .replaced ∨ (∃ e, seen originalInode w n = .error e) ∨
    ∃ m, Absence originalInode w m n

def Over (n : Nat) : Prop := Decisive originalInode w n ∨ w.deadline ≤ (w.poll n).checked

inductive Verdict (bundleRoot : Path) (n : Nat) : Except String Bool → Prop where
  | replaced (h : seen originalInode w n = .ok .replaced) : Verdict bundleRoot n (.ok false)
  | unreadable {e : MetadataError} (h : seen originalInode w n = .error e) :
      Verdict bundleRoot n (.error (checkingMessage bundleRoot))
  | removed {m : Nat} (h : Absence originalInode w m n) : Verdict bundleRoot n (.ok true)
  | late (hundecided : ¬ Decisive originalInode w n) (h : w.deadline ≤ (w.poll n).checked) :
      Verdict bundleRoot n (.error timedOutMessage)

/-- What the loop knows before turn `i`: the absence that is going on began at `m`. -/
structure Waiting (i : Nat) (missingSince : Option Nat) : Prop where
  going : ∀ k < i, ¬ Over originalInode w k
  since : ∃ m ≤ i, (∀ k, m ≤ k → k < i → seen originalInode w k = .ok .missing) ∧
    (∀ k < m, m ≤ k + 1 → seen originalInode w k = .ok .original) ∧
    missingSince.getD (w.poll i).noted = (w.poll m).noted

variable {originalInode w}

/-- No absence is longer than the one that began last. -/
theorem not_absence_of_short {m n : Nat} (hm : m ≤ n)
    (hbegun : ∀ k < m, m ≤ k + 1 → seen originalInode w k = .ok .original)
    (hshort : (w.poll n).measured < (w.poll m).noted + removalGrace) :
    ¬ ∃ m', Absence originalInode w m' n := by
  rintro ⟨m', habsent⟩
  have hlong := habsent.long
  by_cases hm' : m ≤ m'
  · have hmono := w.noted_mono hm'
    omega
  · have horiginal := hbegun (m - 1) (by omega) (by omega)
    rw [habsent.missing (m - 1) (by omega) (by omega)] at horiginal
    cases horiginal

theorem not_decisive {n : Nat} {o : BundleObservation} (hseen : seen originalInode w n = .ok o)
    (ho : o ≠ .replaced) (habsent : ¬ ∃ m, Absence originalInode w m n) :
    ¬ Decisive originalInode w n := by
  rintro (hreplaced | ⟨e, herror⟩ | hlong)
  · rw [hseen] at hreplaced
    exact ho (Except.ok.inj hreplaced)
  · rw [hseen] at herror
    cases herror
  · exact habsent hlong

theorem not_absence_of_original {n : Nat} (hseen : seen originalInode w n = .ok .original) :
    ¬ ∃ m, Absence originalInode w m n := by
  rintro ⟨m, habsent⟩
  rw [habsent.missing n habsent.le (Nat.le_refl n)] at hseen
  cases hseen

theorem waiting_start : Waiting originalInode w 0 none where
  going := fun k hk => absurd hk (Nat.not_lt_zero k)
  since := ⟨0, Nat.le_refl 0, fun k _ hk => absurd hk (Nat.not_lt_zero k),
    fun k hk _ => absurd hk (Nat.not_lt_zero k), rfl⟩

theorem going_succ {i : Nat} (h : ∀ k < i, ¬ Over originalInode w k)
    (hundecided : ¬ Decisive originalInode w i) (hearly : (w.poll i).checked < w.deadline) :
    ∀ k < i + 1, ¬ Over originalInode w k := by
  intro k hk
  by_cases hki : k = i
  · rw [hki]
    rintro (hdecisive | hlate)
    · exact hundecided hdecisive
    · omega
  · exact h k (by omega)

theorem missing_succ {m i : Nat} (hseen : seen originalInode w i = .ok .missing)
    (hmissing : ∀ k, m ≤ k → k < i → seen originalInode w k = .ok .missing) :
    ∀ k, m ≤ k → k ≤ i → seen originalInode w k = .ok .missing := by
  intro k hmk hki
  by_cases hlast : k = i
  · rw [hlast]
    exact hseen
  · exact hmissing k hmk (by omega)

theorem waiting_step (bundleRoot : Path) {i : Nat} {s t : Option Nat}
    (h : Waiting originalInode w i s) (hturn : watchTurn bundleRoot originalInode w i s = .inr t) :
    Waiting originalInode w (i + 1) t := by
  obtain ⟨m, hm, hmissing, hbegun, hsince⟩ := h.since
  obtain ⟨hearly, ⟨hseen, rfl⟩ | ⟨hseen, rfl, hshort⟩⟩ :=
    watchTurn_inr bundleRoot originalInode w hturn
  · have hundecided := not_decisive hseen (by decide) (not_absence_of_original hseen)
    refine ⟨going_succ h.going hundecided hearly, i + 1, Nat.le_refl _,
      fun k hik hki => by omega, fun k hk hik => ?_, rfl⟩
    obtain rfl : k = i := by omega
    exact hseen
  · rw [hsince] at hshort ⊢
    have hnoted := w.noted_mono hm
    have hmeasured := w.noted_le i
    have hundecided := not_decisive hseen (by decide)
      (not_absence_of_short hm hbegun (by omega))
    exact ⟨going_succ h.going hundecided hearly, m, by omega,
      fun k hmk hki => missing_succ hseen hmissing k hmk (by omega), hbegun, rfl⟩

theorem verdict_of_turn (bundleRoot : Path) {i : Nat} {s : Option Nat} {r : Except String Bool}
    (h : Waiting originalInode w i s) (hturn : watchTurn bundleRoot originalInode w i s = .inl r) :
    Verdict originalInode w bundleRoot i r := by
  obtain ⟨m, hm, hmissing, hbegun, hsince⟩ := h.since
  unfold watchTurn at hturn
  split at hturn
  · rename_i hseen
    cases hturn
    exact .replaced hseen
  · rename_i hseen
    obtain ⟨rfl, hlate⟩ := sleepUnlessLate_inl w hturn
    exact .late (not_decisive hseen (by decide) (not_absence_of_original hseen)) hlate
  · rename_i hseen
    dsimp only at hturn
    rw [hsince] at hturn
    have hnoted := w.noted_mono hm
    have hmeasured := w.noted_le i
    split at hturn
    · rename_i hlong
      cases hturn
      exact .removed ⟨hm, missing_succ hseen hmissing, by omega⟩
    · rename_i hshort
      obtain ⟨rfl, hlate⟩ := sleepUnlessLate_inl w hturn
      exact .late (not_decisive hseen (by decide)
        (not_absence_of_short hm hbegun (by omega))) hlate
  · rename_i e hseen
    cases hturn
    exact .unreadable hseen

variable (originalInode w)

/-- The wait ends at the first poll that decides or is late. -/
theorem waitForBundleRemoval_spec (bundleRoot : Path) :
    (∀ k < (waitForBundleRemoval bundleRoot originalInode w).1, ¬ Over originalInode w k) ∧
      Verdict originalInode w bundleRoot (waitForBundleRemoval bundleRoot originalInode w).1
        (waitForBundleRemoval bundleRoot originalInode w).2 := by
  refine Poller.runFrom_spec (P := watcher bundleRoot originalInode w)
    (I := Waiting originalInode w)
    (Q := fun n r => (∀ k < n, ¬ Over originalInode w k) ∧
      Verdict originalInode w bundleRoot n r)
    (fun i s t h hturn => waiting_step bundleRoot h hturn)
    (fun i s r h hturn => ⟨h.going, verdict_of_turn bundleRoot h hturn⟩) 0 none waiting_start

end

/-! ## The deferred uninstall -/

inductive ManagedService where
  | agent
  | daemon
  deriving DecidableEq

inductive ServiceStatus where
  | notRegistered
  | enabled
  | requiresApproval
  | notFound
  | unknown (raw : Int)
  deriving DecidableEq

inductive UninstallOp where
  | resolveBundle
  | inode (bundleRoot : Path)
  | unregisterHandles
  | writeReady
  | removeReady
  | send (req : AdminRequest) (timeout : Nat)
  | status (s : ManagedService)
  | unregister (s : ManagedService)

def UninstallOp.Reply : UninstallOp → Type
  | resolveBundle => Except String (Option Path)
  | inode _ => Except String Nat
  | unregisterHandles => Except String Unit
  | writeReady => Except String Unit
  | removeReady => Unit
  | send .. => Except String AdminResponse
  | status _ => ServiceStatus
  | unregister _ => Except String Unit

namespace UninstallOp

/-- The counters or a service are given up. -/
def givesUp : UninstallOp → Bool
  | send .. => true
  | unregister _ => true
  | _ => false

end UninstallOp

def uninstallSendTimeout : Nat := 10 * 10 ^ 9

def unregisterIfPresent (s : ManagedService) :
    Program UninstallOp UninstallOp.Reply (Except String Unit) :=
  .ask (.status s) fun (status : ServiceStatus) =>
    match status with
    | .notRegistered => .done (.ok ())
    | .notFound => .done (.ok ())
    | _ => .ask (.unregister s) fun (r : Except String Unit) => .done r

/-- `UnregisterHandles::unregister`. -/
def unregister : Program UninstallOp UninstallOp.Reply (Except String Unit) :=
  (unregisterIfPresent .agent).bind fun r =>
    match r with
    | .error message => .done (.error message)
    | .ok () => unregisterIfPresent .daemon

/-- The outcome of the cleanup, with the derived printing of a reply. -/
def cleanup (debug : AdminResponse → String) : Except String AdminResponse → Except String Unit
  | .ok .ok => .ok ()
  | .ok (.unauthorized reason) => .error ("not authorized to prepare uninstall: " ++ reason)
  | .ok (.error message) => .error message
  | .ok other => .error ("unexpected daemon response during uninstall: " ++ debug other)
  | .error _ => .ok ()

/-- What follows the wait. -/
def afterRemovalWait (debug : AdminResponse → String) :
    Except String Bool → Program UninstallOp UninstallOp.Reply (Except String Unit)
  | .error message => .done (.error message)
  | .ok removed =>
    .ask .removeReady fun _ =>
      if !removed then .done (.ok ())
      else
        .ask (.send (.prepareUninstall true) uninstallSendTimeout)
          fun (reply : Except String AdminResponse) =>
            unregister.bind fun r =>
              match r with
              | .error message => .done (.error message)
              | .ok () => .done (cleanup debug reply)

def deferredUninstallServices (debug : AdminResponse → String) (w : Polls) :
    Program UninstallOp UninstallOp.Reply (Except String Unit) :=
  .ask .resolveBundle fun (paths : Except String (Option Path)) =>
    match paths with
    | .error message => .done (.error message)
    | .ok none => .done (.error "deferred uninstall requires an app bundle")
    | .ok (some bundleRoot) =>
      .ask (.inode bundleRoot) fun (inode : Except String Nat) =>
        match inode with
        | .error message => .done (.error message)
        | .ok originalInode =>
          .ask .unregisterHandles fun (handles : Except String Unit) =>
            match handles with
            | .error message => .done (.error message)
            | .ok () =>
              .ask .writeReady fun (ready : Except String Unit) =>
                match ready with
                | .error message => .done (.error message)
                | .ok () =>
                  afterRemovalWait debug (waitForBundleRemoval bundleRoot originalInode w).2

/-- What the machine answers to one deferred uninstall. -/
structure Uninstall where
  bundleRoot : Except String (Option Path)
  inode : Except String Nat
  handles : Except String Unit
  ready : Except String Unit
  reply : Except String AdminResponse
  status : ManagedService → ServiceStatus
  unregistered : ManagedService → Except String Unit

def Uninstall.answer : (o : UninstallOp) → Uninstall → o.Reply × Uninstall
  | .resolveBundle, u => (u.bundleRoot, u)
  | .inode _, u => (u.inode, u)
  | .unregisterHandles, u => (u.handles, u)
  | .writeReady, u => (u.ready, u)
  | .removeReady, u => ((), u)
  | .send .., u => (u.reply, u)
  | .status s, u => (u.status s, u)
  | .unregister s, u => (u.unregistered s, u)

def Uninstall.asked (u : Uninstall) (debug : AdminResponse → String) (w : Polls) :
    List UninstallOp :=
  ((deferredUninstallServices debug w).run Uninstall.answer u).asked

theorem afterRemovalWait_quiet (debug : AdminResponse → String) {r : Except String Bool}
    (h : r ≠ .ok true) : (afterRemovalWait debug r).All fun o => o.givesUp = false := by
  cases r with
  | error message => trivial
  | ok removed =>
    cases removed with
    | true => exact absurd rfl h
    | false => exact ⟨rfl, fun _ => trivial⟩

/-- Nothing is given up but after a wait that saw the bundle gone. -/
theorem removed_of_givesUp (u : Uninstall) (debug : AdminResponse → String) (w : Polls) :
    (∀ o ∈ u.asked debug w, o.givesUp = false) ∨
      ∃ bundleRoot originalInode, u.bundleRoot = .ok (some bundleRoot) ∧
        u.inode = .ok originalInode ∧
        (waitForBundleRemoval bundleRoot originalInode w).2 = .ok true := by
  obtain ⟨paths, inode, handles, ready, reply, status, unregistered⟩ := u
  cases paths with
  | error message => exact Or.inl (List.forall_mem_singleton.mpr rfl)
  | ok bundleRoot =>
    cases bundleRoot with
    | none => exact Or.inl (List.forall_mem_singleton.mpr rfl)
    | some bundleRoot =>
      cases inode with
      | error message =>
        exact Or.inl (List.forall_mem_cons.mpr ⟨rfl, List.forall_mem_singleton.mpr rfl⟩)
      | ok originalInode =>
        by_cases hwait : (waitForBundleRemoval bundleRoot originalInode w).2 = .ok true
        · exact Or.inr ⟨bundleRoot, originalInode, rfl, rfl, hwait⟩
        have hafter := afterRemovalWait_quiet debug hwait
        refine Or.inl (List.forall_mem_cons.mpr ⟨rfl, List.forall_mem_cons.mpr ⟨rfl, ?_⟩⟩)
        refine List.forall_mem_cons.mpr ⟨rfl, ?_⟩
        cases handles with
        | error message => exact List.forall_mem_nil _
        | ok _ =>
          refine List.forall_mem_cons.mpr ⟨rfl, ?_⟩
          cases ready with
          | error message => exact List.forall_mem_nil _
          | ok _ => exact Program.asked_of_all hafter _

/-! ## The guarantee -/

/-- What a wait promises, by the poll `n` at which it returns and its result. -/
structure Careful (originalInode : Nat) (w : Polls) (n : Nat) (r : Except String Bool) : Prop where
  removed : r = .ok true → ∃ m, Absence originalInode w m n ∧ Undisturbed originalInode w n ∧
    ∀ k ≤ n, seen originalInode w k = .ok .original → k < m
  uninstalled : r = .ok true ↔ ∃ k m, Absence originalInode w m k ∧
    ∀ j < k, ¬ Over originalInode w j
  replaced : r = .ok false ↔ ∃ k, seen originalInode w k = .ok .replaced ∧
    ∀ j < k, ¬ Over originalInode w j
  ends : ∀ k, w.deadline ≤ (w.poll k).checked → n ≤ k
  bounded : n ≤ removalTimeout / pollInterval

/-- Two polls that are over, with none before, are one. -/
theorem first_over {originalInode : Nat} {w : Polls} {n k : Nat}
    (hn : ∀ j < n, ¬ Over originalInode w j) (hover : Over originalInode w n)
    (hk : ∀ j < k, ¬ Over originalInode w j) (hover' : Over originalInode w k) : k = n := by
  by_cases hlt : k < n
  · exact absurd hover' (hn k hlt)
  · by_cases hgt : n < k
    · exact absurd hover (hk n hgt)
    · omega

theorem over_of_verdict {bundleRoot : Path} {originalInode : Nat} {w : Polls} {n : Nat}
    {r : Except String Bool} (h : Verdict originalInode w bundleRoot n r) :
    Over originalInode w n := by
  cases h with
  | replaced hseen => exact Or.inl (Or.inl hseen)
  | unreadable hseen => exact Or.inl (Or.inr (Or.inl ⟨_, hseen⟩))
  | removed habsent => exact Or.inl (Or.inr (Or.inr ⟨_, habsent⟩))
  | late _ hlate => exact Or.inr hlate

/-- A wait returns at the first late poll at the latest. -/
theorem le_of_late {originalInode : Nat} {w : Polls} {n k : Nat}
    (hgoing : ∀ j < n, ¬ Over originalInode w j) (hlate : w.deadline ≤ (w.poll k).checked) :
    n ≤ k := by
  by_cases hk : n ≤ k
  · exact hk
  · exact absurd (Or.inr hlate) (hgoing k (by omega))

theorem careful_of_verdict {bundleRoot : Path} {originalInode : Nat} {w : Polls} {n : Nat}
    {r : Except String Bool} (hgoing : ∀ k < n, ¬ Over originalInode w k)
    (h : Verdict originalInode w bundleRoot n r) : Careful originalInode w n r where
  removed := by
    rintro rfl
    cases h with
    | @removed m habsent =>
      refine ⟨m, habsent, fun k hk => ⟨fun hreplaced => ?_, fun e herror => ?_⟩,
        fun k hk horiginal => ?_⟩
      · exact hgoing k hk (Or.inl (Or.inl hreplaced))
      · exact hgoing k hk (Or.inl (Or.inr (Or.inl ⟨e, herror⟩)))
      · by_cases hmk : m ≤ k
        · rw [habsent.missing k hmk hk] at horiginal
          cases horiginal
        · omega
  uninstalled := by
    constructor
    · rintro rfl
      cases h with
      | removed habsent => exact ⟨n, _, habsent, hgoing⟩
    · rintro ⟨k, m, habsent, hk⟩
      have hdecisive : Decisive originalInode w k := Or.inr (Or.inr ⟨m, habsent⟩)
      have hmissing := habsent.missing k habsent.le (Nat.le_refl k)
      obtain rfl := first_over hgoing (over_of_verdict h) hk (Or.inl hdecisive)
      cases h with
      | replaced hseen => cases hmissing.symm.trans hseen
      | unreadable hseen => cases hmissing.symm.trans hseen
      | removed _ => rfl
      | late hundecided _ => exact absurd hdecisive hundecided
  replaced := by
    constructor
    · rintro rfl
      cases h with
      | replaced hseen => exact ⟨n, hseen, hgoing⟩
    · rintro ⟨k, hreplaced, hk⟩
      have hdecisive : Decisive originalInode w k := Or.inl hreplaced
      obtain rfl := first_over hgoing (over_of_verdict h) hk (Or.inl hdecisive)
      cases h with
      | replaced _ => rfl
      | unreadable hseen => cases hreplaced.symm.trans hseen
      | removed habsent =>
        cases hreplaced.symm.trans (habsent.missing k habsent.le (Nat.le_refl k))
      | late hundecided _ => exact absurd hdecisive hundecided
  ends := fun _ hlate => le_of_late hgoing hlate
  bounded := by
    have hlate : w.deadline ≤ (w.poll (removalTimeout / pollInterval)).checked := by
      have hchecked := w.le_checked (removalTimeout / pollInterval)
      have hexact : removalTimeout / pollInterval * pollInterval = removalTimeout := by decide
      rw [hexact] at hchecked
      exact hchecked
    exact le_of_late hgoing hlate

theorem careful_wait (bundleRoot : Path) (originalInode : Nat) (w : Polls) :
    Careful originalInode w (waitForBundleRemoval bundleRoot originalInode w).1
      (waitForBundleRemoval bundleRoot originalInode w).2 := by
  obtain ⟨hgoing, hverdict⟩ := waitForBundleRemoval_spec originalInode w bundleRoot
  exact careful_of_verdict hgoing hverdict

/-- An upgrade is never taken for a removal. -/
theorem removal_never_upgrade (debug : AdminResponse → String) (w : Polls) :
    (∀ bundleRoot originalInode,
      Careful originalInode w (waitForBundleRemoval bundleRoot originalInode w).1
        (waitForBundleRemoval bundleRoot originalInode w).2) ∧
    ∀ u : Uninstall, ∀ o ∈ u.asked debug w, o.givesUp = true →
      ∃ originalInode m n, u.inode = .ok originalInode ∧ Absence originalInode w m n ∧
        Undisturbed originalInode w n := by
  refine ⟨fun bundleRoot originalInode => careful_wait bundleRoot originalInode w, ?_⟩
  intro u o ho hgives
  rcases removed_of_givesUp u debug w with hquiet | ⟨bundleRoot, originalInode, -, hinode, hremoved⟩
  · rw [hquiet o ho] at hgives
    cases hgives
  obtain ⟨m, habsent, hundisturbed, -⟩ :=
    (careful_wait bundleRoot originalInode w).removed hremoved
  exact ⟨originalInode, m, _, hinode, habsent, hundisturbed⟩

/-- Polls that take no time, the least interval apart. -/
def Polls.steady (metadata : Nat → Except MetadataError Nat) : Polls where
  started := 0
  poll i := ⟨metadata i, i * pollInterval, i * pollInterval, i * pollInterval⟩
  begins := Nat.zero_le _
  noted_le _ := Nat.le_refl _
  measured_le _ := Nat.le_refl _
  sleeps i := by rw [Nat.succ_mul]

/-- A bundle that is gone from the start is taken for removed after the grace period. -/
theorem removal_never_upgrade_steady :
    (waitForBundleRemoval (Path.parse "/Applications/Konstantin.app") 7
      (.steady fun _ => .error .notFound)).2 = .ok true := by
  have hcareful := (removal_never_upgrade (fun _ => "") (.steady fun _ => .error .notFound)).1
    (Path.parse "/Applications/Konstantin.app") 7
  refine hcareful.uninstalled.mpr ⟨80, 0, ⟨by decide, fun _ _ _ => rfl, by decide⟩, ?_⟩
  rintro j hj (hdecisive | hlate)
  · refine not_decisive (o := .missing) rfl (by decide) ?_ hdecisive
    rintro ⟨m, habsent⟩
    have hlong : m * pollInterval + removalGrace ≤ j * pollInterval := habsent.long
    unfold pollInterval removalGrace at hlong
    omega
  · have hlate : 0 + removalTimeout ≤ j * pollInterval := hlate
    unfold pollInterval removalTimeout at hlate
    omega

end Tray
end Konstantin
