import Konstantin.Transition
import Konstantin.Tray.Display

/-!
# The status item of the menu bar

The thread of `run_subscriber` and the drain timer of `crates/tray/src/bin/tray.rs`,
with the two fields of `Latest` that they share: the status that waits to be shown, and
whether there is a subscription.  Each step of the thread ends at a lock, and a drain is
one step, as only the main thread has the item.

`Menu` says what the item is for.  A look shows the newest status that came in, and
nothing where it finds no connection; a look is a drain, so a connection that is lost and
found again between two drains leaves the item as it is.  The field `pending` keeps one
status where `Menu` keeps all that came in since the last look.
-/

namespace Konstantin
namespace Tray

open Daemon Display

/-! ## What is to be seen -/

inductive MenuEvent where
  | mail (s : UserStatus)
  | look (connected : Bool)

structure Menu where
  mail : List UserStatus
  shown : Option UserStatus

namespace Menu

def start : Menu := ⟨[], none⟩

def step (m : Menu) : MenuEvent → Menu
  | .mail s => { m with mail := m.mail ++ [s] }
  | .look false => ⟨[], none⟩
  | .look true => ⟨[], m.mail.getLast?.or m.shown⟩

def after (events : List MenuEvent) : Menu := events.foldl step start

/-- All that came in. -/
def mails (events : List MenuEvent) : List UserStatus :=
  events.filterMap fun
    | .mail s => some s
    | .look _ => none

def looks (events : List MenuEvent) : List Bool :=
  events.filterMap fun
    | .mail _ => none
    | .look connected => some connected

theorem after_concat (events : List MenuEvent) (e : MenuEvent) :
    after (events ++ [e]) = (after events).step e := by
  rw [after, List.foldl_append]
  rfl

theorem mails_append (xs ys : List MenuEvent) : mails (xs ++ ys) = mails xs ++ mails ys :=
  List.filterMap_append

theorem mails_mail (waiting : List UserStatus) : mails (waiting.map .mail) = waiting := by
  rw [mails, List.filterMap_map]
  exact List.filterMap_some

/-- What is shown is the newest that came in between the last look that found no
connection and the last look. -/
theorem shown_newest (events : List MenuEvent) :
    ∃ lost looked : List MenuEvent, events = lost ++ looked ++ (after events).mail.map .mail ∧
      (lost = [] ∨ lost.getLast? = some (.look false)) ∧ .look false ∉ looked ∧
      (looked = [] ∨ looked.getLast? = some (.look true)) ∧
      (after events).shown = (mails looked).getLast? := by
  induction events using List.reverseRecOn with
  | nil => exact ⟨[], [], rfl, Or.inl rfl, List.not_mem_nil, Or.inl rfl, rfl⟩
  | append_singleton events e ih =>
    obtain ⟨lost, looked, hevents, hlost, hfound, hlooked, hshown⟩ := ih
    rw [after_concat]
    cases e with
    | mail s =>
      refine ⟨lost, looked, ?_, hlost, hfound, hlooked, hshown⟩
      rw [step, List.map_append, ← List.append_assoc, ← hevents]
      rfl
    | look connected =>
      cases connected with
      | false =>
        refine ⟨events ++ [.look false], [], ?_, Or.inr List.getLast?_concat, List.not_mem_nil,
          Or.inl rfl, rfl⟩
        rw [step, List.map_nil, List.append_nil, List.append_nil]
      | true =>
        refine ⟨lost, looked ++ (after events).mail.map .mail ++ [.look true], ?_, hlost, ?_,
          Or.inr List.getLast?_concat, ?_⟩
        · rw [step, List.map_nil, List.append_nil, ← List.append_assoc, ← List.append_assoc,
            ← hevents]
        · simp [hfound]
        · have hlast : mails [.look true] = [] := rfl
          rw [step, hshown, mails_append, mails_append, mails_mail, hlast, List.append_nil,
            List.getLast?_append]

end Menu

/-! ## The thread and the timer -/

inductive Subscriber where
  | opening
  | reading
  | storing (s : UserStatus)
  | sleeping
  deriving DecidableEq

/-- `visual` is the label beside the clock, `none` for the muted clock alone; `enabled`
is that of the two items the daemon is needed for.  `warnings` is bookkeeping. -/
structure MenuBar where
  subscriber : Subscriber
  tracker : NotifTracker
  warnings : List UInt32
  pending : Option UserStatus
  disconnected : Bool
  visual : Option StatusDisplay
  enabled : Bool
  deriving DecidableEq

inductive MenuStep where
  | opened
  | openFailed
  | update (s : UserStatus)
  | store
  | ended
  | woke
  | drain
  deriving DecidableEq

namespace MenuBar

def start : MenuBar where
  subscriber := .opening
  tracker := NotifTracker.new
  warnings := []
  pending := none
  disconnected := true
  visual := none
  enabled := false

/-- `None` and an error of `next_update` end a subscription alike.  A drain is `none`
when the program crashes over its status. -/
def step (b : Build) (calls : Nat) (m : MenuBar) : MenuStep → Option MenuBar
  | .opened =>
    if m.subscriber = .opening then
      some { m with subscriber := .reading, disconnected := false }
    else none
  | .openFailed =>
    if m.subscriber = .opening then
      some { m with subscriber := .sleeping, disconnected := true }
    else none
  | .update s =>
    if m.subscriber = .reading then
      let r := m.tracker.evaluate s
      some { m with
        subscriber := .storing s, tracker := r.1, warnings := m.warnings ++ r.2.toList }
    else none
  | .store =>
    match m.subscriber with
    | .storing s => some { m with subscriber := .reading, pending := some s }
    | _ => none
  | .ended =>
    if m.subscriber = .reading then
      some { m with subscriber := .sleeping, disconnected := true }
    else none
  | .woke => if m.subscriber = .sleeping then some { m with subscriber := .opening } else none
  | .drain =>
    if m.disconnected then some { m with pending := none, enabled := false, visual := none }
    else
      match m.pending with
      | none => some { m with enabled := true }
      | some s =>
        (statusDisplay b calls s).map fun display =>
          { m with pending := none, enabled := true, visual := some display }

/-- The updates that a run receives, over all its subscriptions. -/
def received (ls : List MenuStep) : List UserStatus :=
  ls.filterMap fun
    | .update s => some s
    | _ => none

/-- What a step is to the user. -/
def event (m : MenuBar) : MenuStep → List MenuEvent
  | .store =>
    match m.subscriber with
    | .storing s => [.mail s]
    | _ => []
  | .drain => [.look !m.disconnected]
  | _ => []

/-- The warnings a tracker gives at the updates of a list. -/
def warningsFrom (t : NotifTracker) : List UserStatus → List UInt32
  | [] => []
  | s :: rest => (t.evaluate s).2.toList ++ warningsFrom (t.evaluate s).1 rest

/-- The update in hand has been received and not been stored. -/
def inHand (m : MenuBar) : List UserStatus :=
  match m.subscriber with
  | .storing s => [s]
  | _ => []

theorem warningsFrom_concat (t : NotifTracker) (past : List UserStatus) (s : UserStatus) :
    warningsFrom t (past ++ [s]) = warningsFrom t past ++
      ((past.foldl (fun t status => (t.evaluate status).1) t).evaluate s).2.toList := by
  induction past generalizing t with
  | nil => exact List.append_nil _
  | cons p past ih =>
    rw [List.cons_append, warningsFrom, ih, warningsFrom, List.append_assoc, List.foldl_cons]

/-! ## The invariant of a run -/

/-- The menu bar behind a run: the user's events of the run, and what was received. -/
structure Refines (b : Build) (calls : Nat) (ls : List MenuStep) (events : List MenuEvent)
    (m : MenuBar) : Prop where
  pending : m.pending = (Menu.after events).mail.getLast?
  visual : m.visual = (Menu.after events).shown.bind (statusDisplay b calls)
  displayed : ∀ s, (Menu.after events).shown = some s → ∃ d, statusDisplay b calls s = some d
  enabled : m.enabled = ((Menu.looks events).getLast?.getD false)
  received : received ls = Menu.mails events ++ m.inHand
  tracker : m.tracker = NotifTracker.after (MenuBar.received ls)
  warnings : m.warnings = warningsFrom NotifTracker.new (MenuBar.received ls)

namespace Refines

variable {b : Build} {calls : Nat} {ls : List MenuStep} {events : List MenuEvent} {m : MenuBar}

theorem start (b : Build) (calls : Nat) : Refines b calls [] [] MenuBar.start where
  pending := rfl
  visual := rfl
  displayed := fun s hs => by cases hs
  enabled := rfl
  received := rfl
  tracker := rfl
  warnings := rfl

/-- A step that is nothing to the user. -/
theorem moved (h : Refines b calls ls events m) {l : MenuStep} {subscriber : Subscriber}
    {disconnected : Bool} (hl : MenuBar.received [l] = [])
    (hhand : inHand { m with subscriber := subscriber, disconnected := disconnected } = m.inHand) :
    Refines b calls (ls ++ [l]) events
      { m with subscriber := subscriber, disconnected := disconnected } := by
  have hreceived : MenuBar.received (ls ++ [l]) = MenuBar.received ls := by
    rw [MenuBar.received, List.filterMap_append, ← MenuBar.received, ← MenuBar.received, hl,
      List.append_nil]
  refine ⟨h.pending, h.visual, h.displayed, h.enabled, ?_, ?_, ?_⟩
  · rw [hreceived, hhand, h.received]
  · rw [hreceived]
    exact h.tracker
  · rw [hreceived]
    exact h.warnings

theorem update (h : Refines b calls ls events m) (s : UserStatus) (hm : m.subscriber = .reading) :
    Refines b calls (ls ++ [.update s]) events
      { m with
        subscriber := .storing s
        tracker := (m.tracker.evaluate s).1
        warnings := m.warnings ++ (m.tracker.evaluate s).2.toList } := by
  have hreceived : MenuBar.received (ls ++ [.update s]) = MenuBar.received ls ++ [s] :=
    List.filterMap_append
  have hhand : m.inHand = [] := by
    rw [inHand, hm]
  have hlist := h.received
  rw [hhand, List.append_nil] at hlist
  refine ⟨h.pending, h.visual, h.displayed, h.enabled, ?_, ?_, ?_⟩
  · rw [hreceived, hlist]
    rfl
  · rw [hreceived, NotifTracker.after, List.foldl_append, ← NotifTracker.after, ← h.tracker]
    rfl
  · rw [hreceived, warningsFrom_concat, ← h.warnings, ← NotifTracker.after, ← h.tracker]

theorem store (h : Refines b calls ls events m) {s : UserStatus}
    (hm : m.subscriber = .storing s) :
    Refines b calls (ls ++ [.store]) (events ++ [.mail s])
      { m with subscriber := .reading, pending := some s } := by
  have hreceived : MenuBar.received (ls ++ [.store]) = MenuBar.received ls :=
    List.filterMap_append.trans (List.append_nil _)
  have hhand : m.inHand = [s] := by
    rw [inHand, hm]
  have hmails : Menu.mails (events ++ [.mail s]) = Menu.mails events ++ [s] :=
    List.filterMap_append
  have hlooks : Menu.looks (events ++ [.mail s]) = Menu.looks events :=
    List.filterMap_append.trans (List.append_nil _)
  have hnext : Menu.after (events ++ [.mail s]) =
      { Menu.after events with mail := (Menu.after events).mail ++ [s] } :=
    Menu.after_concat events _
  refine ⟨?_, ?_, ?_, ?_, ?_, ?_, ?_⟩
  · rw [hnext, List.getLast?_concat]
  · rw [hnext]
    exact h.visual
  · rw [hnext]
    exact h.displayed
  · rw [hlooks]
    exact h.enabled
  · rw [hreceived, hmails, h.received, hhand]
    exact (List.append_nil _).symm
  · rw [hreceived]
    exact h.tracker
  · rw [hreceived]
    exact h.warnings

theorem look (h : Refines b calls ls events m) (connected : Bool) (visual : Option StatusDisplay)
    (hvisual : visual = ((Menu.after events).step (.look connected)).shown.bind
      (statusDisplay b calls))
    (hdisplayed : ∀ s, ((Menu.after events).step (.look connected)).shown = some s →
      ∃ d, statusDisplay b calls s = some d) :
    Refines b calls (ls ++ [.drain]) (events ++ [.look connected])
      { m with pending := none, enabled := connected, visual := visual } := by
  have hreceived : MenuBar.received (ls ++ [.drain]) = MenuBar.received ls :=
    List.filterMap_append.trans (List.append_nil _)
  have hmails : Menu.mails (events ++ [.look connected]) = Menu.mails events :=
    List.filterMap_append.trans (List.append_nil _)
  have hlooks : Menu.looks (events ++ [.look connected]) = Menu.looks events ++ [connected] :=
    List.filterMap_append
  have hnext := Menu.after_concat events (.look connected)
  refine ⟨?_, ?_, ?_, ?_, ?_, ?_, ?_⟩
  · rw [hnext]
    cases connected <;> rfl
  · rw [hnext]
    exact hvisual
  · rw [hnext]
    exact hdisplayed
  · rw [hlooks, List.getLast?_concat]
    rfl
  · rw [hreceived, hmails, h.received]
    rfl
  · rw [hreceived]
    exact h.tracker
  · rw [hreceived]
    exact h.warnings

/-- A drain is a look: it shows what `Menu` shows. -/
theorem drain (h : Refines b calls ls events m) {t : MenuBar}
    (ht : m.step b calls .drain = some t) :
    Refines b calls (ls ++ [.drain]) (events ++ [.look !m.disconnected]) t := by
  have hpending := h.pending
  simp only [step] at ht
  by_cases hconnected : m.disconnected = true
  · rw [if_pos hconnected] at ht
    cases ht
    have hlook : (!m.disconnected) = false := by rw [hconnected]; rfl
    rw [hlook]
    exact h.look false none rfl fun s hs => by cases hs
  · rw [if_neg hconnected] at ht
    have hlook : (!m.disconnected) = true := by simpa using hconnected
    rw [hlook]
    split at ht
    · rename_i hnews
      cases ht
      rw [hnews] at hpending
      have hshown : ((Menu.after events).step (.look true)).shown = (Menu.after events).shown := by
        rw [Menu.step, ← hpending, Option.none_or]
      have hsame := h.look true m.visual (by rw [hshown, h.visual])
        (by rw [hshown]; exact h.displayed)
      rwa [← hnews] at hsame
    · rename_i s hnews
      obtain ⟨display, hdisplay, rfl⟩ := Option.map_eq_some_iff.mp ht
      rw [hnews] at hpending
      have hshown : ((Menu.after events).step (.look true)).shown = some s := by
        rw [Menu.step, ← hpending, Option.some_or]
      refine h.look true (some display) ?_ fun r hr => ?_
      · rw [hshown, Option.bind_some, hdisplay]
      · rw [hshown] at hr
        cases hr
        exact ⟨display, hdisplay⟩

theorem step (h : Refines b calls ls events m) {l : MenuStep} {t : MenuBar}
    (ht : m.step b calls l = some t) :
    Refines b calls (ls ++ [l]) (events ++ m.event l) t := by
  have hnone : events ++ [] = events := List.append_nil events
  cases l with
  | opened =>
    simp only [MenuBar.step] at ht
    split at ht
    · rename_i hm
      cases ht
      exact hnone.symm ▸ h.moved rfl (by rw [inHand, inHand, hm])
    · cases ht
  | openFailed =>
    simp only [MenuBar.step] at ht
    split at ht
    · rename_i hm
      cases ht
      exact hnone.symm ▸ h.moved rfl (by rw [inHand, inHand, hm])
    · cases ht
  | update s =>
    simp only [MenuBar.step] at ht
    split at ht
    · rename_i hm
      cases ht
      exact hnone.symm ▸ h.update s hm
    · cases ht
  | store =>
    simp only [MenuBar.step] at ht
    split at ht
    · rename_i s hm
      cases ht
      have hevent : m.event .store = [.mail s] := by rw [event, hm]
      rw [hevent]
      exact h.store hm
    · cases ht
  | ended =>
    simp only [MenuBar.step] at ht
    split at ht
    · rename_i hm
      cases ht
      exact hnone.symm ▸ h.moved rfl (by rw [inHand, inHand, hm])
    · cases ht
  | woke =>
    simp only [MenuBar.step] at ht
    split at ht
    · rename_i hm
      cases ht
      exact hnone.symm ▸ h.moved rfl (by rw [inHand, inHand, hm])
    · cases ht
  | drain => exact h.drain ht

end Refines

/-- In every run the item shows what `Menu` shows after the user's events: the display of
the newest status that came in between the last drain that found no connection and the
last drain, or the muted clock when none did.  The items are enabled as the last drain
found the connection, and each update that was received, over all subscriptions, went to
the tracker once and in order. -/
theorem shows_newest (b : Build) (calls : Nat) (ls : List MenuStep) (t : MenuBar)
    (h : Transition.exec (step b calls) start ls = some t) :
    let events := Transition.outputs (step b calls) event start ls
    (t.visual = (Menu.after events).shown.bind (statusDisplay b calls) ∧
      (∀ s, (Menu.after events).shown = some s → ∃ d, statusDisplay b calls s = some d) ∧
      ∃ lost looked, events = lost ++ looked ++ (Menu.after events).mail.map .mail ∧
        (lost = [] ∨ lost.getLast? = some (.look false)) ∧ .look false ∉ looked ∧
        (looked = [] ∨ looked.getLast? = some (.look true)) ∧
        (Menu.after events).shown = (Menu.mails looked).getLast?) ∧
      t.enabled = (Menu.looks events).getLast?.getD false ∧
      received ls = Menu.mails events ++ t.inHand ∧
      t.tracker = NotifTracker.after (received ls) ∧
      t.warnings = warningsFrom NotifTracker.new (received ls) := by
  intro events
  have hrefines :
      Refines b calls ls (Transition.outputs (step b calls) event start ls) t := by
    have hnext : ∀ (past : List MenuStep) (u : MenuBar) (l : MenuStep) (v : MenuBar),
        Transition.exec (step b calls) start past = some u →
        Refines b calls past (Transition.outputs (step b calls) event start past) u →
        step b calls u l = some v →
        Refines b calls (past ++ [l])
          (Transition.outputs (step b calls) event start (past ++ [l])) v := by
      intro past u l v hu hpast hl
      rw [Transition.outputs_concat event hu hl]
      exact hpast.step hl
    exact Transition.exec_history (by exact Refines.start b calls) hnext h
  exact ⟨⟨hrefines.visual, hrefines.displayed, Menu.shown_newest events⟩, hrefines.enabled,
    hrefines.received, hrefines.tracker, hrefines.warnings⟩

/-- Two updates between two drains, a break, and a drain that finds no connection. -/
def brokenRun : List MenuStep :=
  [.opened, .update (aliceWith 600), .store, .update (aliceWith 300), .store, .drain, .ended,
    .drain]

theorem shows_newest_broken : ∃ t,
    Transition.exec (step .release 2) start brokenRun = some t ∧
      t.visual = none ∧ t.enabled = false ∧ t.warnings = [15, 5] := by
  obtain ⟨t, ht⟩ : ∃ t, Transition.exec (step .release 2) start brokenRun = some t :=
    Option.isSome_iff_exists.mp (by decide +kernel)
  obtain ⟨⟨hvisual, -⟩, henabled, -, -, hwarnings⟩ := shows_newest .release 2 brokenRun t ht
  refine ⟨t, ht, hvisual.trans ?_, henabled.trans ?_, hwarnings.trans ?_⟩
  · decide +kernel
  · decide +kernel
  · decide +kernel

/-- A drain does not crash over what a daemon computes. -/
theorem drain_computeStatus (b : Build) (calls : Nat) {m : MenuBar}
    (hpending : ∀ s, m.pending = some s → ∃ username uid cfg state resetsAt,
      s = computeStatus username uid cfg state resetsAt) :
    ∃ t, m.step b (calls + 2) .drain = some t := by
  simp only [step]
  split
  · exact ⟨_, rfl⟩
  · split
    · exact ⟨_, rfl⟩
    · rename_i s hs
      obtain ⟨username, uid, cfg, state, resetsAt, rfl⟩ := hpending s hs
      have hne := remainingOf_computeStatus_ne username uid cfg state resetsAt
      obtain ⟨text, htext, -⟩ := formatRemaining_exact b hne calls
      obtain ⟨display, hdisplay⟩ := statusDisplay_some htext
      rw [hdisplay]
      exact ⟨_, rfl⟩

end MenuBar

end Tray
end Konstantin
