import Konstantin.Daemon.Subscribe
import Konstantin.Transition

/-!
# No lost update

The two tasks of the daemon, their broadcast, and one client that may subscribe at
any moment.  Other clients only read the state and have receivers of their own.

A task changes the state first and sends afterwards, so a subscriber that has
nothing left to receive has read a state that no task has changed since, except
for a change whose send is still to come.
-/

namespace Konstantin
namespace Daemon

open Streams Proto

def tickBroadcastCapacity : Nat := 64

def TaskStep.wakes : TaskStep → Bool
  | .tickerSent => true
  | .resetterSent => true
  | _ => false

/-- The ticker has changed the state and not sent yet. -/
def Ticker.between : Ticker → Bool
  | .saving .. => true
  | .sending .. => true
  | _ => false

/-- The midnight task has changed the state and not sent yet. -/
def Resetter.between : Resetter → Bool
  | .saving rolled _ => rolled
  | .sending => true
  | _ => false

namespace Process

/-- No task is between a change of the state and its send. -/
def Settled (p : Process) : Prop := p.ticker.between = false ∧ p.resetter.between = false

instance (p : Process) : Decidable p.Settled :=
  inferInstanceAs (Decidable (p.ticker.between = false ∧ p.resetter.between = false))

/-- A step that wakes nobody and ends settled has not changed the state. -/
theorem settled_step {p q : Process} {l : TaskStep} (h : p.step l = some q)
    (hwakes : l.wakes = false) (hq : q.Settled) : p.Settled ∧ q.state = p.state := by
  cases l with
  | tickerSent => cases hwakes
  | resetterSent => cases hwakes
  | tickerLock =>
    obtain ⟨active, today, -, rfl⟩ := step_tickerLock h
    cases hq.1
  | resetterLock =>
    obtain ⟨today, hp, rfl⟩ := step_resetterLock h
    by_cases hday : p.state.day = some today
    · refine ⟨⟨hq.1, by rw [hp]; rfl⟩, ?_⟩
      show (p.state.resetIfNewDay today).1 = p.state
      rw [State.resetIfNewDay_same hday]
    · have hrolled : (p.state.resetIfNewDay today).2 = false := hq.2
      rw [State.resetIfNewDay_other hday] at hrolled
      cases hrolled
  | tickerSaved =>
    simp only [step, Process.tickerSaved] at h
    split at h <;> cases h
    cases hq.1
  | resetterSaved =>
    simp only [step, Process.resetterSaved] at h
    split at h <;> cases h
    rename_i rolled snap hp
    cases rolled with
    | true => cases hq.2
    | false => exact ⟨⟨hq.1, by rw [hp]; rfl⟩, rfl⟩
  | tickerRead active today =>
    simp only [step] at h
    split at h <;> cases h
    rename_i hp
    exact ⟨⟨by rw [hp]; rfl, hq.2⟩, rfl⟩
  | tickerEnforced =>
    simp only [step] at h
    split at h <;> cases h
    rename_i hp
    exact ⟨⟨by rw [hp]; rfl, hq.2⟩, rfl⟩
  | resetterRead today =>
    simp only [step] at h
    split at h <;> cases h
    rename_i hp
    exact ⟨⟨hq.1, by rw [hp]; rfl⟩, rfl⟩

end Process

structure Pushing where
  process : Process
  channel : Channel
  connection : Option Connection

inductive PushStep where
  | task (l : TaskStep)
  | connect (username : String) (uid : UInt32)
  | arrive (bytes : List UInt8)
  | hangUp
  | poll
  | compute (resetsAt : Int)
  | written
  | writeFailed

namespace Pushing

def start (cfg : Config) (loaded : State) (today : NaiveDate) (initial : UserSet) : Pushing where
  process := Process.start cfg loaded today initial
  channel := { capacity := tickBroadcastCapacity, sent := 0, closed := false }
  connection := none

def onConnection (p : Pushing) (f : Connection → Option Connection) : Option Pushing :=
  (p.connection.bind f).map fun c => { p with connection := some c }

def step (codec : Codec Request) (p : Pushing) : PushStep → Option Pushing
  | .task l =>
    (p.process.step l).map fun q =>
      { p with process := q, channel := if l.wakes then p.channel.send else p.channel }
  | .connect username uid =>
    if p.connection.isNone then
      some { p with connection := some (Connection.accept username uid) }
    else none
  | .arrive bytes =>
    p.onConnection fun c => if c.clientClosed then none else some (c.arrive bytes)
  | .hangUp => p.onConnection fun c => some c.hangUp
  | .poll => p.onConnection fun c => c.poll codec p.channel
  | .compute resetsAt => p.onConnection fun c => c.compute p.process.cfg p.process.state resetsAt
  | .written => p.onConnection Connection.written
  | .writeFailed => p.onConnection Connection.writeFailed

/-- The status of the connection's user, from the counters and the flag as they are. -/
def statusNow (p : Pushing) (c : Connection) (resetsAt : Int) : UserStatus :=
  computeStatus c.username c.uid p.process.cfg p.process.state resetsAt

/-- A status update, and an up-to-date one unless a wake is on its way. -/
def Current (p : Pushing) (c : Connection) (r : Response) : Prop :=
  (∃ s, r = .statusUpdate s) ∧
    (p.process.Settled → p.channel.sent = c.receiver →
      ∃ resetsAt, r = .statusUpdate (p.statusNow c resetsAt))

end Pushing

def ConnectionPhase.early : ConnectionPhase → Bool
  | .serving => true
  | .computing .request => true
  | .computing .subscription => true
  | .writing false _ => true
  | _ => false

/-- What holds of the connection in every state. -/
structure Follows (p : Pushing) (c : Connection) : Prop where
  place : c.receiver ≤ p.channel.sent
  updates : ∀ r ∈ c.stream, ∃ s, r = .statusUpdate s
  early : c.phase.early = true → c.stream = []
  writing : ∀ r, c.phase = .writing true r → p.Current c r
  selecting : c.phase = .selecting → ∃ r, c.stream.getLast? = some r ∧ p.Current c r

namespace Follows

variable {p : Pushing} {c d : Connection}

theorem accept (p : Pushing) (username : String) (uid : UInt32) :
    Follows p (Connection.accept username uid) where
  place := Nat.zero_le _
  updates := fun r hr => by cases hr
  early := fun _ => rfl
  writing := fun r hr => by cases hr
  selecting := fun hs => by cases hs

/-- A connection that ended, or that is about to compute a status. -/
theorem of_phase (h : Follows p c) (hstream : d.stream = c.stream)
    (hplace : d.receiver ≤ p.channel.sent)
    (hphase : d.phase = .ended ∨ d.phase = .computing .wake) : Follows p d where
  place := hplace
  updates := by
    rw [hstream]
    exact h.updates
  early := by
    rcases hphase with hp | hp <;> rw [hp] <;> exact fun he => by cases he
  writing := by
    rcases hphase with hp | hp <;> rw [hp] <;> exact fun r hr => by cases hr
  selecting := by
    rcases hphase with hp | hp <;> rw [hp] <;> exact fun hs => by cases hs

/-- The read and the socket do not matter. -/
theorem of_read (h : Follows p c) (r : PendingRead) (rest : List UInt8) (closed : Bool)
    (ignored : List Request) :
    Follows p { c with
      reading := r, socket := rest, clientClosed := closed, ignored := ignored } where
  place := h.place
  updates := h.updates
  early := h.early
  writing := h.writing
  selecting := h.selecting

/-- Before `Subscribe` nothing is in the stream. -/
theorem of_early (h : Follows p c) (hstream : d.stream = c.stream)
    (hplace : d.receiver ≤ p.channel.sent) (hc : c.phase.early = true)
    (hd : d.phase.early = true) : Follows p d where
  place := hplace
  updates := by
    rw [hstream]
    exact h.updates
  early := fun _ => hstream.trans (h.early hc)
  writing := by
    intro r hr
    rw [hr] at hd
    cases hd
  selecting := by
    intro hs
    rw [hs] at hd
    cases hd

theorem task (h : Follows p c) {l : TaskStep} {q : Process} (hstep : p.process.step l = some q) :
    Follows { p with
      process := q, channel := if l.wakes then p.channel.send else p.channel } c := by
  have hplace := h.place
  have hcurrent : ∀ r, p.Current c r → Pushing.Current
      { p with process := q, channel := if l.wakes then p.channel.send else p.channel } c r := by
    intro r hr
    refine ⟨hr.1, fun hsettled hread => ?_⟩
    cases hwakes : l.wakes with
    | true =>
      simp only [hwakes, if_true, Channel.send] at hread
      omega
    | false =>
      simp only [hwakes, Bool.false_eq_true, if_false] at hread
      obtain ⟨hold, hstate⟩ := Process.settled_step hstep hwakes hsettled
      obtain ⟨resetsAt, heq⟩ := hr.2 hold hread
      refine ⟨resetsAt, heq.trans ?_⟩
      simp only [Pushing.statusNow, hstate, Process.cfg_step hstep]
  refine ⟨?_, h.updates, h.early, fun r hr => hcurrent r (h.writing r hr), fun hs => ?_⟩
  · show c.receiver ≤ Channel.sent (if l.wakes then p.channel.send else p.channel)
    split
    · show c.receiver ≤ p.channel.sent + 1
      omega
    · exact hplace
  · obtain ⟨r, hlast, hr⟩ := h.selecting hs
    exact ⟨r, hlast, hcurrent r hr⟩

theorem serve (h : Follows p c) (hphase : c.phase = .serving)
    (result : Except FrameError Request) : Follows p (c.serve p.channel result) := by
  have hearly : c.phase.early = true := by rw [hphase]; rfl
  cases result with
  | error e =>
    cases e with
    | closed => exact h.of_phase rfl h.place (Or.inl rfl)
    | _ => exact h.of_phase rfl h.place (Or.inl rfl)
  | ok request =>
    cases request with
    | getStatus => exact h.of_early rfl h.place hearly rfl
    | subscribe => exact h.of_early rfl (Nat.le_refl _) hearly rfl
    | reportSessionState locked idleSeconds => exact h.of_early rfl h.place hearly rfl

theorem ignore (h : Follows p c) (result : Except FrameError Request) :
    Follows p (c.ignore result) := by
  cases result with
  | error e => exact h.of_phase rfl h.place (Or.inl rfl)
  | ok request => exact h.of_read c.reading c.socket c.clientClosed (c.ignored ++ [request])

theorem poll (h : Follows p c) {codec : Codec Request} (hd : c.poll codec p.channel = some d) :
    Follows p d := by
  unfold Connection.poll at hd
  split at hd
  · rename_i hphase
    cases hd
    rcases Connection.pollRead_cases codec c fun c result => c.serve p.channel result with
      ⟨r, rest, heq⟩ | ⟨result, rest, heq⟩
    · rw [heq]
      exact h.of_read r rest c.clientClosed c.ignored
    · rw [heq]
      exact (h.of_read .start rest c.clientClosed c.ignored).serve hphase result
  · cases hd
    rcases Connection.select_cases codec p.channel c with ⟨-, heq⟩ | ⟨-, heq⟩ | ⟨-, heq⟩
    · rw [heq]
      rcases Connection.pollRead_cases codec c Connection.ignore with
        ⟨r, rest, heq'⟩ | ⟨result, rest, heq'⟩
      · rw [heq']
        exact h.of_read r rest c.clientClosed c.ignored
      · rw [heq']
        exact (h.of_read .start rest c.clientClosed c.ignored).ignore result
    · rw [heq]
      exact h.of_phase rfl h.place (Or.inl rfl)
    · rw [heq]
      exact h.of_phase rfl (Channel.recv_le h.place) (Or.inr rfl)
  · cases hd

theorem compute (h : Follows p c) {resetsAt : Int}
    (hd : c.compute p.process.cfg p.process.state resetsAt = some d) : Follows p d := by
  rcases Connection.compute_eq_some hd with ⟨hphase, response, rfl⟩ | ⟨-, rfl⟩
  · exact h.of_early rfl h.place (by rw [hphase]; rfl) rfl
  · refine ⟨h.place, h.updates, fun he => (by cases he), fun r hr => ?_, fun hs => by cases hs⟩
    cases hr
    exact ⟨⟨_, rfl⟩, fun _ _ => ⟨resetsAt, rfl⟩⟩

theorem written (h : Follows p c) (hd : c.written = some d) : Follows p d := by
  obtain ⟨subscribed, response, hphase, rfl⟩ := Connection.written_eq_some hd
  cases subscribed with
  | false => exact h.of_early rfl h.place (by rw [hphase]; rfl) rfl
  | true =>
    have hcurrent := h.writing response hphase
    refine ⟨h.place, ?_, fun he => (by cases he), fun r hr => (by cases hr), fun _ => ?_⟩
    · intro r hr
      rcases List.mem_append.mp hr with hold | hnew
      · exact h.updates r hold
      · rw [List.mem_singleton.mp hnew]
        exact hcurrent.1
    · exact ⟨response, List.getLast?_concat, hcurrent⟩

end Follows

namespace Pushing

def AllFollow (p : Pushing) : Prop := ∀ c, p.connection = some c → Follows p c

theorem onConnection_eq_some {p q : Pushing} {f : Connection → Option Connection}
    (h : p.onConnection f = some q) :
    ∃ c d, p.connection = some c ∧ f c = some d ∧ q = { p with connection := some d } := by
  obtain ⟨d, hd, rfl⟩ := Option.map_eq_some_iff.mp h
  obtain ⟨c, hc, hf⟩ := Option.bind_eq_some_iff.mp hd
  exact ⟨c, d, hc, hf, rfl⟩

/-- A step of the connection keeps the law, once it does so on connections. -/
theorem allFollow_onConnection {p q : Pushing} {f : Connection → Option Connection}
    (h : AllFollow p) (hq : p.onConnection f = some q)
    (hf : ∀ c d, Follows p c → f c = some d → Follows p d) : AllFollow q := by
  obtain ⟨c, d, hc, hd, rfl⟩ := onConnection_eq_some hq
  intro e he
  cases he
  have hfollows := hf c d (h c hc) hd
  exact ⟨hfollows.place, hfollows.updates, hfollows.early, hfollows.writing, hfollows.selecting⟩

theorem allFollow_step {codec : Codec Request} {p q : Pushing} {l : PushStep} (h : AllFollow p)
    (hstep : step codec p l = some q) : AllFollow q := by
  cases l with
  | task l =>
    obtain ⟨process, hprocess, rfl⟩ := Option.map_eq_some_iff.mp hstep
    exact fun c hc => (h c hc).task hprocess
  | connect username uid =>
    simp only [step] at hstep
    split at hstep
    · cases hstep
      intro c hc
      cases hc
      have hnew := Follows.accept p username uid
      exact ⟨hnew.place, hnew.updates, hnew.early, hnew.writing, hnew.selecting⟩
    · cases hstep
  | arrive bytes =>
    refine allFollow_onConnection h hstep fun c d hc hd => ?_
    split at hd
    · cases hd
    · cases hd
      exact hc.of_read c.reading (c.socket ++ bytes) c.clientClosed c.ignored
  | hangUp =>
    refine allFollow_onConnection h hstep fun c d hc hd => ?_
    cases hd
    exact hc.of_read c.reading c.socket true c.ignored
  | poll => exact allFollow_onConnection h hstep fun c d hc hd => hc.poll hd
  | compute resetsAt => exact allFollow_onConnection h hstep fun c d hc hd => hc.compute hd
  | written => exact allFollow_onConnection h hstep fun c d hc hd => hc.written hd
  | writeFailed =>
    refine allFollow_onConnection h hstep fun c d hc hd => ?_
    rw [Connection.writeFailed_eq_some hd]
    exact hc.of_phase rfl hc.place (Or.inl rfl)

theorem allFollow_exec {codec : Codec Request} {p q : Pushing} (ls : List PushStep)
    (h : AllFollow p) (hrun : Transition.exec (step codec) p ls = some q) : AllFollow q := by
  induction ls generalizing p with
  | nil =>
    cases hrun
    exact h
  | cons l ls ih =>
    obtain ⟨r, hr, hrest⟩ := Option.bind_eq_some_iff.mp hrun
    exact ih (allFollow_step h hr) hrest

/-- The first status goes out with no wake. -/
theorem first_status {codec : Codec Request} {p : Pushing} {c : Connection}
    (hc : p.connection = some c) (hphase : c.phase = .computing .subscription)
    (hstream : c.stream = []) (resetsAt : Int) :
    ∃ q, Transition.exec (step codec) p [.compute resetsAt, .written] = some q ∧
      (q.connection.map fun d => d.stream) = some [.statusUpdate (p.statusNow c resetsAt)] := by
  have hcompute : c.compute p.process.cfg p.process.state resetsAt =
      some { c with phase := .writing true (.statusUpdate (p.statusNow c resetsAt)) } := by
    simp only [Connection.compute, hphase, statusNow]
  refine ⟨{ p with connection := some { c with
    phase := .selecting
    stream := c.stream ++ [.statusUpdate (p.statusNow c resetsAt)] } }, ?_, ?_⟩
  · simp only [Transition.exec, step, onConnection, hc, Option.bind_some, hcompute,
      Option.map_some, Connection.written]
  · rw [Option.map_some, hstream, List.nil_append]

/-- In every state of every run, for a client that may subscribe at any moment. -/
theorem lastUpdate_current (codec : Codec Request) (cfg : Config) (loaded : State)
    (today : NaiveDate) (initial : UserSet) (ls : List PushStep) (p : Pushing) (c : Connection)
    (hrun : Transition.exec (step codec) (start cfg loaded today initial) ls = some p)
    (hc : p.connection = some c) :
    (∀ r ∈ c.stream, ∃ s, r = .statusUpdate s) ∧
      (c.phase = .computing .subscription → c.stream = [] ∧ ∀ resetsAt, ∃ q,
        Transition.exec (step codec) p [.compute resetsAt, .written] = some q ∧
          (q.connection.map fun d => d.stream) = some [.statusUpdate (p.statusNow c resetsAt)]) ∧
      (p.process.Settled → c.phase = .selecting → p.channel.sent = c.receiver →
        ∃ resetsAt, c.stream.getLast? = some (.statusUpdate (p.statusNow c resetsAt))) := by
  have hstart : AllFollow (start cfg loaded today initial) := fun d hd => by cases hd
  have hfollows := allFollow_exec ls hstart hrun c hc
  refine ⟨hfollows.updates, fun hphase => ?_, fun hsettled hphase hread => ?_⟩
  · have hstream := hfollows.early (by rw [hphase]; rfl)
    exact ⟨hstream, first_status hc hphase hstream⟩
  · obtain ⟨r, hlast, -, hcurrent⟩ := hfollows.selecting hphase
    obtain ⟨resetsAt, rfl⟩ := hcurrent hsettled hread
    exact ⟨resetsAt, hlast⟩

/-- A client that subscribes, and a tick of the daemon. -/
def tickRun : List PushStep :=
  [.connect "alice" 501, .arrive (frame subscribeText), .poll, .compute 0, .written,
    .task (.tickerRead {"alice"} 0), .task .tickerLock, .task .tickerSaved, .task .tickerSent,
    .poll, .compute 0, .written]

theorem lastUpdate_current_tick : ∃ p c,
    Transition.exec (step sampleCodec) (start .defaults .fresh 0 ∅) tickRun = some p ∧
      p.connection = some c ∧ c.stream.length = 2 ∧
        ∃ resetsAt, c.stream.getLast? = some (.statusUpdate (p.statusNow c resetsAt)) := by
  have hrun : (Transition.exec (step sampleCodec) (start .defaults .fresh 0 ∅) tickRun).any
      (fun p => p.connection.any fun c => decide (p.process.Settled ∧ c.phase = .selecting ∧
        p.channel.sent = c.receiver ∧ c.stream.length = 2)) = true := by
    decide +kernel
  obtain ⟨p, hp, hany⟩ := (Option.any_eq_true _ _).mp hrun
  obtain ⟨c, hc, hstate⟩ := (Option.any_eq_true _ _).mp hany
  obtain ⟨hsettled, hphase, hread, hlength⟩ := of_decide_eq_true hstate
  have h := lastUpdate_current sampleCodec .defaults .fresh 0 ∅ tickRun p c hp hc
  exact ⟨p, c, hp, hc, hlength, h.2.2 hsettled hphase hread⟩

end Pushing

end Daemon
end Konstantin
