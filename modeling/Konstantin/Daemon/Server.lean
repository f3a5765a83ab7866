import Mathlib.Logic.Function.Basic
import Konstantin.Daemon.Freshness

/-!
# The server and all of its connections

`Server::run` of `crates/daemon/src/ipc.rs` beside the two tasks of the daemon.  It
spawns a task for each connection that it accepts, so the connections share the
state, the configuration and the broadcast, and only read them.  `exec_view` says that
one connection sees what it would see if it were alone (`Konstantin.Daemon.Freshness`).
-/

namespace Konstantin
namespace Daemon

open Streams Proto

/-- The process with the connections that were accepted, by number. -/
structure Server where
  process : Process
  channel : Channel
  connections : Nat → Option Connection

/-- What a client does, and the task of its connection. -/
inductive ClientStep where
  | arrive (bytes : List UInt8)
  | hangUp
  | poll
  | compute (resetsAt : Int)
  | written
  | writeFailed
  deriving DecidableEq

/-- `accept` comes with the credentials of the peer and what is known of its uid. -/
inductive ServerStep where
  | task (l : TaskStep)
  | acceptFailed
  | accept (i : Nat) (creds : Except String UInt32) (lookup : Except String (Option String))
  | client (i : Nat) (l : ClientStep)

/-- The name `handle_connection` has for the peer. -/
def peerUsername (uid : UInt32) : Except String (Option String) → String
  | .ok (some name) => name
  | _ => "uid:" ++ toString uid.toNat

def Response.carried : Response → Option UserStatus
  | .status s => some s
  | .statusUpdate s => some s
  | _ => none

/-- The status that is being written. -/
def ConnectionPhase.pending : ConnectionPhase → List UserStatus
  | .writing _ response => response.carried.toList
  | _ => []

/-- The statuses written so far. -/
def Connection.statuses (c : Connection) : List UserStatus :=
  (c.replies ++ c.stream).filterMap Response.carried

namespace Connection

/-- The account that the connection was accepted for. -/
def peer (c : Connection) : String × UInt32 := (c.username, c.uid)

theorem peer_pollRead (codec : Codec Request) (c : Connection)
    {handle : Connection → Except FrameError Request → Connection}
    (h : ∀ d result, (handle d result).peer = d.peer) :
    (c.pollRead codec handle).peer = c.peer := by
  rcases c.pollRead_cases codec handle with ⟨r, rest, heq⟩ | ⟨result, rest, heq⟩
  · rw [heq]
    rfl
  · rw [heq, h]
    rfl

theorem peer_serve (channel : Channel) (c : Connection) (result : Except FrameError Request) :
    (c.serve channel result).peer = c.peer := by
  unfold serve
  split <;> rfl

theorem peer_ignore (c : Connection) (result : Except FrameError Request) :
    (c.ignore result).peer = c.peer := by
  unfold ignore
  split <;> rfl

theorem peer_poll {codec : Codec Request} {channel : Channel} {c d : Connection}
    (h : c.poll codec channel = some d) : d.peer = c.peer := by
  unfold poll at h
  split at h
  · cases h
    exact peer_pollRead codec c (peer_serve channel)
  · cases h
    rcases c.select_cases codec channel with ⟨-, heq⟩ | ⟨-, heq⟩ | ⟨-, heq⟩
    · rw [heq]
      exact peer_pollRead codec c peer_ignore
    · rw [heq]
      rfl
    · rw [heq]
      rfl
  · cases h

end Connection

namespace ClientStep

def act (codec : Codec Request) (p : Process) (channel : Channel) (c : Connection) :
    ClientStep → Option Connection
  | arrive bytes => if c.clientClosed then none else some (c.arrive bytes)
  | hangUp => some c.hangUp
  | poll => c.poll codec channel
  | compute resetsAt => c.compute p.cfg p.state resetsAt
  | written => c.written
  | writeFailed => c.writeFailed

/-- The step of a connection that is alone. -/
def alone : ClientStep → PushStep
  | arrive bytes => .arrive bytes
  | hangUp => .hangUp
  | poll => .poll
  | compute resetsAt => .compute resetsAt
  | written => .written
  | writeFailed => .writeFailed

theorem step_alone (codec : Codec Request) (p : Pushing) (l : ClientStep) :
    Pushing.step codec p l.alone = p.onConnection fun c => l.act codec p.process p.channel c := by
  cases l <;> rfl

theorem peer_act {codec : Codec Request} {p : Process} {channel : Channel} {c d : Connection}
    {l : ClientStep} (h : l.act codec p channel c = some d) : d.peer = c.peer := by
  cases l with
  | arrive bytes =>
    dsimp only [act] at h
    split at h <;> cases h
    rfl
  | hangUp =>
    cases h
    rfl
  | poll => exact Connection.peer_poll h
  | compute resetsAt =>
    rcases Connection.compute_eq_some h with ⟨-, response, rfl⟩ | ⟨-, rfl⟩ <;> rfl
  | written =>
    obtain ⟨subscribed, response, -, rfl⟩ := Connection.written_eq_some h
    cases subscribed <;> rfl
  | writeFailed =>
    rw [Connection.writeFailed_eq_some h]
    rfl

end ClientStep

namespace Server

def start (cfg : Config) (loaded : State) (today : NaiveDate) (initial : UserSet) : Server where
  process := Process.start cfg loaded today initial
  channel := { capacity := tickBroadcastCapacity, sent := 0, closed := false }
  connections := fun _ => none

def put (s : Server) (i : Nat) (c : Connection) : Server :=
  { s with connections := Function.update s.connections i (some c) }

def step (codec : Codec Request) (s : Server) : ServerStep → Option Server
  | .task l =>
    (s.process.step l).map fun q =>
      { s with process := q, channel := if l.wakes then s.channel.send else s.channel }
  | .acceptFailed => some s
  | .accept _ (.error _) _ => some s
  | .accept i (.ok uid) lookup =>
    if (s.connections i).isNone then
      some (s.put i (Connection.accept (peerUsername uid lookup) uid))
    else none
  | .client i l =>
    ((s.connections i).bind fun c => l.act codec s.process s.channel c).map (s.put i)

/-- What there is without the other connections. -/
def view (i : Nat) (s : Server) : Pushing where
  process := s.process
  channel := s.channel
  connection := s.connections i

/-- What a step is to the connection `i`. -/
def label (i : Nat) : ServerStep → Option PushStep
  | .task l => some (.task l)
  | .accept j (.ok uid) lookup =>
    if j = i then some (.connect (peerUsername uid lookup) uid) else none
  | .client j l => if j = i then some l.alone else none
  | _ => none

/-- The tasks and the connection `i`. -/
def concerns (i : Nat) : ServerStep → Bool
  | .task _ => true
  | .acceptFailed => false
  | .accept j _ _ => j == i
  | .client j _ => j == i

/-! ## One connection among the others -/

section

variable {codec : Codec Request} {s t : Server} {i : Nat}

theorem connections_put_ne {j : Nat} (h : i ≠ j) (c : Connection) :
    (s.put j c).connections i = s.connections i := by
  show Function.update s.connections j (some c) i = s.connections i
  rw [Function.update_of_ne h]

theorem connections_put (c : Connection) : (s.put i c).connections i = some c := by
  show Function.update s.connections i (some c) i = some c
  rw [Function.update_self]

theorem view_put_ne {j : Nat} (h : j ≠ i) (c : Connection) : (s.put j c).view i = s.view i := by
  unfold view
  rw [connections_put_ne h.symm]
  rfl

theorem view_put (c : Connection) :
    (s.put i c).view i = { s.view i with connection := some c } := by
  unfold view
  rw [connections_put]
  rfl

theorem client_eq_some {l : ClientStep} {j : Nat} (h : s.step codec (.client j l) = some t) :
    ∃ c d, s.connections j = some c ∧ l.act codec s.process s.channel c = some d ∧
      t = s.put j d := by
  obtain ⟨d, hd, rfl⟩ := Option.map_eq_some_iff.mp h
  obtain ⟨c, hc, hact⟩ := Option.bind_eq_some_iff.mp hd
  exact ⟨c, d, hc, hact, rfl⟩

theorem accept_eq_some {j : Nat} {uid : UInt32} {lookup : Except String (Option String)}
    (h : s.step codec (.accept j (.ok uid) lookup) = some t) :
    s.connections j = none ∧ t = s.put j (Connection.accept (peerUsername uid lookup) uid) := by
  simp only [step] at h
  split at h
  · rename_i hnone
    cases h
    exact ⟨Option.isNone_iff_eq_none.mp hnone, rfl⟩
  · cases h

/-- A step of the server is that step of the connection alone. -/
theorem step_view {l : ServerStep} {k : PushStep} (h : s.step codec l = some t)
    (hl : label i l = some k) : Pushing.step codec (s.view i) k = some (t.view i) := by
  cases l with
  | task l =>
    cases hl
    obtain ⟨q, hq, rfl⟩ := Option.map_eq_some_iff.mp h
    show ((s.process.step l).map _ : Option Pushing) = _
    rw [hq]
    rfl
  | acceptFailed => cases hl
  | accept j creds lookup =>
    cases creds with
    | error e => cases hl
    | ok uid =>
      obtain ⟨hnone, rfl⟩ := accept_eq_some h
      simp only [label] at hl
      split at hl
      · rename_i heq
        subst heq
        cases hl
        rw [view_put]
        show (if (s.connections j).isNone then _ else none) = _
        rw [hnone]
        rfl
      · cases hl
  | client j l =>
    obtain ⟨c, d, hc, hact, rfl⟩ := client_eq_some h
    simp only [label] at hl
    split at hl
    · rename_i heq
      subst heq
      cases hl
      rw [ClientStep.step_alone, view_put, Pushing.onConnection]
      show ((s.connections j).bind fun c => l.act codec s.process s.channel c).map _ = _
      rw [hc, Option.bind_some, hact]
      rfl
    · cases hl

/-- The other steps do not show. -/
theorem view_of_label_none {l : ServerStep} (h : s.step codec l = some t)
    (hl : label i l = none) : t.view i = s.view i := by
  cases l with
  | task l => cases hl
  | acceptFailed =>
    cases h
    rfl
  | accept j creds lookup =>
    cases creds with
    | error e =>
      cases h
      rfl
    | ok uid =>
      obtain ⟨-, rfl⟩ := accept_eq_some h
      simp only [label] at hl
      split at hl
      · cases hl
      · rename_i hne
        exact view_put_ne hne _
  | client j l =>
    obtain ⟨c, d, -, -, rfl⟩ := client_eq_some h
    simp only [label] at hl
    split at hl
    · cases hl
    · rename_i hne
      exact view_put_ne hne d

theorem exec_view (i : Nat) {ls : List ServerStep}
    (h : Transition.exec (step codec) s ls = some t) :
    Transition.exec (Pushing.step codec) (s.view i) (ls.filterMap (label i)) =
      some (t.view i) := by
  have hsome : ∀ (s : Server) (l : ServerStep) (t : Server) (k : PushStep),
      s.step codec l = some t → label i l = some k →
      Pushing.step codec (view i s) k = some (view i t) :=
    fun _ _ _ _ hstep hl => step_view hstep hl
  have hnone : ∀ (s : Server) (l : ServerStep) (t : Server), s.step codec l = some t →
      label i l = none → view i t = view i s :=
    fun _ _ _ hstep hl => view_of_label_none hstep hl
  exact Transition.exec_view hsome hnone h

/-- A step that concerns a connection is enabled wherever that connection, the tasks
and the broadcast are the same. -/
theorem step_of_view {s' : Server} {l : ServerStep} (h : s.step codec l = some t)
    (hl : concerns i l = true) (hs : s'.view i = s.view i) :
    ∃ t', s'.step codec l = some t' ∧ t'.view i = t.view i := by
  have hprocess : s'.process = s.process := congrArg Pushing.process hs
  have hchannel : s'.channel = s.channel := congrArg Pushing.channel hs
  have hconnection : s'.connections i = s.connections i := congrArg Pushing.connection hs
  cases l with
  | task l =>
    obtain ⟨q, hq, rfl⟩ := Option.map_eq_some_iff.mp h
    refine ⟨_, by rw [step, hprocess, hq, Option.map_some], ?_⟩
    unfold view
    rw [hchannel, hconnection]
  | acceptFailed => cases hl
  | accept j creds lookup =>
    obtain rfl := beq_iff_eq.mp hl
    cases creds with
    | error e =>
      cases h
      exact ⟨s', rfl, hs⟩
    | ok uid =>
      obtain ⟨hnone, rfl⟩ := accept_eq_some h
      refine ⟨s'.put j (Connection.accept (peerUsername uid lookup) uid), ?_, ?_⟩
      · rw [step, hconnection, hnone]
        rfl
      · rw [view_put, view_put, hs]
  | client j l =>
    obtain rfl := beq_iff_eq.mp hl
    obtain ⟨c, d, hc, hact, rfl⟩ := client_eq_some h
    refine ⟨s'.put j d, ?_, by rw [view_put, view_put, hs]⟩
    rw [step, hconnection, hc, Option.bind_some, hprocess, hchannel, hact]
    rfl

theorem view_of_not_concerns {l : ServerStep} (h : s.step codec l = some t)
    (hl : concerns i l = false) : t.view i = s.view i := by
  refine view_of_label_none h ?_
  cases l with
  | task l => cases hl
  | acceptFailed => rfl
  | accept j creds lookup =>
    cases creds with
    | error e => rfl
    | ok uid => exact if_neg (beq_eq_false_iff_ne.mp hl)
  | client j l => exact if_neg (beq_eq_false_iff_ne.mp hl)

end

/-- What a client sees is what it would see alone: its run is one of the daemon with
this client only, and the other clients can be taken out of a run of the server. -/
theorem client_alone (codec : Codec Request) (cfg : Config) (loaded : State) (today : NaiveDate)
    (initial : UserSet) (i : Nat) (ls : List ServerStep) (s : Server)
    (h : Transition.exec (step codec) (start cfg loaded today initial) ls = some s) :
    Transition.exec (Pushing.step codec) (Pushing.start cfg loaded today initial)
        (ls.filterMap (label i)) = some (s.view i) ∧
      ∃ t, Transition.exec (step codec) (start cfg loaded today initial)
        (ls.filter (concerns i)) = some t ∧ t.view i = s.view i := by
  have hkept : ∀ (s : Server) (l : ServerStep) (t s' : Server), s.step codec l = some t →
      concerns i l = true → view i s' = view i s →
      ∃ t', s'.step codec l = some t' ∧ view i t' = view i t :=
    fun _ _ _ _ hstep hl hs => step_of_view hstep hl hs
  have hdropped : ∀ (s : Server) (l : ServerStep) (t : Server), s.step codec l = some t →
      concerns i l = false → view i t = view i s :=
    fun _ _ _ hstep hl => view_of_not_concerns hstep hl
  exact ⟨exec_view i h, Transition.exec_filter hkept hdropped h rfl⟩

/-- Alice asks for her status while Bob subscribes and a tick goes by. -/
def twoClients : List ServerStep :=
  [.accept 0 (.ok 501) (.ok (some "alice")), .accept 1 (.ok 502) (.ok none),
    .client 0 (.arrive (frame getStatusText)), .client 1 (.arrive (frame subscribeText)),
    .client 1 .poll, .client 0 .poll, .task (.tickerRead {"alice"} 0), .client 1 (.compute 0),
    .task .tickerLock, .client 0 (.compute 0), .client 1 .written, .client 0 .written]

theorem client_alone_two : ∃ s, Transition.exec (step sampleCodec)
      (start .defaults .fresh 0 ∅) twoClients = some s ∧
    Transition.exec (Pushing.step sampleCodec) (Pushing.start .defaults .fresh 0 ∅)
      (twoClients.filterMap (label 0)) = some (s.view 0) ∧
    ((s.view 0).connection.map fun c => c.replies.length) = some 1 := by
  have hrun : (Transition.exec (step sampleCodec) (start .defaults .fresh 0 ∅) twoClients).any
      (fun s => decide (((s.view 0).connection.map fun c => c.replies.length) = some 1)) =
        true := by
    decide +kernel
  obtain ⟨s, hs, hreplies⟩ := (Option.any_eq_true _ _).mp hrun
  have h := client_alone sampleCodec .defaults .fresh 0 ∅ 0 twoClients s hs
  exact ⟨s, hs, h.1, of_decide_eq_true hreplies⟩

/-! ## The statuses that a connection gets -/

/-- The status of a user at a step in which the connection `i` takes the lock. -/
def statusAt (i : Nat) (username : String) (uid : UInt32) (s : Server) :
    ServerStep → List UserStatus
  | .client j (.compute resetsAt) =>
    if j = i then [computeStatus username uid s.process.cfg s.process.state resetsAt] else []
  | _ => []

/-- What holds of a connection behind a run in which it computed these statuses. -/
structure Accounts (c : Connection) (computed : List UserStatus) : Prop where
  early : c.phase.early = true → c.stream = []
  log : c.statuses ++ c.phase.pending = computed ∨
    c.phase = .ended ∧ ∃ lost, c.statuses ++ [lost] = computed

namespace Accounts

variable {c d : Connection} {computed : List UserStatus}

theorem accept (username : String) (uid : UInt32) :
    Accounts (Connection.accept username uid) [] where
  early := fun _ => rfl
  log := Or.inl rfl

/-- Nothing was lost while the connection goes on. -/
theorem of_live (h : Accounts c computed) (hlive : c.phase ≠ .ended) :
    c.statuses ++ c.phase.pending = computed := by
  rcases h.log with hlog | ⟨hended, -⟩
  · exact hlog
  · exact absurd hended hlive

/-- No status is written or computed. -/
theorem quiet (h : Accounts c computed) (hlive : c.phase ≠ .ended)
    (hpending : c.phase.pending = d.phase.pending) (hstatuses : d.statuses = c.statuses)
    (hearly : d.phase.early = true → c.phase.early = true) (hstream : d.stream = c.stream) :
    Accounts d computed where
  early := fun hd => hstream.trans (h.early (hearly hd))
  log := Or.inl (by rw [hstatuses, ← hpending, h.of_live hlive])

/-- The read and the socket do not matter. -/
theorem of_read (h : Accounts c computed) (r : PendingRead) (rest : List UInt8) (closed : Bool)
    (ignored : List Request) :
    Accounts { c with
      reading := r, socket := rest, clientClosed := closed, ignored := ignored } computed where
  early := h.early
  log := h.log

theorem serve (h : Accounts c computed) (hphase : c.phase = .serving) (channel : Channel)
    (result : Except FrameError Request) : Accounts (c.serve channel result) computed := by
  have hlive : c.phase ≠ .ended := by rw [hphase]; simp
  have hpending : c.phase.pending = [] := by rw [hphase]; rfl
  have hearly : c.phase.early = true := by rw [hphase]; rfl
  cases result with
  | error e =>
    by_cases he : e = .closed
    · rw [he]
      exact h.quiet hlive hpending rfl (fun _ => hearly) rfl
    · have hserve : c.serve channel (.error e) = { c with
          phase := .ended
          replies := c.replies ++ [.error ("bad frame: " ++ e.display)] } := by
        cases e <;> first | rfl | exact absurd rfl he
      rw [hserve]
      refine h.quiet hlive hpending ?_ (fun _ => hearly) rfl
      show ((c.replies ++ [_]) ++ c.stream).filterMap Response.carried = c.statuses
      rw [List.append_assoc, List.filterMap_append, List.singleton_append,
        List.filterMap_cons_none rfl, ← List.filterMap_append]
      rfl
  | ok request =>
    cases request with
    | getStatus => exact h.quiet hlive hpending rfl (fun _ => hearly) rfl
    | subscribe => exact h.quiet hlive hpending rfl (fun _ => hearly) rfl
    | reportSessionState locked idleSeconds =>
      exact h.quiet hlive hpending rfl (fun _ => hearly) rfl

theorem ignore (h : Accounts c computed) (hphase : c.phase = .selecting)
    (result : Except FrameError Request) : Accounts (c.ignore result) computed := by
  cases result with
  | error e =>
    refine h.quiet ?_ ?_ rfl (fun hd => by cases hd) rfl
    · rw [hphase]; simp
    · rw [hphase]; rfl
  | ok request => exact h.of_read c.reading c.socket c.clientClosed (c.ignored ++ [request])

theorem poll (h : Accounts c computed) {codec : Codec Request} {channel : Channel}
    (hd : c.poll codec channel = some d) : Accounts d computed := by
  unfold Connection.poll at hd
  split at hd
  · rename_i hphase
    cases hd
    rcases Connection.pollRead_cases codec c fun c result => c.serve channel result with
      ⟨r, rest, heq⟩ | ⟨result, rest, heq⟩
    · rw [heq]
      exact h.of_read r rest c.clientClosed c.ignored
    · rw [heq]
      exact (h.of_read .start rest c.clientClosed c.ignored).serve hphase channel result
  · rename_i hphase
    cases hd
    have hlive : c.phase ≠ .ended := by rw [hphase]; simp
    have hpending : c.phase.pending = [] := by rw [hphase]; rfl
    rcases Connection.select_cases codec channel c with ⟨-, heq⟩ | ⟨-, heq⟩ | ⟨-, heq⟩
    · rw [heq]
      rcases Connection.pollRead_cases codec c Connection.ignore with
        ⟨r, rest, heq'⟩ | ⟨result, rest, heq'⟩
      · rw [heq']
        exact h.of_read r rest c.clientClosed c.ignored
      · rw [heq']
        exact (h.of_read .start rest c.clientClosed c.ignored).ignore hphase result
    · rw [heq]
      exact h.quiet hlive hpending rfl (fun hd => by cases hd) rfl
    · rw [heq]
      exact h.quiet hlive hpending rfl (fun hd => by cases hd) rfl
  · cases hd

/-- The response of a computation carries the status. -/
theorem compute (h : Accounts c computed) {cfg : Config} {s : State} {resetsAt : Int}
    (hd : c.compute cfg s resetsAt = some d) :
    Accounts d (computed ++ [computeStatus c.username c.uid cfg s resetsAt]) := by
  unfold Connection.compute at hd
  split at hd
  · rename_i hphase
    cases hd
    have hlog := h.of_live (by rw [hphase]; simp)
    refine ⟨fun _ => h.early (by rw [hphase]; rfl), Or.inl ?_⟩
    rw [← hlog, hphase]
    simp [Connection.statuses, ConnectionPhase.pending, Response.carried]
  · rename_i cause hcause hphase
    cases hd
    have hlog := h.of_live (by rw [hphase]; simp)
    refine ⟨fun he => (by cases he), Or.inl ?_⟩
    rw [← hlog, hphase]
    simp [Connection.statuses, ConnectionPhase.pending, Response.carried]
  · cases hd

theorem written (h : Accounts c computed) (hd : c.written = some d) : Accounts d computed := by
  obtain ⟨subscribed, response, hphase, rfl⟩ := Connection.written_eq_some hd
  have hlog := h.of_live (by rw [hphase]; simp)
  rw [hphase] at hlog
  cases subscribed with
  | false =>
    have hstream := h.early (by rw [hphase]; rfl)
    refine ⟨fun _ => hstream, Or.inl ?_⟩
    rw [← hlog]
    cases hr : response.carried <;>
      simp [Connection.statuses, ConnectionPhase.pending, hstream, hr]
  | true =>
    refine ⟨fun he => (by cases he), Or.inl ?_⟩
    rw [← hlog]
    cases hr : response.carried <;>
      simp [Connection.statuses, ConnectionPhase.pending, hr]

theorem writeFailed (h : Accounts c computed) (hd : c.writeFailed = some d) :
    Accounts d computed := by
  unfold Connection.writeFailed at hd
  split at hd
  · rename_i subscribed response hphase
    cases hd
    have hlog := h.of_live (by rw [hphase]; simp)
    rw [hphase] at hlog
    refine ⟨fun he => (by cases he), ?_⟩
    cases hr : response.carried with
    | none =>
      left
      rw [← hlog]
      simp [Connection.statuses, ConnectionPhase.pending, hr]
    | some status =>
      right
      refine ⟨rfl, status, ?_⟩
      rw [← hlog]
      simp [Connection.statuses, ConnectionPhase.pending, hr]
  · cases hd

theorem act (h : Accounts c computed) {codec : Codec Request} {s : Server} {l : ClientStep}
    (i : Nat) (hd : l.act codec s.process s.channel c = some d) :
    Accounts d (computed ++ statusAt i c.username c.uid s (.client i l)) := by
  cases l with
  | arrive bytes =>
    dsimp only [ClientStep.act] at hd
    split at hd <;> cases hd
    show Accounts _ (computed ++ [])
    rw [List.append_nil]
    exact h.of_read c.reading (c.socket ++ bytes) c.clientClosed c.ignored
  | hangUp =>
    cases hd
    show Accounts _ (computed ++ [])
    rw [List.append_nil]
    exact h.of_read c.reading c.socket true c.ignored
  | poll =>
    show Accounts d (computed ++ [])
    rw [List.append_nil]
    exact h.poll hd
  | compute resetsAt =>
    have hstatus : statusAt i c.username c.uid s (.client i (.compute resetsAt)) =
        [computeStatus c.username c.uid s.process.cfg s.process.state resetsAt] := if_pos rfl
    rw [hstatus]
    exact h.compute hd
  | written =>
    show Accounts d (computed ++ [])
    rw [List.append_nil]
    exact h.written hd
  | writeFailed =>
    show Accounts d (computed ++ [])
    rw [List.append_nil]
    exact h.writeFailed hd

end Accounts

/-- Nothing is computed at the steps of others. -/
theorem statusAt_of_ne {i j : Nat} (h : j ≠ i) (username : String) (uid : UInt32) (s : Server)
    (l : ClientStep) : statusAt i username uid s (.client j l) = [] := by
  cases l with
  | compute resetsAt => exact if_neg h
  | _ => rfl

/-- The connection `i` behind the labels `ls`. -/
structure Ledger (codec : Codec Request) (s₀ : Server) (i : Nat) (ls : List ServerStep)
    (s : Server) : Prop where
  absent : s.connections i = none → ∀ username uid,
    Transition.outputs (step codec) (statusAt i username uid) s₀ ls = []
  accepted : ∀ c, s.connections i = some c → ∃ lookup,
    ServerStep.accept i (.ok c.uid) lookup ∈ ls ∧ c.username = peerUsername c.uid lookup
  accounts : ∀ c, s.connections i = some c →
    Accounts c (Transition.outputs (step codec) (statusAt i c.username c.uid) s₀ ls)

namespace Ledger

variable {codec : Codec Request} {s₀ s t : Server} {i : Nat} {ls : List ServerStep}

/-- A step at which the connection stays as it is. -/
theorem unchanged (h : Ledger codec s₀ i ls s) {l : ServerStep}
    (hs : Transition.exec (step codec) s₀ ls = some s) (hl : s.step codec l = some t)
    (hconnection : t.connections i = s.connections i)
    (hquiet : ∀ username uid, statusAt i username uid s l = []) :
    Ledger codec s₀ i (ls ++ [l]) t := by
  have hout : ∀ username uid,
      Transition.outputs (step codec) (statusAt i username uid) s₀ (ls ++ [l]) =
        Transition.outputs (step codec) (statusAt i username uid) s₀ ls := by
    intro username uid
    rw [Transition.outputs_concat _ hs hl, hquiet, List.append_nil]
  refine ⟨fun hnone username uid => ?_, fun c hc => ?_, fun c hc => ?_⟩
  · rw [hout]
    exact h.absent (hconnection ▸ hnone) username uid
  · obtain ⟨lookup, hmem, hname⟩ := h.accepted c (hconnection ▸ hc)
    exact ⟨lookup, List.mem_append_left _ hmem, hname⟩
  · rw [hout]
    exact h.accounts c (hconnection ▸ hc)

theorem accept (h : Ledger codec s₀ i ls s) {uid : UInt32}
    {lookup : Except String (Option String)} (hnone : s.connections i = none)
    (hs : Transition.exec (step codec) s₀ ls = some s)
    (hl : s.step codec (.accept i (.ok uid) lookup) = some t)
    (ht : t = s.put i (Connection.accept (peerUsername uid lookup) uid)) :
    Ledger codec s₀ i (ls ++ [.accept i (.ok uid) lookup]) t := by
  have hput : t.connections i = some (Connection.accept (peerUsername uid lookup) uid) := by
    rw [ht, connections_put]
  refine ⟨fun habsent => ?_, fun c hc => ?_, fun c hc => ?_⟩
  · rw [hput] at habsent
    cases habsent
  · rw [hput] at hc
    cases hc
    exact ⟨lookup, List.mem_append_right _ (List.mem_singleton_self _), rfl⟩
  · rw [hput] at hc
    cases hc
    rw [Transition.outputs_concat _ hs hl, h.absent hnone]
    exact Accounts.accept _ _

theorem act (h : Ledger codec s₀ i ls s) {l : ClientStep} {c d : Connection}
    (hc : s.connections i = some c) (hact : l.act codec s.process s.channel c = some d)
    (hs : Transition.exec (step codec) s₀ ls = some s)
    (hl : s.step codec (.client i l) = some t) (ht : t = s.put i d) :
    Ledger codec s₀ i (ls ++ [.client i l]) t := by
  have hput : t.connections i = some d := by rw [ht, connections_put]
  have hpeer := ClientStep.peer_act hact
  have husername : d.username = c.username := congrArg Prod.fst hpeer
  have huid : d.uid = c.uid := congrArg Prod.snd hpeer
  refine ⟨fun habsent => ?_, fun e he => ?_, fun e he => ?_⟩
  · rw [hput] at habsent
    cases habsent
  · rw [hput] at he
    cases he
    obtain ⟨lookup, hmem, hname⟩ := h.accepted c hc
    rw [husername, huid]
    exact ⟨lookup, List.mem_append_left _ hmem, hname⟩
  · rw [hput] at he
    cases he
    rw [husername, huid, Transition.outputs_concat _ hs hl]
    exact (h.accounts c hc).act i hact

theorem step (h : Ledger codec s₀ i ls s) {l : ServerStep}
    (hs : Transition.exec (Server.step codec) s₀ ls = some s) (hl : s.step codec l = some t) :
    Ledger codec s₀ i (ls ++ [l]) t := by
  have hlabel := hl
  cases l with
  | task l =>
    obtain ⟨q, -, rfl⟩ := Option.map_eq_some_iff.mp hlabel
    exact h.unchanged hs hl rfl fun _ _ => rfl
  | acceptFailed =>
    cases hlabel
    exact h.unchanged hs hl rfl fun _ _ => rfl
  | accept j creds lookup =>
    cases creds with
    | error e =>
      cases hlabel
      exact h.unchanged hs hl rfl fun _ _ => rfl
    | ok uid =>
      obtain ⟨hnone, ht⟩ := accept_eq_some hlabel
      by_cases hj : j = i
      · subst hj
        exact h.accept hnone hs hl ht
      · refine h.unchanged hs hl ?_ fun _ _ => rfl
        rw [ht, connections_put_ne (Ne.symm hj)]
  | client j l =>
    obtain ⟨c, d, hc, hact, ht⟩ := client_eq_some hlabel
    by_cases hj : j = i
    · subst hj
      exact h.act hc hact hs hl ht
    · refine h.unchanged hs hl ?_ fun username uid => statusAt_of_ne hj username uid s l
      rw [ht, connections_put_ne (Ne.symm hj)]

end Ledger

theorem ledger_exec (codec : Codec Request) (cfg : Config) (loaded : State) (today : NaiveDate)
    (initial : UserSet) (i : Nat) {ls : List ServerStep} {s : Server}
    (h : Transition.exec (step codec) (start cfg loaded today initial) ls = some s) :
    Ledger codec (start cfg loaded today initial) i ls s := by
  have hstart : Ledger codec (start cfg loaded today initial) i []
      (start cfg loaded today initial) :=
    ⟨fun _ _ _ => rfl, fun c hc => (by cases hc), fun c hc => (by cases hc)⟩
  exact Transition.exec_history hstart (fun _ _ _ _ hs hi hl => hi.step hs hl) h

/-- In every run a connection belongs to the account that the kernel named when it was
accepted, and what was written to it are the statuses of this account at the moments
at which its task took the lock: all of them, each once and in order.  Only the last
can be missing, while it is being written or where its write failed. -/
theorem statuses_of_peer (codec : Codec Request) (cfg : Config) (loaded : State)
    (today : NaiveDate) (initial : UserSet) (i : Nat) (ls : List ServerStep) (s : Server)
    (c : Connection)
    (h : Transition.exec (step codec) (start cfg loaded today initial) ls = some s)
    (hc : s.connections i = some c) :
    (∃ lookup, ServerStep.accept i (.ok c.uid) lookup ∈ ls ∧
      c.username = peerUsername c.uid lookup) ∧
    (c.statuses ++ c.phase.pending =
        Transition.outputs (step codec) (statusAt i c.username c.uid)
          (start cfg loaded today initial) ls ∨
      c.phase = .ended ∧ ∃ lost, c.statuses ++ [lost] =
        Transition.outputs (step codec) (statusAt i c.username c.uid)
          (start cfg loaded today initial) ls) := by
  have hledger := ledger_exec codec cfg loaded today initial i h
  exact ⟨hledger.accepted c hc, (hledger.accounts c hc).log⟩

theorem statuses_of_peer_two : ∃ s c, Transition.exec (step sampleCodec)
      (start .defaults .fresh 0 ∅) twoClients = some s ∧ s.connections 0 = some c ∧
    c.username = "alice" ∧ c.statuses = Transition.outputs (step sampleCodec)
      (statusAt 0 c.username c.uid) (start .defaults .fresh 0 ∅) twoClients := by
  have hrun : (Transition.exec (step sampleCodec) (start .defaults .fresh 0 ∅) twoClients).any
      (fun s => (s.connections 0).any fun c => decide (c.username = "alice" ∧
        c.phase = .serving)) = true := by
    decide +kernel
  obtain ⟨s, hs, hany⟩ := (Option.any_eq_true _ _).mp hrun
  obtain ⟨c, hc, hstate⟩ := (Option.any_eq_true _ _).mp hany
  obtain ⟨hname, hphase⟩ := of_decide_eq_true hstate
  have h := statuses_of_peer sampleCodec .defaults .fresh 0 ∅ 0 twoClients s c hs hc
  refine ⟨s, c, hs, hc, hname, ?_⟩
  rcases h.2 with hlog | ⟨hended, -⟩
  · rw [hphase] at hlog
    simpa [ConnectionPhase.pending] using hlog
  · rw [hphase] at hended
    cases hended

end Server

end Daemon
end Konstantin
