import Konstantin.Daemon.Status
import Konstantin.Proto.Reading
import Konstantin.Streams.Broadcast

/-!
# One connection of the socket server

`handle_connection` and `run_subscribe` of `crates/daemon/src/ipc.rs`, cut at
every place where they wait: for bytes of the client, for the state lock, for a
write, and in the `select!` of a subscription.

The branches of the `select!` are tried in order.  When a wake is taken the read
of the other branch is dropped, with the bytes it has taken from the socket.
-/

namespace Konstantin
namespace Daemon

open Streams Proto

inductive Request where
  | getStatus
  | subscribe
  | reportSessionState (locked : Bool) (idleSeconds : UInt32)
  deriving DecidableEq

inductive Response where
  | status (s : UserStatus)
  | statusUpdate (s : UserStatus)
  | ack
  | error (message : String)
  deriving DecidableEq

/-- What a status is computed for. -/
inductive Cause where
  | request
  | subscription
  | wake
  deriving DecidableEq

inductive ConnectionPhase where
  | serving
  | computing (cause : Cause)
  | writing (subscribed : Bool) (response : Response)
  | selecting
  | ended
  deriving DecidableEq

/-- `replies` are the frames written before `Subscribe`, `stream` those behind it.
`ignored` and `wakes` are bookkeeping: the frames that a subscription ignored, and
the wakes it received. -/
structure Connection where
  username : String
  uid : UInt32
  phase : ConnectionPhase
  reading : PendingRead
  socket : List UInt8
  clientClosed : Bool
  receiver : Nat
  replies : List Response
  stream : List Response
  ignored : List Request
  wakes : Nat
  deriving DecidableEq

namespace Connection

def accept (username : String) (uid : UInt32) : Connection where
  username := username
  uid := uid
  phase := .serving
  reading := .start
  socket := []
  clientClosed := false
  receiver := 0
  replies := []
  stream := []
  ignored := []
  wakes := 0

def arrive (c : Connection) (bytes : List UInt8) : Connection :=
  { c with socket := c.socket ++ bytes }

def hangUp (c : Connection) : Connection := { c with clientClosed := true }

/-- A request of `handle_connection`. -/
def serve (c : Connection) (channel : Channel) : Except FrameError Request → Connection
  | .error .closed => { c with phase := .ended }
  | .error e =>
    { c with phase := .ended, replies := c.replies ++ [.error ("bad frame: " ++ e.display)] }
  | .ok .getStatus => { c with phase := .computing .request }
  | .ok (.reportSessionState _ _) => { c with phase := .writing false .ack }
  | .ok .subscribe =>
    { c with phase := .computing .subscription, receiver := channel.subscribe }

/-- A frame of the client while it is subscribed. -/
def ignore (c : Connection) : Except FrameError Request → Connection
  | .error _ => { c with phase := .ended }
  | .ok request => { c with ignored := c.ignored ++ [request] }

/-- The read is polled; `handle` gets what it returns. -/
def pollRead (codec : Codec Request) (c : Connection)
    (handle : Connection → Except FrameError Request → Connection) : Connection :=
  match c.reading.poll codec c.clientClosed c.socket with
  | (.pending r, rest) => { c with reading := r, socket := rest }
  | (.ready result, rest) => handle { c with reading := .start, socket := rest } result

/-- One round of the `select!`. -/
def select (codec : Codec Request) (channel : Channel) (c : Connection) : Connection :=
  match channel.recv c.receiver with
  | (.empty, _) => c.pollRead codec ignore
  | (.closed, _) => { c with phase := .ended }
  | (.message, next) | (.lagged _, next) =>
    { c with phase := .computing .wake, reading := .start, receiver := next, wakes := c.wakes + 1 }

/-- The task runs until it waits for bytes or for the lock. -/
def poll (codec : Codec Request) (channel : Channel) (c : Connection) : Option Connection :=
  match c.phase with
  | .serving => some (c.pollRead codec fun c result => c.serve channel result)
  | .selecting => some (c.select codec channel)
  | _ => none

/-- The lock was taken and the clock read. -/
def compute (cfg : Config) (s : State) (resetsAt : Int) (c : Connection) : Option Connection :=
  let status := computeStatus c.username c.uid cfg s resetsAt
  match c.phase with
  | .computing .request => some { c with phase := .writing false (.status status) }
  | .computing _ => some { c with phase := .writing true (.statusUpdate status) }
  | _ => none

def written (c : Connection) : Option Connection :=
  match c.phase with
  | .writing false response =>
    some { c with phase := .serving, replies := c.replies ++ [response] }
  | .writing true response =>
    some { c with phase := .selecting, stream := c.stream ++ [response] }
  | _ => none

def writeFailed (c : Connection) : Option Connection :=
  match c.phase with
  | .writing _ _ => some { c with phase := .ended }
  | _ => none

/-! ## What the operations do -/

/-- The loop ends with the channel, polls the read, or takes a wake and drops the
read. -/
theorem select_cases (codec : Codec Request) (channel : Channel) (c : Connection) :
    ((channel.recv c.receiver).1 = .empty ∧ c.select codec channel = c.pollRead codec ignore) ∨
      ((channel.recv c.receiver).1 = .closed ∧
        c.select codec channel = { c with phase := .ended }) ∨
      ((channel.recv c.receiver).1 ≠ .empty ∧ c.select codec channel =
        { c with phase := .computing .wake, reading := .start,
                 receiver := (channel.recv c.receiver).2, wakes := c.wakes + 1 }) := by
  unfold select
  cases hr : channel.recv c.receiver with
  | mk received next =>
    cases received with
    | empty => exact Or.inl ⟨rfl, rfl⟩
    | closed => exact Or.inr (Or.inl ⟨rfl, rfl⟩)
    | message => exact Or.inr (Or.inr ⟨by simp, rfl⟩)
    | lagged missed => exact Or.inr (Or.inr ⟨by simp, rfl⟩)

/-- A poll of the read touches the read, the socket, and what the handler does. -/
theorem pollRead_cases (codec : Codec Request) (c : Connection)
    (handle : Connection → Except FrameError Request → Connection) :
    (∃ r rest, c.pollRead codec handle = { c with reading := r, socket := rest }) ∨
      ∃ result rest, c.pollRead codec handle =
        handle { c with reading := .start, socket := rest } result := by
  unfold pollRead
  cases c.reading.poll codec c.clientClosed c.socket with
  | mk polled rest =>
    cases polled with
    | pending r => exact Or.inl ⟨r, rest, rfl⟩
    | ready result => exact Or.inr ⟨result, rest, rfl⟩

theorem compute_eq_some {cfg : Config} {s : State} {resetsAt : Int} {c d : Connection}
    (h : c.compute cfg s resetsAt = some d) :
    (c.phase = .computing .request ∧
        ∃ response, d = { c with phase := .writing false response }) ∨
      (∃ cause, c.phase = .computing cause ∧ cause ≠ .request) ∧
        d = { c with
          phase := .writing true
            (.statusUpdate (computeStatus c.username c.uid cfg s resetsAt)) } := by
  unfold compute at h
  split at h
  · rename_i hphase
    cases h
    exact Or.inl ⟨hphase, _, rfl⟩
  · rename_i cause hcause hphase
    cases h
    exact Or.inr ⟨⟨cause, hphase, hcause⟩, rfl⟩
  · cases h

theorem written_eq_some {c d : Connection} (h : c.written = some d) :
    ∃ subscribed response, c.phase = .writing subscribed response ∧
      d = if subscribed then { c with phase := .selecting, stream := c.stream ++ [response] }
        else { c with phase := .serving, replies := c.replies ++ [response] } := by
  unfold written at h
  split at h
  · rename_i response hphase
    cases h
    exact ⟨false, response, hphase, rfl⟩
  · rename_i response hphase
    cases h
    exact ⟨true, response, hphase, rfl⟩
  · cases h

theorem writeFailed_eq_some {c d : Connection} (h : c.writeFailed = some d) :
    d = { c with phase := .ended } := by
  unfold writeFailed at h
  split at h
  · cases h
    rfl
  · cases h

end Connection

/-! ## Two requests as texts -/

def asciiBytes (text : String) : List UInt8 := text.toList.map fun c => UInt8.ofNat c.toNat

def getStatusText : List UInt8 := asciiBytes "\x7b\"kind\":\"get_status\"\x7d"

def subscribeText : List UInt8 := asciiBytes "\x7b\"kind\":\"subscribe\"\x7d"

theorem subscribeText_ne : subscribeText ≠ getStatusText := by decide +kernel

/-- `serde_json` on these two texts. -/
def sampleCodec : Codec Request where
  toVec
    | .getStatus => .ok getStatusText
    | .subscribe => .ok subscribeText
    | .reportSessionState _ _ => .error "not among the sample texts"
  fromSlice text :=
    if text = getStatusText then .ok .getStatus
    else if text = subscribeText then .ok .subscribe
    else .error "expected value"
  unexpectedEof := "early eof"
  decodes request payload h := by
    cases request with
    | getStatus =>
      cases h
      exact if_pos rfl
    | subscribe =>
      cases h
      rw [if_neg subscribeText_ne, if_pos rfl]
    | reportSessionState locked idleSeconds => cases h

end Daemon
end Konstantin
