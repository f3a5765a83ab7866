import Konstantin.Daemon.Subscribe
import Konstantin.Transition

/-!
# Frames of the client behind `Subscribe`

A subscription is meant to ignore them.  The bytes of such a frame may arrive in
pieces, and a wake that comes between two pieces drops the pending read together
with the pieces it has taken.  What is read next then starts inside the frame.
-/

namespace Konstantin
namespace Daemon

open Streams Proto

/-- A frame that the daemon reads as a request. -/
structure RequestFrame (codec : Codec Request) where
  payload : List UInt8
  request : Request
  fits : payload.length ≤ maxFrameBytes
  decodes : codec.fromSlice payload = .ok request

/-- A subscription, the channel of the wakes, and what the client still sends. -/
structure Talk where
  channel : Channel
  connection : Connection
  toArrive : List UInt8

inductive TalkStep where
  | wake
  | arrive (n : Nat)
  | hangUp
  | poll
  | compute (cfg : Config) (s : State) (resetsAt : Int)
  | written
  deriving DecidableEq

namespace Talk

variable {codec : Codec Request}

def bytesOf (frames : List (RequestFrame codec)) : List UInt8 :=
  (frames.map fun f => frame f.payload).flatten

/-- `Subscribe` was read, with nothing behind it yet. -/
def start (username : String) (uid : UInt32) (capacity sent : Nat)
    (frames : List (RequestFrame codec)) : Talk where
  channel := { capacity := capacity, sent := sent, closed := false }
  connection :=
    { Connection.accept username uid with phase := .computing .subscription, receiver := sent }
  toArrive := bytesOf frames

def onConnection (t : Talk) (c : Option Connection) : Option Talk :=
  c.map fun c => { t with connection := c }

def step (codec : Codec Request) (t : Talk) : TalkStep → Option Talk
  | .wake => some { t with channel := t.channel.send }
  | .arrive n =>
    if t.connection.clientClosed then none
    else some { t with
      connection := t.connection.arrive (t.toArrive.take n)
      toArrive := t.toArrive.drop n }
  | .hangUp => some { t with connection := t.connection.hangUp }
  | .poll => t.onConnection (t.connection.poll codec t.channel)
  | .compute cfg s resetsAt => t.onConnection (t.connection.compute cfg s resetsAt)
  | .written => t.onConnection t.connection.written

/-- The session goes on, each wake was answered by one update or is about to be,
the first of the frames were ignored, and no byte of the others is lost; of the
next one less than the whole was read. -/
def Served (frames : List (RequestFrame codec)) (t : Talk) : Prop :=
  t.connection.phase ≠ .ended ∧
    t.connection.stream.length + (if t.connection.phase = .selecting then 0 else 1) =
      t.connection.wakes + 1 ∧
    ∃ done rest, frames = done ++ rest ∧
      t.connection.ignored = done.map RequestFrame.request ∧
      t.connection.reading.bytes ++ t.connection.socket ++ t.toArrive = bytesOf rest ∧
      ∀ f ∈ rest.head?, t.connection.reading.bytes.length < (frame f.payload).length

/-- Until the client closes. -/
def Survives (frames : List (RequestFrame codec)) (_ : Talk) (_ : TalkStep) (t : Talk) : Prop :=
  t.connection.clientClosed = false → Served frames t

/-- A wake is taken with no byte in the pending read. -/
def WakesBetweenFrames (t : Talk) (l : TalkStep) (_ : Talk) : Prop :=
  l = .poll → t.connection.phase = .selecting →
    (t.channel.recv t.connection.receiver).1 ≠ .empty → t.connection.reading.bytes = []

instance (t : Talk) (l : TalkStep) (u : Talk) : Decidable (WakesBetweenFrames t l u) := by
  unfold WakesBetweenFrames
  infer_instance

/-- The phases of a subscription. -/
def InSubscription (c : Connection) : Prop :=
  (∃ cause, c.phase = .computing cause ∧ cause ≠ .request) ∨
    (∃ response, c.phase = .writing true response) ∨ c.phase = .selecting

structure Steady (frames : List (RequestFrame codec)) (t : Talk) : Prop where
  served : Served frames t
  waiting : t.connection.reading.Waiting
  inside : InSubscription t.connection
  channelOpen : t.channel.closed = false

def SteadyOpen (frames : List (RequestFrame codec)) (t : Talk) : Prop :=
  t.connection.clientClosed = false → Steady frames t

theorem bytesOf_cons (f : RequestFrame codec) (frames : List (RequestFrame codec)) :
    bytesOf (f :: frames) = frame f.payload ++ bytesOf frames := rfl

theorem steady_start (username : String) (uid : UInt32) (capacity sent : Nat)
    (frames : List (RequestFrame codec)) :
    Steady frames (start username uid capacity sent frames) where
  served := by
    exact ⟨ConnectionPhase.noConfusion, rfl, [], frames, rfl, rfl, rfl,
      fun f _ => length_frame_pos f.payload⟩
  waiting := PendingRead.waiting_start
  inside := Or.inl ⟨.subscription, rfl, Cause.noConfusion⟩
  channelOpen := rfl

namespace Steady

variable {frames : List (RequestFrame codec)} {t : Talk}

theorem arrive (h : Steady frames t) (n : Nat) :
    Steady frames { t with
      connection := t.connection.arrive (t.toArrive.take n)
      toArrive := t.toArrive.drop n } where
  served := by
    obtain ⟨hphase, hcount, done, rest, hsplit, hignored, hbytes, hless⟩ := h.served
    refine ⟨hphase, hcount, done, rest, hsplit, hignored, ?_, hless⟩
    rw [← hbytes]
    simp only [Connection.arrive, List.append_assoc, List.take_append_drop]
  waiting := h.waiting
  inside := h.inside
  channelOpen := h.channelOpen

/-- The bytes at hand are part of the next frame, or the whole of it and more. -/
theorem pollRead (h : Steady frames t) (hopen : t.connection.clientClosed = false) :
    Steady frames { t with connection := t.connection.pollRead codec Connection.ignore } := by
  obtain ⟨hended, hcount, done, rest, hsplit, hignored, hbytes, -⟩ := h.served
  unfold Connection.pollRead
  rw [hopen]
  cases rest with
  | nil =>
    have hnil : t.connection.reading.bytes = [] ∧ t.connection.socket = [] ∧ t.toArrive = [] := by
      have hall : t.connection.reading.bytes ++ t.connection.socket ++ t.toArrive = [] := hbytes
      simpa [and_assoc] using hall
    obtain ⟨hread, hsocket, hnone⟩ := hnil
    rw [hsocket, PendingRead.poll_nothing codec hread]
    exact ⟨⟨hended, hcount, done, [], hsplit, hignored, hnone, fun f hf => by cases hf⟩,
      PendingRead.waiting_start, h.inside, h.channelOpen⟩
  | cons f rest =>
    rw [bytesOf_cons] at hbytes
    by_cases hwhole : (frame f.payload).length ≤
        (t.connection.reading.bytes ++ t.connection.socket).length
    · obtain ⟨tail, htail⟩ := List.prefix_of_prefix_length_le
        (List.prefix_append (frame f.payload) (bytesOf rest)) ⟨t.toArrive, hbytes⟩ hwhole
      rw [PendingRead.poll_frame h.waiting f.fits htail.symm, f.decodes]
      have hrest : tail ++ t.toArrive = bytesOf rest := by
        rw [← htail, List.append_assoc] at hbytes
        exact List.append_cancel_left hbytes
      refine ⟨⟨hended, hcount, done ++ [f], rest, ?_, ?_, hrest, fun g _ => ?_⟩,
        PendingRead.waiting_start, h.inside, h.channelOpen⟩
      · rw [hsplit, List.append_cons]
      · show t.connection.ignored ++ [f.request] = (done ++ [f]).map RequestFrame.request
        rw [hignored, List.map_append]
        rfl
      · exact length_frame_pos g.payload
    · obtain ⟨r, hpoll, hwaiting, hread⟩ := PendingRead.poll_waits codec h.waiting
        f.fits hbytes (by omega)
      rw [hpoll]
      refine ⟨⟨hended, hcount, done, f :: rest, hsplit, hignored, ?_, fun g hg => ?_⟩, hwaiting,
        h.inside, h.channelOpen⟩
      · rw [bytesOf_cons, ← hbytes]
        show r.bytes ++ [] ++ t.toArrive = _
        rw [hread, List.append_nil]
      · cases hg
        show r.bytes.length < (frame f.payload).length
        rw [hread]
        omega

/-- A wake that finds no byte in the pending read. -/
theorem wake (h : Steady frames t) (hphase : t.connection.phase = .selecting)
    (hread : t.connection.reading.bytes = []) (next : Nat) :
    Steady frames { t with
      connection := { t.connection with
        phase := .computing .wake, reading := .start, receiver := next,
        wakes := t.connection.wakes + 1 } } where
  served := by
    obtain ⟨-, hcount, done, rest, hsplit, hignored, hbytes, hless⟩ := h.served
    rw [hread] at hbytes hless
    rw [if_pos hphase] at hcount
    exact ⟨ConnectionPhase.noConfusion, congrArg (· + 1) hcount, done, rest, hsplit, hignored,
      hbytes, hless⟩
  waiting := PendingRead.waiting_start
  inside := Or.inl ⟨.wake, rfl, Cause.noConfusion⟩
  channelOpen := h.channelOpen

theorem poll (h : Steady frames t) (hopen : t.connection.clientClosed = false) {c : Connection}
    (hguard : t.connection.phase = .selecting →
      (t.channel.recv t.connection.receiver).1 ≠ .empty → t.connection.reading.bytes = [])
    (hc : t.connection.poll codec t.channel = some c) :
    Steady frames { t with connection := c } := by
  rcases h.inside with ⟨cause, hphase, -⟩ | ⟨response, hphase⟩ | hphase
  · simp only [Connection.poll, hphase] at hc
    cases hc
  · simp only [Connection.poll, hphase] at hc
    cases hc
  · simp only [Connection.poll, hphase] at hc
    cases hc
    rcases Connection.select_cases codec t.channel t.connection with
      ⟨-, heq⟩ | ⟨hclosed, -⟩ | ⟨hwake, heq⟩
    · rw [heq]
      exact h.pollRead hopen
    · have hnever : (t.channel.recv t.connection.receiver).1 ≠ .closed := by
        unfold Channel.recv
        rw [h.channelOpen]
        split
        · split <;> exact Received.noConfusion
        · exact Received.noConfusion
      exact absurd hclosed hnever
    · rw [heq]
      exact h.wake hphase (hguard hphase hwake) _

theorem compute (h : Steady frames t) {cfg : Config} {s : State} {resetsAt : Int} {c : Connection}
    (hc : t.connection.compute cfg s resetsAt = some c) :
    Steady frames { t with connection := c } := by
  obtain ⟨-, hcount, done, rest, hsplit, hignored, hbytes, hless⟩ := h.served
  rcases Connection.compute_eq_some hc with ⟨hphase, -⟩ | ⟨⟨cause, hphase, hcause⟩, rfl⟩
  · exfalso
    rcases h.inside with ⟨cause, hcause, hne⟩ | ⟨response, hw⟩ | hs
    · rw [hphase] at hcause
      cases hcause
      exact hne rfl
    · rw [hphase] at hw
      cases hw
    · rw [hphase] at hs
      cases hs
  · rw [if_neg (by rw [hphase]; exact ConnectionPhase.noConfusion)] at hcount
    exact ⟨⟨ConnectionPhase.noConfusion, hcount, done, rest, hsplit, hignored, hbytes, hless⟩,
      h.waiting, Or.inr (Or.inl ⟨_, rfl⟩), h.channelOpen⟩

theorem written (h : Steady frames t) {c : Connection} (hc : t.connection.written = some c) :
    Steady frames { t with connection := c } := by
  obtain ⟨-, hcount, done, rest, hsplit, hignored, hbytes, hless⟩ := h.served
  obtain ⟨subscribed, response, hphase, rfl⟩ := Connection.written_eq_some hc
  rw [if_neg (by rw [hphase]; exact ConnectionPhase.noConfusion)] at hcount
  cases subscribed with
  | true =>
    refine ⟨⟨ConnectionPhase.noConfusion, ?_, done, rest, hsplit, hignored, hbytes, hless⟩,
      h.waiting, Or.inr (Or.inr rfl), h.channelOpen⟩
    show (t.connection.stream ++ [response]).length + 0 = t.connection.wakes + 1
    rw [List.length_append]
    exact hcount
  | false =>
    exfalso
    rcases h.inside with ⟨cause, hcause, -⟩ | ⟨other, hw⟩ | hs
    · rw [hphase] at hcause
      cases hcause
    · rw [hphase] at hw
      cases hw
    · rw [hphase] at hs
      cases hs

end Steady

theorem clientClosed_poll {channel : Channel} {c d : Connection}
    (h : c.poll codec channel = some d) : d.clientClosed = c.clientClosed := by
  unfold Connection.poll at h
  split at h
  · cases h
    rcases Connection.pollRead_cases codec c fun c result => c.serve channel result with
      ⟨r, rest, heq⟩ | ⟨result, rest, heq⟩
    · rw [heq]
    · rw [heq]
      unfold Connection.serve
      split <;> rfl
  · cases h
    rcases Connection.select_cases codec channel c with ⟨-, heq⟩ | ⟨-, heq⟩ | ⟨-, heq⟩
    · rw [heq]
      rcases Connection.pollRead_cases codec c Connection.ignore with
        ⟨r, rest, heq'⟩ | ⟨result, rest, heq'⟩
      · rw [heq']
      · rw [heq']
        cases result <;> rfl
    · rw [heq]
    · rw [heq]
  · cases h

theorem steady_step {frames : List (RequestFrame codec)} {t u : Talk} {l : TalkStep}
    (hstep : step codec t l = some u) (h : SteadyOpen frames t)
    (hguard : WakesBetweenFrames t l u) : SteadyOpen frames u := by
  intro hu
  cases l with
  | wake =>
    cases hstep
    have ht := h hu
    exact ⟨ht.served, ht.waiting, ht.inside, ht.channelOpen⟩
  | arrive n =>
    simp only [step] at hstep
    split at hstep
    · cases hstep
    · cases hstep
      exact (h hu).arrive n
  | hangUp =>
    cases hstep
    cases hu
  | poll =>
    obtain ⟨c, hc, rfl⟩ := Option.map_eq_some_iff.mp hstep
    by_cases hopen : t.connection.clientClosed = false
    · exact (h hopen).poll hopen (hguard rfl) hc
    · exact absurd ((clientClosed_poll hc).symm.trans hu) hopen
  | compute cfg s resetsAt =>
    obtain ⟨c, hc, rfl⟩ := Option.map_eq_some_iff.mp hstep
    refine (h ?_).compute hc
    rcases Connection.compute_eq_some hc with ⟨-, response, rfl⟩ | ⟨-, rfl⟩ <;> exact hu
  | written =>
    obtain ⟨c, hc, rfl⟩ := Option.map_eq_some_iff.mp hstep
    refine (h ?_).written hc
    obtain ⟨subscribed, response, -, rfl⟩ := Connection.written_eq_some hc
    cases subscribed <;> exact hu

/-- Runs whose wakes fall between frames. -/
theorem survives_of_wakesBetweenFrames (codec : Codec Request) (username : String) (uid : UInt32)
    (capacity sent : Nat) (frames : List (RequestFrame codec)) (ls : List TalkStep)
    (h : Transition.Along (step codec) WakesBetweenFrames
      (start username uid capacity sent frames) ls) :
    Transition.Along (step codec) (Survives frames)
      (start username uid capacity sent frames) ls := by
  refine Transition.along_of_guarded (I := SteadyOpen frames) ?_ ls
    (fun _ => steady_start username uid capacity sent frames) h
  intro s l t hstep hs hguard
  have ht := steady_step hstep hs hguard
  exact ⟨ht, fun hopen => (ht hopen).served⟩

/-! ### The run that fails -/

theorem getStatusText_fits : getStatusText.length ≤ maxFrameBytes := by decide +kernel

def getStatusFrame : RequestFrame sampleCodec where
  payload := getStatusText
  request := .getStatus
  fits := getStatusText_fits
  decodes := sampleCodec.decodes .getStatus getStatusText rfl

/-- The first snapshot, and then half of the length of a `GetStatus` frame. -/
def halfLength : List TalkStep :=
  [.compute .defaults .fresh 0, .written, .arrive 2, .poll]

/-- A wake comes when two of the four bytes of the length were read.  The other
two and the first two of the text are taken for a length of more than a MiB. -/
theorem survives_fails :
    ¬ ∀ (codec : Codec Request) (username : String) (uid : UInt32) (capacity sent : Nat)
        (frames : List (RequestFrame codec)) (ls : List TalkStep),
      Transition.Along (step codec) (Survives frames)
        (start username uid capacity sent frames) ls := by
  intro h
  have hrun := h sampleCodec "alice" 501 64 0 [getStatusFrame]
    (halfLength ++ [.wake, .poll, .compute .defaults .fresh 0, .written, .arrive 100] ++
      .poll :: [])
  have hends : (Transition.exec (step sampleCodec) (start "alice" 501 64 0 [getStatusFrame])
      (halfLength ++ [.wake, .poll, .compute .defaults .fresh 0, .written, .arrive 100])).any
      (fun t => (step sampleCodec t .poll).any fun u =>
        decide (u.connection.clientClosed = false ∧ u.connection.phase = .ended)) = true := by
    decide +kernel
  obtain ⟨t, ht, hlast⟩ := (Option.any_eq_true _ _).mp hends
  obtain ⟨u, hu, hstate⟩ := (Option.any_eq_true _ _).mp hlast
  obtain ⟨hopen, hphase⟩ := of_decide_eq_true hstate
  exact (Transition.along_at hrun ht hu hopen).1 hphase

theorem survives_of_wakesBetweenFrames_run :
    Transition.Along (step sampleCodec) (Survives [getStatusFrame, getStatusFrame])
      (start "alice" 501 64 0 [getStatusFrame, getStatusFrame])
      (halfLength ++ [.arrive 23, .poll, .wake, .poll, .compute .defaults .fresh 0, .written,
        .arrive 100, .poll]) :=
  survives_of_wakesBetweenFrames _ _ _ _ _ _ _ (by decide +kernel)

end Talk

end Daemon
end Konstantin
