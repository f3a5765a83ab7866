import Mathlib.Data.List.TakeWhile
import Konstantin.Daemon.CleanClose

/-!
# A whole conversation on the socket

`handle_connection` and `run_subscribe` of `crates/daemon/src/ipc.rs` with the bytes
that they write, beside what the client reads from them.  The client sends its requests
without waiting, in chunks of any size, and may break off anywhere.
-/

namespace Konstantin
namespace Daemon

open Streams Proto

/-- What a round of the `select!` finds, but for the result of its write. -/
inductive Wakeup where
  | woken (dropped : Nat)
  | channelClosed
  | readable
  deriving DecidableEq

section

variable (codec : Codec Request) (answers : Codec Response) (status : Nat → UserStatus)

/-- `run_subscribe` behind its first update, with the bytes written by then.  `status n`
is what the `n`-th `compute_status` of the connection finds. -/
def pushUpdates : Nat → List Wakeup → Chunks UInt8 → List UInt8 →
    Option (Except FrameError Unit) × List UInt8
  | _, [], _, out => (none, out)
  | n, .woken dropped :: events, stream, out =>
    match writeFrame answers (.statusUpdate (status n)) out with
    | (.ok (), out) => pushUpdates (n + 1) events (Chunks.readExact dropped stream).2 out
    | (.error _, out) => (some (.ok ()), out)
  | _, .channelClosed :: _, _, out => (some (.ok ()), out)
  | n, .readable :: events, stream, out =>
    match readFrame codec stream with
    | (.ok _, rest) => pushUpdates n events rest out
    | (.error _, _) => (some (.ok ()), out)

/-- The loop of `handle_connection`; the write of a `bad frame` is not looked at. -/
def converse (events : List Wakeup) : Nat → Nat → Chunks UInt8 → List UInt8 →
    Option (Except FrameError Unit) × List UInt8
  | 0, _, _, out => (none, out)
  | rounds + 1, n, stream, out =>
    match readFrame codec stream with
    | (.error .closed, _) => (some (.ok ()), out)
    | (.error e, _) =>
      (some (.error e), (writeFrame answers (.error ("bad frame: " ++ e.display)) out).2)
    | (.ok .getStatus, rest) =>
      match writeFrame answers (.status (status n)) out with
      | (.ok (), out) => converse events rounds (n + 1) rest out
      | (.error e, out) => (some (.error e), out)
    | (.ok (.reportSessionState _ _), rest) =>
      match writeFrame answers .ack out with
      | (.ok (), out) => converse events rounds n rest out
      | (.error e, out) => (some (.error e), out)
    | (.ok .subscribe, rest) =>
      match writeFrame answers (.statusUpdate (status n)) out with
      | (.ok (), out) => pushUpdates codec answers status (n + 1) events rest out
      | (.error e, out) => (some (.error e), out)

/-! ## What the client is told -/

/-- One update for each wake before the subscription ends. -/
def updates : Nat → List Wakeup → List Response
  | n, .woken _ :: events => .statusUpdate (status n) :: updates (n + 1) events
  | _, _ => []

/-- How many wakes a subscription receives before it ends. -/
def wakes : List Wakeup → Nat
  | .woken _ :: events => wakes events + 1
  | _ => 0

/-- The answers to requests that are read one after the other. -/
def responses (events : List Wakeup) : Nat → List (Except FrameError Request) → List Response
  | _, [] => []
  | _, .error .closed :: _ => []
  | _, .error e :: _ => [.error ("bad frame: " ++ e.display)]
  | n, .ok .getStatus :: reads => .status (status n) :: responses events (n + 1) reads
  | n, .ok (.reportSessionState _ _) :: reads => .ack :: responses events n reads
  | n, .ok .subscribe :: _ => .statusUpdate (status n) :: updates status (n + 1) events

/-- The response can be written as a frame. -/
def fits (response : Response) : Bool := (writeFrame answers response []).1.isOk

/-- A client that sent these requests, up to the first `cut` bytes of them. -/
def reads (requests : List Request) (cut : Nat) : List (Except FrameError Request) :=
  (arrived codec requests cut).map .ok ++ [.error (endOf codec (cutFrames codec requests cut).2)]

end

/-! ## One write -/

section

variable {answers : Codec Response}

theorem writeFrame_of_fits {response : Response} (h : fits answers response = true)
    (out : List UInt8) :
    writeFrame answers response out = (.ok (), (writeFrame answers response out).2) := by
  rcases writeFrame_cases answers response out with ⟨payload, -, -, hw⟩ | ⟨e, hw⟩
  · rw [hw]
  · rcases writeFrame_cases answers response [] with ⟨payload, hvec, hsmall, -⟩ | ⟨e', hw'⟩
    · have hnot : ¬ payload.length > maxFrameBytes := by omega
      simp only [writeFrame, hvec, if_neg hnot] at hw
      cases (Prod.mk.inj hw).1
    · rw [fits, hw'] at h
      cases h

theorem writeFrame_of_not_fits {response : Response} (h : fits answers response = false)
    (out : List UInt8) : ∃ e, writeFrame answers response out = (.error e, out) := by
  rcases writeFrame_cases answers response out with ⟨payload, hvec, hsmall, -⟩ | hw
  · have hnot : ¬ payload.length > maxFrameBytes := by omega
    simp only [fits, writeFrame, hvec, if_neg hnot] at h
    cases h
  · exact hw

/-- The bytes of the answers that go out: those before the first that does not fit. -/
def delivered (answers : Codec Response) (rs : List Response) (out : List UInt8) : List UInt8 :=
  (writeFrames answers (rs.takeWhile (fits answers)) out).2

theorem delivered_nil (out : List UInt8) : delivered answers [] out = out := rfl

theorem delivered_fits {response : Response} (h : fits answers response = true)
    (rs : List Response) (out : List UInt8) :
    delivered answers (response :: rs) out =
      delivered answers rs (writeFrame answers response out).2 := by
  rw [delivered, List.takeWhile_cons_of_pos h]
  rfl

theorem delivered_stops {response : Response} (h : fits answers response = false)
    (rs : List Response) (out : List UInt8) : delivered answers (response :: rs) out = out := by
  rw [delivered, List.takeWhile_cons_of_neg (by simp [h])]
  rfl

end

/-! ## The loops -/

section

variable {codec : Codec Request} {answers : Codec Response} {status : Nat → UserStatus}

/-- A client that sends nothing more gets its updates. -/
theorem pushUpdates_silent (n : Nat) (events : List Wakeup) (out : List UInt8) :
    (pushUpdates codec answers status n events [] out).2 =
      delivered answers (updates status n events) out := by
  induction events generalizing n out with
  | nil => rfl
  | cons event events ih =>
    cases event with
    | woken dropped =>
      have hread : (Chunks.readExact dropped ([] : Chunks UInt8)).2 = [] := by
        cases dropped <;> rfl
      rw [pushUpdates, updates]
      cases hfits : fits answers (.statusUpdate (status n)) with
      | true =>
        rw [writeFrame_of_fits hfits, delivered_fits hfits, hread]
        exact ih (n + 1) _
      | false =>
        obtain ⟨e, hw⟩ := writeFrame_of_not_fits hfits out
        rw [hw, delivered_stops hfits]
    | channelClosed => rfl
    | readable => rfl

theorem updates_eq (n : Nat) (events : List Wakeup) :
    updates status n events =
      (List.range' n (wakes events)).map fun k => .statusUpdate (status k) := by
  induction events generalizing n with
  | nil => rfl
  | cons event events ih =>
    cases event with
    | woken dropped => rw [updates, wakes, List.range'_succ, List.map_cons, ih]
    | channelClosed => rfl
    | readable => rfl

theorem delivered_one (response : Response) (out : List UInt8) :
    delivered answers [response] out = (writeFrame answers response out).2 := by
  cases hfits : fits answers response with
  | true => rw [delivered_fits hfits, delivered_nil]
  | false =>
    obtain ⟨e, hw⟩ := writeFrame_of_not_fits hfits out
    rw [hw, delivered_stops hfits]

/-- An answer goes out and the loop goes on, or the connection ends. -/
theorem answer_next {response : Response} {rs : List Response} {out : List UInt8}
    {next : List UInt8 → Option (Except FrameError Unit) × List UInt8}
    (hnext : ∀ out, (next out).2 = delivered answers rs out) :
    (match writeFrame answers response out with
      | (.ok (), out) => next out
      | (.error e, out) => (some (.error e), out)).2 = delivered answers (response :: rs) out := by
  cases hfits : fits answers response with
  | true =>
    rw [writeFrame_of_fits hfits, delivered_fits hfits]
    exact hnext _
  | false =>
    obtain ⟨e, hw⟩ := writeFrame_of_not_fits hfits out
    rw [hw, delivered_stops hfits]

theorem converse_end {events : List Wakeup} {stream rest : Chunks UInt8} {e : FrameError}
    (h : readFrame codec stream = (.error e, rest)) (rounds n : Nat) (out : List UInt8) :
    (converse codec answers status events (rounds + 1) n stream out).2 =
      delivered answers (responses status events n [.error e]) out := by
  rw [converse, h]
  cases e with
  | closed => rfl
  | _ => exact (delivered_one _ out).symm

variable {frames : List (Request × List UInt8)}

/-- The induction is on the frames of the client: each whole one is answered, and the
read behind them tells how the stream ends. -/
theorem converse_frames (hframes : ∀ s ∈ frames, IsFrame codec s)
    (hlast : (frames.map Prod.fst).Pairwise fun r _ => r ≠ .subscribe) {cut rounds : Nat}
    {stream : Chunks UInt8} (h : stream.bytes = (frames.map Prod.snd).flatten.take cut)
    (hrounds : frames.length < rounds) (status : Nat → UserStatus) (events : List Wakeup)
    (n : Nat) (out : List UInt8) :
    (converse codec answers status events rounds n stream out).2 =
      delivered answers (responses status events n
        (((frames.take (cutAt (frames.map Prod.snd) cut).1).map Prod.fst).map .ok ++
          [.error (endOf codec (cutAt (frames.map Prod.snd) cut).2)])) out := by
  induction frames generalizing cut rounds stream n out with
  | nil =>
    obtain ⟨rounds, rfl⟩ := Nat.exists_eq_succ_of_ne_zero (Nat.ne_of_gt hrounds)
    exact converse_end (readFrame_nothing codec h) rounds n out
  | cons s frames ih =>
    obtain ⟨rounds, rfl⟩ := Nat.exists_eq_succ_of_ne_zero (Nat.ne_zero_of_lt hrounds)
    rw [List.length_cons] at hrounds
    rw [List.map_cons] at hlast ⊢
    obtain ⟨hfirst, htail⟩ := List.pairwise_cons.mp hlast
    rcases readFrame_first (hframes s List.mem_cons_self) h with
      ⟨hwhole, rest, hread, hrest⟩ | ⟨hlt, hread⟩
    · have hih := fun n out => ih (fun t ht => hframes t (List.mem_cons_of_mem s ht)) htail hrest
        (Nat.lt_of_succ_lt_succ hrounds) n out
      rw [cutAt_whole hwhole, List.take_succ_cons, List.map_cons, List.map_cons, List.cons_append,
        converse, hread]
      cases hs : s.1 with
      | getStatus => exact answer_next (hih (n + 1))
      | reportSessionState locked idleSeconds => exact answer_next (hih n)
      | subscribe =>
        -- nothing is behind it, so the rest of the stream is empty
        have hnone : frames = [] := by
          cases frames with
          | nil => rfl
          | cons t frames => exact absurd hs (hfirst t.1 List.mem_cons_self)
        rw [hnone] at hrest
        rw [Chunks.eq_nil_of_bytes (hrest.trans List.take_nil)]
        exact answer_next (pushUpdates_silent (n + 1) events)
    · rw [cutAt_inside hlt]
      exact converse_end hread rounds n out

theorem sent_sublist (codec : Codec Request) (requests : List Request) :
    ((sent codec requests).map Prod.fst).Sublist requests := by
  induction requests with
  | nil => exact List.Sublist.slnil
  | cons request requests ih =>
    rw [sent_cons, List.map_append]
    rcases sent_one codec request [] with ⟨payload, hsent, -⟩ | ⟨hnone, -⟩
    · rw [hsent]
      exact ih.cons_cons request
    · rw [hnone]
      exact ih.cons request

theorem converse_written (answers : Codec Response) {requests : List Request}
    (hlast : requests.Pairwise fun r _ => r ≠ .subscribe) {cut rounds : Nat}
    {stream : Chunks UInt8} (h : stream.bytes = written codec requests cut)
    (hrounds : requests.length < rounds) (status : Nat → UserStatus) (events : List Wakeup)
    (n : Nat) (out : List UInt8) :
    (converse codec answers status events rounds n stream out).2 =
      delivered answers (responses status events n (reads codec requests cut)) out := by
  have hsub := sent_sublist codec requests
  have hlength : (sent codec requests).length < rounds := by
    have hle := hsub.length_le
    rw [List.length_map] at hle
    omega
  exact converse_frames (isFrame_of_sent codec requests) (hlast.sublist hsub)
    (h.trans (written_eq codec requests cut)) hlength status events n out

/-- A request that was sent whole. -/
theorem reads_one {request : Request} (h : (writeFrame codec request []).1 = .ok ()) :
    reads codec [request] (writeFrame codec request []).2.length =
        [.ok request, .error .closed] ∧
      written codec [request] (writeFrame codec request []).2.length =
        (writeFrame codec request []).2 := by
  refine ⟨?_, List.take_of_length_le (Nat.le_refl _)⟩
  rcases sent_one codec request [] with ⟨payload, hsent, -, -, hw⟩ | ⟨-, e, hw⟩
  · rw [hw, List.nil_append, reads, arrived, cutFrames, hsent, List.map_singleton,
      cutAt_whole (Nat.le_refl _)]
    rfl
  · rw [hw] at h
    cases h

theorem accepted_of_fits {rs : List Response} (h : ∀ r ∈ rs, fits answers r = true)
    (out : List UInt8) : accepted rs (writeFrames answers rs out).1 = rs := by
  induction rs generalizing out with
  | nil => rfl
  | cons r rs ih =>
    rw [writeFrames, writeFrame_of_fits (h r List.mem_cons_self) out]
    dsimp only
    rw [accepted_cons, ih fun t ht => h t (List.mem_cons_of_mem r ht)]
    rfl

/-- What was delivered is read back. -/
theorem readFrames_delivered (rs : List Response) {reply : Chunks UInt8}
    (h : reply.bytes = delivered answers rs []) :
    readFrames answers ((rs.takeWhile (fits answers)).length + 1) reply =
      ((rs.takeWhile (fits answers)).map .ok ++ [.error .closed], []) := by
  have hread := readFrames_written answers (rs.takeWhile (fits answers)) [] h
  have hall : ∀ r ∈ rs.takeWhile (fits answers), fits answers r = true :=
    fun _ hr => List.mem_takeWhile_imp hr
  rwa [accepted_of_fits hall] at hread

end

/-- A client sends some requests, with `Subscribe` at most at the end, and breaks off at
any byte.  It reads the answers to the requests that arrived whole, each once and in
their order, and its updates; where it broke off inside a payload it reads an error
behind them, and then the end.  An answer that does not fit ends the connection. -/
theorem conversation_read (codec : Codec Request) (answers : Codec Response)
    (status : Nat → UserStatus) (requests : List Request) (cut rounds : Nat)
    (events : List Wakeup) (stream reply : Chunks UInt8)
    (hlast : requests.Pairwise fun r _ => r ≠ .subscribe)
    (hstream : stream.bytes = written codec requests cut)
    (hrounds : requests.length < rounds)
    (hreply : reply.bytes = (converse codec answers status events rounds 0 stream []).2) :
    readFrames answers (((responses status events 0 (reads codec requests cut)).takeWhile
        (fits answers)).length + 1) reply =
      (((responses status events 0 (reads codec requests cut)).takeWhile (fits answers)).map .ok ++
        [.error .closed], []) := by
  refine readFrames_delivered _ (hreply.trans ?_)
  exact converse_written answers hlast hstream hrounds status events 0 []

def sampleStatus : UserStatus where
  uid := 501
  username := "alice"
  state := .active
  dailyLimitSeconds := 3600
  usedSeconds := 600
  remainingSeconds := 3000
  resetsAt := 0
  warnThresholdsMinutes := [15, 5, 1]

/-- `serde_json` on one response. -/
def oneCodec (response : Response) (text : List UInt8) : Codec Response where
  toVec r := if r = response then .ok text else .error "not the sample response"
  fromSlice bytes := if bytes = text then .ok response else .error "expected value"
  unexpectedEof := "early eof"
  decodes r payload h := by
    split at h
    · rename_i heq
      cases h
      rw [if_pos rfl, heq]
    · cases h

/-- Two requests in one write, the second broken off in its payload. -/
theorem conversation_read_two :
    ∃ reply, readFrames (oneCodec (.status sampleStatus) [1]) 2 reply =
      ([.ok (.status sampleStatus), .error .closed], []) := by
  have hreads : reads sampleCodec [.getStatus, .getStatus] 40 =
      [.ok .getStatus, .error (.io "early eof")] := by
    decide +kernel
  have h := conversation_read sampleCodec (oneCodec (.status sampleStatus) [1])
    (fun _ => sampleStatus) [.getStatus, .getStatus] 40 3 []
    (Chunks.ofBytes (written sampleCodec [.getStatus, .getStatus] 40)) (Chunks.ofBytes _)
    (by decide) (Chunks.bytes_ofBytes _) (by decide) (Chunks.bytes_ofBytes _)
  rw [hreads] at h
  exact ⟨_, h⟩

end Daemon
end Konstantin
