import Konstantin.Proto.Frame

/-!
# Streams of frames that break off

What the reads of a stream give when it ends before the last frame does.  An end
in a payload is an error of its own.  An end in the four bytes of the length is told
like the end between two frames.
-/

namespace Konstantin
namespace Proto

open Streams

section

variable {α : Type}

/-- The values that `write_frame` accepts, with the frames it writes for them. -/
def sent (codec : Codec α) (values : List α) : List (α × List UInt8) :=
  values.filterMap fun value =>
    match codec.toVec value with
    | .ok payload => if payload.length > maxFrameBytes then none else some (value, frame payload)
    | .error _ => none

/-- The first `cut` bytes of what the writes leave. -/
def written (codec : Codec α) (values : List α) (cut : Nat) : List UInt8 :=
  (writeFrames codec values []).2.take cut

/-- The frames wholly in these bytes, and the bytes of the next one. -/
def cutFrames (codec : Codec α) (values : List α) (cut : Nat) : Nat × Nat :=
  cutAt ((sent codec values).map Prod.snd) cut

/-- The reads give the values of the whole frames, and then say by `closed` exactly
if the stream ends between two frames. -/
def ToldApart (codec : Codec α) (values : List α) (cut : Nat) : Prop :=
  ∀ stream : Chunks UInt8, stream.bytes = written codec values cut →
    ∃ e rest, readFrames codec ((cutFrames codec values cut).1 + 1) stream =
        ((((sent codec values).take (cutFrames codec values cut).1).map fun s => .ok s.1) ++
          [.error e], rest) ∧
      ((cutFrames codec values cut).2 = 0 → e = .closed) ∧
      ((cutFrames codec values cut).2 ≠ 0 → e ≠ .closed)

/-- The stream ends behind one, two or three bytes of a length. -/
def CutInHeader (codec : Codec α) (values : List α) (cut : Nat) : Prop :=
  0 < (cutFrames codec values cut).2 ∧ (cutFrames codec values cut).2 < 4

/-! ## The frames that are written -/

/-- A frame as `sent` lists it: what it reads back as, and that it fits. -/
def IsFrame (codec : Codec α) (s : α × List UInt8) : Prop :=
  ∃ payload, s.2 = frame payload ∧ payload.length ≤ maxFrameBytes ∧
    codec.fromSlice payload = .ok s.1

theorem sent_cons (codec : Codec α) (value : α) (values : List α) :
    sent codec (value :: values) = sent codec [value] ++ sent codec values :=
  List.filterMap_append (l := [value])

theorem sent_one (codec : Codec α) (value : α) (out : List UInt8) :
    (∃ payload, sent codec [value] = [(value, frame payload)] ∧
        codec.toVec value = .ok payload ∧ payload.length ≤ maxFrameBytes ∧
        writeFrame codec value out = (.ok (), out ++ frame payload)) ∨
      sent codec [value] = [] ∧ ∃ e, writeFrame codec value out = (.error e, out) := by
  unfold sent writeFrame
  cases hvec : codec.toVec value with
  | error e =>
    right
    refine ⟨?_, .json e, rfl⟩
    simp [hvec]
  | ok payload =>
    by_cases hlarge : payload.length > maxFrameBytes
    · right
      refine ⟨?_, .frameTooLarge payload.length maxFrameBytes, if_pos hlarge⟩
      simp [hvec, hlarge]
    · left
      refine ⟨payload, ?_, rfl, by omega, ?_⟩
      · simp [hvec, hlarge]
      · rw [frame, ← List.append_assoc]
        exact if_neg hlarge

theorem isFrame_of_sent (codec : Codec α) (values : List α) :
    ∀ s ∈ sent codec values, IsFrame codec s := by
  induction values with
  | nil => exact fun s hs => absurd hs List.not_mem_nil
  | cons value values ih =>
    intro s hs
    rw [sent_cons] at hs
    rcases List.mem_append.mp hs with hone | hrest
    · rcases sent_one codec value [] with ⟨payload, hsent, hvec, hfits, -⟩ | ⟨hnone, -⟩
      · rw [hsent] at hone
        rw [List.mem_singleton.mp hone]
        exact ⟨payload, rfl, hfits, codec.decodes value payload hvec⟩
      · rw [hnone] at hone
        exact absurd hone List.not_mem_nil
    · exact ih s hrest

/-- The writes leave the frames, one behind the other. -/
theorem writeFrames_sent (codec : Codec α) (values : List α) (out : List UInt8) :
    (writeFrames codec values out).2 = out ++ ((sent codec values).map Prod.snd).flatten := by
  induction values generalizing out with
  | nil => exact (List.append_nil out).symm
  | cons value values ih =>
    rw [sent_cons, List.map_append, List.flatten_append, writeFrames]
    rcases sent_one codec value out with ⟨payload, hsent, -, -, hw⟩ | ⟨hnone, e, hw⟩
    · rw [hsent]
      dsimp only
      rw [hw, ih, List.append_assoc]
      simp
    · rw [hnone]
      dsimp only
      rw [hw, ih]
      rfl

theorem written_eq (codec : Codec α) (values : List α) (cut : Nat) :
    written codec values cut = ((sent codec values).map Prod.snd).flatten.take cut := by
  rw [written, writeFrames_sent, List.nil_append]

/-! ## The reads -/

/-- What a read says of a stream that ends behind `n` bytes of a frame. -/
def endOf (codec : Codec α) (n : Nat) : FrameError :=
  if n < 4 then .closed else .io codec.unexpectedEof

theorem readFrame_part (codec : Codec α) {payload : List UInt8} {stream : Chunks UInt8} {n : Nat}
    (hfits : payload.length ≤ maxFrameBytes) (hn : n < (frame payload).length)
    (h : stream.bytes = (frame payload).take n) :
    readFrame codec stream = (.error (endOf codec n), []) := by
  have hlength : stream.bytes.length = n := by
    rw [h, List.length_take]
    omega
  unfold endOf
  by_cases hfour : n < 4
  · rw [readFrame, Chunks.readExact_short (by omega), if_pos hfour]
  · have hframe : (frame payload).length = 4 + payload.length := by
      rw [frame, List.length_append, length_toBeBytes]
    have hbytes : stream.bytes =
        toBeBytes (UInt32.ofNat payload.length) ++ payload.take (n - 4) := by
      rw [h, frame, List.take_append, length_toBeBytes, List.take_of_length_le]
      rw [length_toBeBytes]
      omega
    obtain ⟨middle, hheader, hmiddle⟩ := Chunks.readExact_append hbytes
    rw [length_toBeBytes] at hheader
    have hshort : middle.bytes.length < payload.length := by
      rw [hmiddle, List.length_take]
      omega
    rw [readFrame, hheader]
    dsimp only
    rw [fromBeBytes_toBeBytes, toNat_length hfits, if_neg (by omega),
      Chunks.readExact_short hshort, if_neg hfour]

/-- The first read: the first frame when it is whole, and the end otherwise. -/
theorem readFrame_first {codec : Codec α} {s : α × List UInt8} (hs : IsFrame codec s) {cut : Nat}
    {tail : List UInt8} {stream : Chunks UInt8} (h : stream.bytes = (s.2 ++ tail).take cut) :
    (s.2.length ≤ cut ∧ ∃ rest, readFrame codec stream = (.ok s.1, rest) ∧
        rest.bytes = tail.take (cut - s.2.length)) ∨
      cut < s.2.length ∧ readFrame codec stream = (.error (endOf codec cut), []) := by
  obtain ⟨payload, hpayload, hfits, hvalue⟩ := hs
  rw [hpayload] at h ⊢
  by_cases hwhole : (frame payload).length ≤ cut
  · left
    rw [List.take_append, List.take_of_length_le hwhole] at h
    obtain ⟨rest, hread, hrest⟩ := readFrame_frame codec hfits h
    rw [hvalue] at hread
    exact ⟨hwhole, rest, hread, hrest⟩
  · right
    have hlt : cut < (frame payload).length := Nat.not_le.mp hwhole
    rw [List.take_append_of_le_length (Nat.le_of_lt hlt)] at h
    exact ⟨hlt, readFrame_part codec hfits hlt h⟩

theorem readFrame_nothing (codec : Codec α) {stream : Chunks UInt8} {cut : Nat}
    (h : stream.bytes = ([] : List UInt8).take cut) :
    readFrame codec stream = (.error .closed, []) := by
  rw [Chunks.eq_nil_of_bytes (h.trans List.take_nil)]
  rfl

/-- The reads of frames that break off. -/
theorem readFrames_cut (codec : Codec α) {frames : List (α × List UInt8)}
    (hframes : ∀ s ∈ frames, IsFrame codec s) {cut : Nat} {stream : Chunks UInt8}
    (h : stream.bytes = (frames.map Prod.snd).flatten.take cut) :
    readFrames codec ((cutAt (frames.map Prod.snd) cut).1 + 1) stream =
      (((frames.take (cutAt (frames.map Prod.snd) cut).1).map fun s => .ok s.1) ++
        [.error (endOf codec (cutAt (frames.map Prod.snd) cut).2)], []) := by
  induction frames generalizing cut stream with
  | nil =>
    show readFrames codec 1 stream = _
    rw [readFrames, readFrame_nothing codec h]
    rfl
  | cons s frames ih =>
    rw [List.map_cons]
    rcases readFrame_first (hframes s List.mem_cons_self) h with
      ⟨hwhole, rest, hread, hrest⟩ | ⟨hlt, hread⟩
    · have hih := ih (fun t ht => hframes t (List.mem_cons_of_mem s ht)) hrest
      rw [cutAt_whole hwhole, readFrames]
      dsimp only
      rw [hread, hih]
      rfl
    · rw [cutAt_inside hlt, readFrames]
      dsimp only
      rw [hread]
      rfl

theorem readFrames_written_cut (codec : Codec α) (values : List α) (cut : Nat)
    {stream : Chunks UInt8} (h : stream.bytes = written codec values cut) :
    readFrames codec ((cutFrames codec values cut).1 + 1) stream =
      ((((sent codec values).take (cutFrames codec values cut).1).map fun s => .ok s.1) ++
        [.error (endOf codec (cutFrames codec values cut).2)], []) :=
  readFrames_cut codec (isFrame_of_sent codec values) (h.trans (written_eq codec values cut))

/-! ## Where the end is told -/

theorem endOf_closed {codec : Codec α} {n : Nat} : endOf codec n = .closed ↔ n < 4 := by
  unfold endOf
  by_cases h : n < 4
  · rw [if_pos h]
    exact ⟨fun _ => h, fun _ => rfl⟩
  · rw [if_neg h]
    exact ⟨fun heq => FrameError.noConfusion heq, fun hlt => absurd hlt h⟩

/-- The last of the results is what the end of the stream is told as. -/
theorem toldApart_iff (codec : Codec α) (values : List α) (cut : Nat) :
    ToldApart codec values cut ↔ ¬ CutInHeader codec values cut := by
  constructor
  · rintro h ⟨hpos, hlt⟩
    have hbytes := Chunks.bytes_ofBytes (written codec values cut)
    obtain ⟨e, rest, hread, -, hinside⟩ := h _ hbytes
    rw [readFrames_written_cut codec values cut hbytes] at hread
    have hlast := List.append_cancel_left (Prod.mk.inj hread).1
    obtain rfl := Except.error.inj (List.cons.inj hlast).1
    exact hinside (by omega) (endOf_closed.mpr hlt)
  · intro h stream hbytes
    refine ⟨_, [], readFrames_written_cut codec values cut hbytes, fun hzero => ?_, fun hne => ?_⟩
    · rw [endOf_closed]
      omega
    · rw [ne_eq, endOf_closed]
      exact fun hlt => h ⟨by omega, hlt⟩

end

end Proto
end Konstantin
