import Konstantin.Streams.Chunks
import Mathlib.Algebra.Group.Nat.Defs

/-!
# Frames on the socket

`read_frame` and `write_frame` of `crates/proto/src/lib.rs`: four bytes of length,
most significant first, and then a JSON text of that many bytes.
-/

namespace Konstantin
namespace Proto

open Streams

def maxFrameBytes : Nat := 2 ^ 20

/-- The crates under a frame: `serde_json` at one type, which reads back what it wrote,
and the text with which tokio reports a stream that ends inside a payload. -/
structure Codec (α : Type) where
  toVec : α → Except String (List UInt8)
  fromSlice : List UInt8 → Except String α
  unexpectedEof : String
  decodes : ∀ value payload, toVec value = .ok payload → fromSlice payload = .ok value

inductive FrameError where
  | io (message : String)
  | json (message : String)
  | frameTooLarge (size max : Nat)
  | closed
  deriving DecidableEq

def FrameError.display : FrameError → String
  | .io message => "io error: " ++ message
  | .json message => "json error: " ++ message
  | .frameTooLarge size max =>
    "frame too large (" ++ toString size ++ " bytes, max " ++ toString max ++ ")"
  | .closed => "connection closed by peer"

def toBeBytes (n : UInt32) : List UInt8 :=
  [UInt8.ofNat (n.toNat / 2 ^ 24), UInt8.ofNat (n.toNat / 2 ^ 16), UInt8.ofNat (n.toNat / 2 ^ 8),
    UInt8.ofNat n.toNat]

def fromBeBytes (bytes : List UInt8) : UInt32 :=
  UInt32.ofNat (bytes.foldl (fun n b => n * 2 ^ 8 + b.toNat) 0)

section

variable {α : Type} (codec : Codec α)

/-- Serialize `value` onto the end of `out` as one frame. -/
def writeFrame (value : α) (out : List UInt8) : Except FrameError Unit × List UInt8 :=
  match codec.toVec value with
  | .error e => (.error (.json e), out)
  | .ok payload =>
    if payload.length > maxFrameBytes then
      (.error (.frameTooLarge payload.length maxFrameBytes), out)
    else (.ok (), out ++ toBeBytes (UInt32.ofNat payload.length) ++ payload)

def readFrame (stream : Chunks UInt8) : Except FrameError α × Chunks UInt8 :=
  match Chunks.readExact 4 stream with
  | (none, stream) => (.error .closed, stream)
  | (some lenBuf, stream) =>
    let len := (fromBeBytes lenBuf).toNat
    if len > maxFrameBytes then (.error (.frameTooLarge len maxFrameBytes), stream)
    else
      match Chunks.readExact len stream with
      | (none, stream) => (.error (.io codec.unexpectedEof), stream)
      | (some buf, stream) => ((codec.fromSlice buf).mapError .json, stream)

/-- The values in order, going on after one that was rejected. -/
def writeFrames : List α → List UInt8 → List (Except FrameError Unit) × List UInt8
  | [], out => ([], out)
  | value :: values, out =>
    let r := writeFrame codec value out
    let rest := writeFrames values r.2
    (r.1 :: rest.1, rest.2)

/-- That many reads, one after the other. -/
def readFrames : Nat → Chunks UInt8 → List (Except FrameError α) × Chunks UInt8
  | 0, stream => ([], stream)
  | n + 1, stream =>
    let r := readFrame codec stream
    let rest := readFrames n r.2
    (r.1 :: rest.1, rest.2)

/-- The values whose writes returned without an error. -/
def accepted (values : List α) (outcomes : List (Except FrameError Unit)) : List α :=
  ((values.zip outcomes).filter fun e => e.2.isOk).map Prod.fst

end

/-! ## Lengths -/

theorem fromBeBytes_toBeBytes (n : UInt32) : fromBeBytes (toBeBytes n) = n := by
  have hn := n.toNat_lt
  refine UInt32.toNat_inj.mp ?_
  simp only [fromBeBytes, toBeBytes, List.foldl_cons, List.foldl_nil, UInt8.toNat_ofNat',
    UInt32.toNat_ofNat']
  omega

theorem length_toBeBytes (n : UInt32) : (toBeBytes n).length = 4 := rfl

/-- A payload that fits has a length that fits into the prefix. -/
theorem toNat_length {payload : List UInt8} (h : payload.length ≤ maxFrameBytes) :
    (UInt32.ofNat payload.length).toNat = payload.length := by
  rw [UInt32.toNat_ofNat']
  simp only [maxFrameBytes] at h
  exact Nat.mod_eq_of_lt (by omega)

theorem toBeBytes_fromBeBytes {bytes : List UInt8} (h : bytes.length = 4) :
    toBeBytes (fromBeBytes bytes) = bytes := by
  match bytes, h with
  | [a, b, c, d], _ =>
    have ha := a.toNat_lt
    have hb := b.toNat_lt
    have hc := c.toNat_lt
    have hd := d.toNat_lt
    simp only [fromBeBytes, toBeBytes, List.foldl_cons, List.foldl_nil, UInt32.toNat_ofNat',
      List.cons.injEq, and_true, ← UInt8.toNat_inj, UInt8.toNat_ofNat']
    omega

/-! ## One frame -/

def frame (payload : List UInt8) : List UInt8 :=
  toBeBytes (UInt32.ofNat payload.length) ++ payload

theorem length_frame_pos (payload : List UInt8) : 0 < (frame payload).length := by
  rw [frame, List.length_append, length_toBeBytes]
  omega

section

variable {α : Type} {codec : Codec α}

theorem writeFrame_large {value : α} {payload : List UInt8}
    (hvec : codec.toVec value = .ok payload) (h : payload.length > maxFrameBytes)
    (out : List UInt8) :
    writeFrame codec value out = (.error (.frameTooLarge payload.length maxFrameBytes), out) := by
  simp only [writeFrame, hvec, if_pos h]

/-- A write appends one frame that fits, or reports an error and writes nothing. -/
theorem writeFrame_cases (codec : Codec α) (value : α) (out : List UInt8) :
    (∃ payload, codec.toVec value = .ok payload ∧ payload.length ≤ maxFrameBytes ∧
        writeFrame codec value out = (.ok (), out ++ frame payload)) ∨
      ∃ e, writeFrame codec value out = (.error e, out) := by
  unfold writeFrame
  cases h : codec.toVec value with
  | error e => exact Or.inr ⟨.json e, rfl⟩
  | ok payload =>
    by_cases hlarge : payload.length > maxFrameBytes
    · exact Or.inr ⟨.frameTooLarge payload.length maxFrameBytes, if_pos hlarge⟩
    · refine Or.inl ⟨payload, rfl, by omega, ?_⟩
      rw [frame, ← List.append_assoc]
      exact if_neg hlarge

/-- A frame that fits is read whole, whatever comes behind it. -/
theorem readFrame_frame (codec : Codec α) {payload tail : List UInt8} {stream : Chunks UInt8}
    (hfits : payload.length ≤ maxFrameBytes) (h : stream.bytes = frame payload ++ tail) :
    ∃ rest, readFrame codec stream = ((codec.fromSlice payload).mapError .json, rest) ∧
      rest.bytes = tail := by
  rw [frame, List.append_assoc] at h
  obtain ⟨middle, hlength, hmiddle⟩ := Chunks.readExact_append h
  obtain ⟨rest, hpayload, hrest⟩ := Chunks.readExact_append hmiddle
  have hnot : ¬ payload.length > maxFrameBytes := by omega
  rw [length_toBeBytes] at hlength
  refine ⟨rest, ?_, hrest⟩
  simp only [readFrame, hlength, fromBeBytes_toBeBytes, toNat_length hfits, if_neg hnot, hpayload]

/-- The two reads of a frame that was accepted. -/
theorem readFrame_ok {value : α} {stream rest : Chunks UInt8}
    (h : readFrame codec stream = (.ok value, rest)) :
    ∃ lenBuf middle buf, Chunks.readExact 4 stream = (some lenBuf, middle) ∧
      (fromBeBytes lenBuf).toNat ≤ maxFrameBytes ∧
      Chunks.readExact (fromBeBytes lenBuf).toNat middle = (some buf, rest) ∧
      codec.fromSlice buf = .ok value := by
  unfold readFrame at h
  split at h
  · cases h
  · rename_i lenBuf middle hlength
    simp only at h
    split at h
    · cases h
    · rename_i hsmall
      split at h
      · cases h
      · rename_i buf rest' hpayload
        obtain ⟨hvalue, rfl⟩ := Prod.mk.inj h
        refine ⟨lenBuf, middle, buf, hlength, by omega, hpayload, ?_⟩
        cases hdecode : codec.fromSlice buf with
        | error e =>
          rw [hdecode] at hvalue
          cases hvalue
        | ok v =>
          rw [hdecode] at hvalue
          exact congrArg Except.ok (Except.ok.inj hvalue)

/-- What was accepted was a frame that fits. -/
theorem frame_of_readFrame {value : α} {stream rest : Chunks UInt8}
    (h : readFrame codec stream = (.ok value, rest)) :
    ∃ payload, stream.bytes = frame payload ++ rest.bytes ∧ payload.length ≤ maxFrameBytes ∧
      codec.fromSlice payload = .ok value := by
  obtain ⟨lenBuf, middle, buf, hlength, hfits, hpayload, hvalue⟩ := readFrame_ok h
  obtain ⟨hfour, hstream⟩ := Chunks.readExact_eq_some hlength
  obtain ⟨hlen, hmiddle⟩ := Chunks.readExact_eq_some hpayload
  refine ⟨buf, ?_, by omega, hvalue⟩
  rw [frame, hlen, UInt32.ofNat_toNat, toBeBytes_fromBeBytes hfour, hstream, hmiddle,
    List.append_assoc]

/-! ## Streams of frames -/

theorem accepted_cons (value : α) (values : List α) (r : Except FrameError Unit)
    (rs : List (Except FrameError Unit)) :
    accepted (value :: values) (r :: rs) =
      if r.isOk then value :: accepted values rs else accepted values rs := by
  unfold accepted
  rw [List.zip_cons_cons, List.filter_cons]
  cases r <;> rfl

theorem writeFrames_append (codec : Codec α) (values : List α) (out : List UInt8) :
    ∃ tail, (writeFrames codec values out).2 = out ++ tail := by
  induction values generalizing out with
  | nil => exact ⟨[], (List.append_nil out).symm⟩
  | cons value values ih =>
    show ∃ tail, (writeFrames codec values (writeFrame codec value out).2).2 = out ++ tail
    rcases writeFrame_cases codec value out with ⟨payload, -, -, hw⟩ | ⟨e, hw⟩
    · obtain ⟨tail, htail⟩ := ih (out ++ frame payload)
      exact ⟨frame payload ++ tail, by rw [hw, htail, List.append_assoc]⟩
    · rw [hw]
      exact ih out

/-- The reads of what was written, from any place in the stream. -/
theorem readFrames_written (codec : Codec α) (values : List α) (written : List UInt8)
    {stream : Chunks UInt8} (h : written ++ stream.bytes = (writeFrames codec values written).2) :
    readFrames codec ((accepted values (writeFrames codec values written).1).length + 1) stream =
      ((accepted values (writeFrames codec values written).1).map .ok ++ [.error .closed], []) := by
  induction values generalizing written stream with
  | nil =>
    have hempty : stream.bytes = [] :=
      List.append_cancel_left (h.trans (List.append_nil written).symm)
    rw [Chunks.eq_nil_of_bytes hempty]
    rfl
  | cons value values ih =>
    simp only [writeFrames, accepted_cons] at h ⊢
    rcases writeFrame_cases codec value written with ⟨payload, hvec, hfits, hw⟩ | ⟨e, hw⟩
    · rw [hw] at h ⊢
      obtain ⟨tail, htail⟩ := writeFrames_append codec values (written ++ frame payload)
      have hstream : stream.bytes = frame payload ++ tail := by
        rw [htail, List.append_assoc] at h
        exact List.append_cancel_left h
      obtain ⟨rest, hread, hrest⟩ := readFrame_frame codec hfits hstream
      have hih := ih (written ++ frame payload) ((congrArg _ hrest).trans htail.symm)
      simp only [Except.isOk, Except.toBool, if_true, List.length_cons, List.map_cons,
        List.cons_append]
      rw [readFrames]
      simp only [hread, hih, codec.decodes value payload hvec]
      rfl
    · rw [hw] at h ⊢
      exact ih written h

/-- Values are written and read back, in order and to the last byte, and the two
sides agree on what is too large. -/
theorem frames_roundTrip (codec : Codec α) :
    (∀ (values : List α) (stream : Chunks UInt8),
      stream.bytes = (writeFrames codec values []).2 →
        readFrames codec ((accepted values (writeFrames codec values []).1).length + 1) stream =
          ((accepted values (writeFrames codec values []).1).map .ok ++ [.error .closed], [])) ∧
      (∀ value out e, (writeFrame codec value out).1 = .error e →
        (writeFrame codec value out).2 = out) ∧
      (∀ value out written, writeFrame codec value out = (.ok (), out ++ written) →
        ∀ (stream : Chunks UInt8) (tail : List UInt8), stream.bytes = written ++ tail →
          ∀ size max, (readFrame codec stream).1 ≠ .error (.frameTooLarge size max)) ∧
      ∀ stream value rest, readFrame codec stream = (.ok value, rest) →
        ∃ payload, stream.bytes = frame payload ++ rest.bytes ∧
          codec.fromSlice payload = .ok value ∧
          ∀ other bytes out, codec.toVec other = .ok bytes → bytes.length = payload.length →
            (writeFrame codec other out).1 = .ok () := by
  refine ⟨fun values stream h => readFrames_written codec values [] h,
    fun value out e h => ?_, fun value out written h stream tail hstream size max => ?_,
    fun stream value rest h => ?_⟩
  · rcases writeFrame_cases codec value out with ⟨payload, -, -, hw⟩ | ⟨e', hw⟩
    · rw [hw] at h
      cases h
    · rw [hw]
  · rcases writeFrame_cases codec value out with ⟨payload, hvec, hfits, hw⟩ | ⟨e, hw⟩
    · rw [hw] at h
      have hwritten : frame payload = written := List.append_cancel_left (Prod.mk.inj h).2
      subst hwritten
      obtain ⟨rest, hread, -⟩ := readFrame_frame codec hfits hstream
      rw [hread, codec.decodes value payload hvec]
      exact fun hlarge => nomatch hlarge
    · rw [hw] at h
      cases (Prod.mk.inj h).1
  · obtain ⟨payload, hbytes, hfits, hvalue⟩ := frame_of_readFrame h
    refine ⟨payload, hbytes, hvalue, fun other bytes out hother hlength => ?_⟩
    have hnot : ¬ bytes.length > maxFrameBytes := by omega
    simp only [writeFrame, hother, if_neg hnot]

/-- Texts that are their own serialization. -/
def plainCodec : Codec (List UInt8) where
  toVec := .ok
  fromSlice := .ok
  unexpectedEof := "early eof"
  decodes := fun _ _ h => congrArg Except.ok (Except.ok.inj h).symm

/-- A text, one that is a byte too long, and the empty text, read byte by byte. -/
theorem frames_roundTrip_bytes :
    readFrames plainCodec 3 (Chunks.ofBytes ([0, 0, 0, 2, 7, 9] ++ [0, 0, 0, 0])) =
        ([.ok [7, 9], .ok [], .error .closed], []) ∧
      (writeFrame plainCodec (List.replicate (2 ^ 20 + 1) 5) [1]).2 = [1] ∧
      (readFrame plainCodec (Chunks.ofBytes ([0, 0, 0, 1, 7] ++ [3]))).1 ≠
        .error (.frameTooLarge 1 maxFrameBytes) ∧
      ∃ payload, (Chunks.ofBytes ([0, 0, 0, 1, 7] : List UInt8)).bytes = frame payload ++ [] ∧
        plainCodec.fromSlice payload = .ok [7] ∧
          ∀ other bytes out, plainCodec.toVec other = .ok bytes → bytes.length = payload.length →
            (writeFrame plainCodec other out).1 = .ok () := by
  have hlarge : (List.replicate (2 ^ 20 + 1) (5 : UInt8)).length > maxFrameBytes := by
    rw [List.length_replicate]
    decide
  have hrejected : ∀ out, writeFrame plainCodec (List.replicate (2 ^ 20 + 1) 5) out =
      (.error (.frameTooLarge (List.replicate (2 ^ 20 + 1) (5 : UInt8)).length maxFrameBytes),
        out) := fun out => writeFrame_large rfl hlarge out
  have hwritten : writeFrames plainCodec [[7, 9], List.replicate (2 ^ 20 + 1) 5, []] [] =
      ([.ok (), .error (.frameTooLarge (List.replicate (2 ^ 20 + 1) (5 : UInt8)).length
        maxFrameBytes), .ok ()], [0, 0, 0, 2, 7, 9] ++ [0, 0, 0, 0]) := by
    simp only [writeFrames, hrejected]
    rfl
  obtain ⟨hread, hnothing, hsmall, hlength⟩ := frames_roundTrip plainCodec
  refine ⟨?_, ?_, ?_, hlength (Chunks.ofBytes [0, 0, 0, 1, 7]) [7] [] rfl⟩
  · have h := hread [[7, 9], List.replicate (2 ^ 20 + 1) 5, []]
      (Chunks.ofBytes ([0, 0, 0, 2, 7, 9] ++ [0, 0, 0, 0]))
      (by rw [hwritten, Chunks.bytes_ofBytes])
    rw [hwritten] at h
    exact h
  · rw [hnothing _ [1] (.frameTooLarge (List.replicate (2 ^ 20 + 1) (5 : UInt8)).length
      maxFrameBytes) (by rw [hrejected])]
  · exact hsmall [7] [] [0, 0, 0, 1, 7] rfl _ [3] (Chunks.bytes_ofBytes _) 1 maxFrameBytes

end

end Proto
end Konstantin
