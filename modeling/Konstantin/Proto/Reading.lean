import Konstantin.Proto.Frame

/-!
# A read of a frame that waits

`read_frame` as a task: it first waits for the four bytes of the length and then
for the payload, and keeps the bytes it has read in the meantime.  Dropping the
task loses them.  A task that is not dropped reads what `readFrame` reads,
however the bytes arrive (`poll_frame`, `poll_waits`).
-/

namespace Konstantin
namespace Proto

open Streams

inductive PendingRead where
  | length (got : List UInt8)
  | payload (len : Nat) (got : List UInt8)
  deriving DecidableEq

inductive Poll (α : Type) where
  | pending (r : PendingRead)
  | ready (result : Except FrameError α)

namespace PendingRead

def start : PendingRead := .length []

/-- The bytes that were taken from the socket. -/
def bytes : PendingRead → List UInt8
  | .length got => got
  | .payload len got => toBeBytes (UInt32.ofNat len) ++ got

/-- The second stage.  `closed` tells that no more bytes will come. -/
def pollPayload {α : Type} (codec : Codec α) (closed : Bool) (len : Nat)
    (got avail : List UInt8) : Poll α × List UInt8 :=
  match fill len got avail with
  | (some buf, rest) => (.ready ((codec.fromSlice buf).mapError .json), rest)
  | (none, rest) =>
    if closed then (.ready (.error (.io codec.unexpectedEof)), rest)
    else (.pending (.payload len (got ++ avail)), rest)

/-- One poll with the bytes at hand, and the bytes it leaves. -/
def poll {α : Type} (codec : Codec α) (closed : Bool) :
    PendingRead → List UInt8 → Poll α × List UInt8
  | .length got, avail =>
    match fill 4 got avail with
    | (some lenBuf, rest) =>
      let len := (fromBeBytes lenBuf).toNat
      if len > maxFrameBytes then (.ready (.error (.frameTooLarge len maxFrameBytes)), rest)
      else pollPayload codec closed len [] rest
    | (none, rest) =>
      if closed then (.ready (.error .closed), rest) else (.pending (.length (got ++ avail)), rest)
  | .payload len got, avail => pollPayload codec closed len got avail

/-- The task waits for at least one byte of a frame that it would accept. -/
def Waiting : PendingRead → Prop
  | .length got => got.length < 4
  | .payload len got => len ≤ maxFrameBytes ∧ got.length < len

theorem waiting_start : start.Waiting := Nat.zero_lt_succ 3

section

variable {α : Type} {codec : Codec α} {closed : Bool}

theorem pollPayload_enough {payload tail got avail : List UInt8}
    (hgot : got.length ≤ payload.length)
    (h : got ++ avail = payload ++ tail) :
    pollPayload codec closed payload.length got avail =
      (.ready ((codec.fromSlice payload).mapError .json), tail) := by
  rw [pollPayload, fill_enough hgot rfl h]

theorem pollPayload_short {len : Nat} {got avail : List UInt8}
    (h : got.length + avail.length < len) :
    pollPayload codec false len got avail = (.pending (.payload len (got ++ avail)), []) := by
  rw [pollPayload, fill_short h]
  rfl

theorem poll_length {lenBuf rest got avail : List UInt8} (hgot : got.length ≤ 4)
    (hlen : lenBuf.length = 4) (hfits : (fromBeBytes lenBuf).toNat ≤ maxFrameBytes)
    (h : got ++ avail = lenBuf ++ rest) :
    (PendingRead.length got).poll codec closed avail =
      pollPayload codec closed (fromBeBytes lenBuf).toNat [] rest := by
  have hnot : ¬ (fromBeBytes lenBuf).toNat > maxFrameBytes := by omega
  simp only [poll, fill_enough hgot hlen h, if_neg hnot]

/-- The length of a frame that fits is told by its first four bytes. -/
theorem len_of_prefix {len : Nat} {payload got rest : List UInt8} (hlen : len ≤ maxFrameBytes)
    (hfits : payload.length ≤ maxFrameBytes)
    (h : toBeBytes (UInt32.ofNat len) ++ got = frame payload ++ rest) :
    len = payload.length ∧ got = payload ++ rest := by
  rw [frame, List.append_assoc] at h
  obtain ⟨hlen₄, hgot⟩ := List.append_inj h rfl
  have hn : UInt32.ofNat len = UInt32.ofNat payload.length := by
    rw [← fromBeBytes_toBeBytes (UInt32.ofNat len), hlen₄, fromBeBytes_toBeBytes]
  have hto := congrArg UInt32.toNat hn
  simp only [maxFrameBytes] at hlen hfits
  rw [UInt32.toNat_ofNat', UInt32.toNat_ofNat'] at hto
  exact ⟨by omega, hgot⟩

/-- With the rest of a frame at hand the task returns what the frame holds. -/
theorem poll_frame {r : PendingRead} {payload tail avail : List UInt8} (hr : r.Waiting)
    (hfits : payload.length ≤ maxFrameBytes) (h : r.bytes ++ avail = frame payload ++ tail) :
    r.poll codec closed avail = (.ready ((codec.fromSlice payload).mapError .json), tail) := by
  cases r with
  | length got =>
    have hgot : got.length < 4 := hr
    have hlen : (fromBeBytes (toBeBytes (UInt32.ofNat payload.length))).toNat = payload.length := by
      rw [fromBeBytes_toBeBytes, toNat_length hfits]
    have h' : got ++ avail = toBeBytes (UInt32.ofNat payload.length) ++ (payload ++ tail) := by
      rw [← List.append_assoc]
      exact h
    rw [poll_length (by omega) (length_toBeBytes _) (by omega) h', hlen]
    exact pollPayload_enough (Nat.zero_le _) rfl
  | payload len got =>
    obtain ⟨hlen, hgot⟩ := hr
    have h' : toBeBytes (UInt32.ofNat len) ++ (got ++ avail) = frame payload ++ tail := by
      rw [← List.append_assoc]
      exact h
    obtain ⟨rfl, hrest⟩ := len_of_prefix hlen hfits h'
    exact pollPayload_enough (Nat.le_of_lt hgot) hrest

/-- A task that has nothing, and gets nothing, is one that has just begun. -/
theorem poll_nothing (codec : Codec α) {r : PendingRead} (h : r.bytes = []) :
    r.poll codec false [] = (.pending start, []) := by
  cases r with
  | length got =>
    have hgot : got = [] := h
    rw [hgot]
    rfl
  | payload len got => cases h

/-- Four bytes of a frame are its length. -/
theorem take_frame {payload got more tail : List UInt8} (hfour : 4 ≤ got.length)
    (h : got ++ more = frame payload ++ tail) :
    got = toBeBytes (UInt32.ofNat payload.length) ++ got.drop 4 := by
  have hfirst := congrArg (List.take 4) h
  rw [List.take_append_of_le_length hfour, frame, List.append_assoc,
    List.take_left' (length_toBeBytes _)] at hfirst
  rw [← hfirst, List.take_append_drop]

/-- With less at hand the task takes it and waits on. -/
theorem poll_waits (codec : Codec α) {r : PendingRead}
    {payload more tail avail : List UInt8} (hr : r.Waiting)
    (hfits : payload.length ≤ maxFrameBytes)
    (h : r.bytes ++ avail ++ more = frame payload ++ tail)
    (hshort : (r.bytes ++ avail).length < (frame payload).length) :
    ∃ r', r.poll codec false avail = (.pending r', []) ∧ r'.Waiting ∧
      r'.bytes = r.bytes ++ avail := by
  rw [frame, List.length_append, List.length_append, length_toBeBytes] at hshort
  cases r with
  | length got =>
    have hgot : got.length < 4 := hr
    by_cases hfour : got.length + avail.length < 4
    · refine ⟨.length (got ++ avail), ?_, ?_, rfl⟩
      · simp only [poll, fill_short hfour]
        rfl
      · show (got ++ avail).length < 4
        rw [List.length_append]
        exact hfour
    · have hlen : (fromBeBytes (toBeBytes (UInt32.ofNat payload.length))).toNat =
          payload.length := by
        rw [fromBeBytes_toBeBytes, toNat_length hfits]
      have hsplit : got ++ avail =
          toBeBytes (UInt32.ofNat payload.length) ++ (got ++ avail).drop 4 :=
        take_frame (by rw [List.length_append]; omega) h
      have hrest : ((got ++ avail).drop 4).length < payload.length := by
        have hb : (PendingRead.length got).bytes = got := rfl
        rw [hb] at hshort
        rw [List.length_drop, List.length_append]
        omega
      refine ⟨.payload payload.length ((got ++ avail).drop 4), ?_, ⟨hfits, hrest⟩, hsplit.symm⟩
      rw [poll_length (by omega) (length_toBeBytes _) (by omega) hsplit, hlen,
        pollPayload_short (by rw [List.length_nil, Nat.zero_add]; exact hrest)]
      rfl
  | payload len got =>
    obtain ⟨hlen, hgot⟩ := hr
    have h' : toBeBytes (UInt32.ofNat len) ++ (got ++ avail ++ more) = frame payload ++ tail := by
      rw [← h]
      simp [bytes]
    obtain ⟨rfl, -⟩ := len_of_prefix hlen hfits h'
    have hless : got.length + avail.length < payload.length := by
      have hb : (PendingRead.payload payload.length got).bytes.length = 4 + got.length := by
        rw [bytes, List.length_append, length_toBeBytes]
      omega
    refine ⟨.payload payload.length (got ++ avail), pollPayload_short hless, ⟨hlen, ?_⟩, ?_⟩
    · rw [List.length_append]
      exact hless
    · rw [bytes, bytes, List.append_assoc]

/-- Polled once with a whole stream, the task is `readFrame`. -/
theorem poll_readFrame (codec : Codec α) (stream : Chunks UInt8) :
    start.poll codec true stream.bytes =
      (.ready (readFrame codec stream).1, (readFrame codec stream).2.bytes) := by
  obtain ⟨hbuf, hrest⟩ := readExact_fill 4 stream
  rw [start, poll, readFrame]
  cases hr : Chunks.readExact 4 stream with
  | mk lenBuf rest =>
    rw [hr] at hbuf hrest
    cases hf : fill 4 [] stream.bytes with
    | mk got avail =>
      rw [hf] at hbuf hrest
      simp only at hbuf hrest
      subst hbuf hrest
      cases lenBuf with
      | none => rfl
      | some lenBuf =>
        simp only
        by_cases hlarge : (fromBeBytes lenBuf).toNat > maxFrameBytes
        · rw [if_pos hlarge, if_pos hlarge]
        · rw [if_neg hlarge, if_neg hlarge, pollPayload]
          obtain ⟨hpayload, hafter⟩ := readExact_fill (fromBeBytes lenBuf).toNat rest
          cases hr' : Chunks.readExact (fromBeBytes lenBuf).toNat rest with
          | mk buf rest' =>
            rw [hr'] at hpayload hafter
            cases hf' : fill (fromBeBytes lenBuf).toNat [] rest.bytes with
            | mk got' avail' =>
              rw [hf'] at hpayload hafter
              simp only at hpayload hafter
              subst hpayload hafter
              cases buf <;> rfl

end

end PendingRead

end Proto
end Konstantin
