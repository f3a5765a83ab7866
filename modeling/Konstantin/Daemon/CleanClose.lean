import Konstantin.Daemon.Subscribe
import Konstantin.Proto.Truncated

/-!
# How a connection ends

`handle_connection` and `run_subscribe` of `crates/daemon/src/ipc.rs` on a client
that has sent everything it will send and is gone, with what they return.  The
writes succeed or fail, and a subscription has its wakes at any place.
-/

namespace Konstantin
namespace Daemon

open Streams Proto

/-- What a round of the `select!` finds.  A wake drops the read that waits, with the
bytes that it has taken. -/
inductive SelectEvent where
  | woken (dropped : Nat) (write : Except FrameError Unit)
  | channelClosed
  | readable

/-- The loop of `run_subscribe`, `none` while it is in the `select!`. -/
def runSubscribe (codec : Codec Request) :
    List SelectEvent → Chunks UInt8 → Option (Except FrameError Unit)
  | [], _ => none
  | .woken dropped write :: events, stream =>
    match write with
    | .ok () => runSubscribe codec events (Chunks.readExact dropped stream).2
    | .error _ => some (.ok ())
  | .channelClosed :: _, _ => some (.ok ())
  | .readable :: events, stream =>
    match readFrame codec stream with
    | (.ok _, rest) => runSubscribe codec events rest
    | (.error _, _) => some (.ok ())

/-- The loop of `handle_connection`, `none` when it is not done after so many rounds.
`write n` is what the write of the `n`-th answer returns; that of a `bad frame` is
thrown away. -/
def handleConnection (codec : Codec Request) (write : Nat → Except FrameError Unit)
    (events : List SelectEvent) : Nat → Nat → Chunks UInt8 → Option (Except FrameError Unit)
  | 0, _, _ => none
  | rounds + 1, served, stream =>
    match readFrame codec stream with
    | (.error .closed, _) => some (.ok ())
    | (.error e, _) => some (.error e)
    | (.ok .subscribe, rest) =>
      match write served with
      | .ok () => runSubscribe codec events rest
      | .error e => some (.error e)
    | (.ok _, rest) =>
      match write served with
      | .ok () => handleConnection codec write events rounds (served + 1) rest
      | .error e => some (.error e)

/-- Without an error the connection ends only if the stream ends between two frames. -/
def OkOnlyWhenClean (codec : Codec Request) (requests : List Request) (cut : Nat) : Prop :=
  ∀ (write : Nat → Except FrameError Unit) (events : List SelectEvent) (rounds : Nat)
    (stream : Chunks UInt8), stream.bytes = written codec requests cut →
    handleConnection codec write events rounds 0 stream = some (.ok ()) →
      (cutFrames codec requests cut).2 = 0

/-- The requests that arrive whole. -/
def arrived (codec : Codec Request) (requests : List Request) (cut : Nat) : List Request :=
  ((sent codec requests).take (cutFrames codec requests cut).1).map Prod.fst

/-! ## One round -/

section

variable {codec : Codec Request} {write : Nat → Except FrameError Unit}
  {events : List SelectEvent} {stream rest : Chunks UInt8}

theorem handleConnection_error {e : FrameError} (h : readFrame codec stream = (.error e, rest))
    (rounds served : Nat) :
    handleConnection codec write events (rounds + 1) served stream =
      some (if e = .closed then .ok () else .error e) := by
  rw [handleConnection, h]
  cases e <;> rfl

theorem handleConnection_subscribe (h : readFrame codec stream = (.ok .subscribe, rest))
    (rounds served : Nat) :
    handleConnection codec write events (rounds + 1) served stream =
      match write served with
      | .ok () => runSubscribe codec events rest
      | .error e => some (.error e) := by
  rw [handleConnection, h]

theorem handleConnection_request {request : Request} (hrequest : request ≠ .subscribe)
    (h : readFrame codec stream = (.ok request, rest)) (rounds served : Nat) :
    handleConnection codec write events (rounds + 1) served stream =
      match write served with
      | .ok () => handleConnection codec write events rounds (served + 1) rest
      | .error e => some (.error e) := by
  rw [handleConnection, h]
  cases request with
  | getStatus => rfl
  | reportSessionState locked idleSeconds => rfl
  | subscribe => exact absurd rfl hrequest

end

/-! ## Connections that break off -/

section

variable {codec : Codec Request} {frames : List (Request × List UInt8)}
  (hframes : ∀ s ∈ frames, IsFrame codec s)

include hframes

/-- Every round of a subscription that finds bytes or the end of the stream comes to
an end without an error. -/
theorem runSubscribe_readable {cut rounds : Nat} {stream : Chunks UInt8}
    (h : stream.bytes = (frames.map Prod.snd).flatten.take cut) (hrounds : frames.length < rounds) :
    runSubscribe codec (List.replicate rounds .readable) stream = some (.ok ()) := by
  induction frames generalizing cut rounds stream with
  | nil =>
    obtain ⟨n, rfl⟩ := Nat.exists_eq_succ_of_ne_zero (Nat.ne_of_gt hrounds)
    rw [List.replicate_succ, runSubscribe, readFrame_nothing codec h]
  | cons s frames ih =>
    obtain ⟨n, rfl⟩ := Nat.exists_eq_succ_of_ne_zero (Nat.ne_zero_of_lt hrounds)
    rw [List.length_cons] at hrounds
    rw [List.replicate_succ, runSubscribe]
    rcases readFrame_first (hframes s List.mem_cons_self) h with
      ⟨-, rest, hread, hrest⟩ | ⟨-, hread⟩
    · rw [hread]
      exact ih (fun t ht => hframes t (List.mem_cons_of_mem s ht)) hrest (by omega)
    · rw [hread]

/-- An end without an error: a subscription, or an end that is told as `closed`. -/
theorem handleConnection_ok {write : Nat → Except FrameError Unit} {events : List SelectEvent}
    {cut rounds served : Nat} {stream : Chunks UInt8}
    (h : stream.bytes = (frames.map Prod.snd).flatten.take cut)
    (hok : handleConnection codec write events rounds served stream = some (.ok ())) :
    .subscribe ∈ (frames.take (cutAt (frames.map Prod.snd) cut).1).map Prod.fst ∨
      endOf codec (cutAt (frames.map Prod.snd) cut).2 = .closed := by
  induction frames generalizing cut rounds served stream with
  | nil => exact Or.inr rfl
  | cons s frames ih =>
    cases rounds with
    | zero => cases hok
    | succ rounds =>
      rw [List.map_cons]
      rcases readFrame_first (hframes s List.mem_cons_self) h with
        ⟨hwhole, rest, hread, hrest⟩ | ⟨hlt, hread⟩
      · rw [cutAt_whole hwhole]
        by_cases hsubscribe : s.1 = .subscribe
        · left
          rw [List.take_succ_cons, List.map_cons, hsubscribe]
          exact List.mem_cons_self
        · rw [handleConnection_request hsubscribe hread] at hok
          split at hok
          · rcases ih (fun t ht => hframes t (List.mem_cons_of_mem s ht)) hrest hok with hin | hend
            · left
              rw [List.take_succ_cons, List.map_cons]
              exact List.mem_cons_of_mem s.1 hin
            · exact Or.inr hend
          · cases hok
      · rw [cutAt_inside hlt]
        rw [handleConnection_error hread] at hok
        by_cases hclosed : endOf codec cut = .closed
        · exact Or.inr hclosed
        · rw [if_neg hclosed] at hok
          cases hok

/-- With writes that succeed there is such an end in both cases. -/
theorem handleConnection_ends {cut n : Nat} {stream : Chunks UInt8} (served : Nat)
    (h : stream.bytes = (frames.map Prod.snd).flatten.take cut) (hn : frames.length < n)
    (hend : .subscribe ∈ (frames.take (cutAt (frames.map Prod.snd) cut).1).map Prod.fst ∨
      endOf codec (cutAt (frames.map Prod.snd) cut).2 = .closed) :
    handleConnection codec (fun _ => .ok ()) (List.replicate n .readable) (frames.length + 1)
      served stream = some (.ok ()) := by
  induction frames generalizing cut served stream with
  | nil =>
    rw [handleConnection_error (readFrame_nothing codec h)]
    rfl
  | cons s frames ih =>
    rw [List.map_cons] at hend
    rw [List.length_cons] at hn ⊢
    have hrestFrames : ∀ t ∈ frames, IsFrame codec t :=
      fun t ht => hframes t (List.mem_cons_of_mem s ht)
    rcases readFrame_first (hframes s List.mem_cons_self) h with
      ⟨hwhole, rest, hread, hrest⟩ | ⟨hlt, hread⟩
    · rw [cutAt_whole hwhole, List.take_succ_cons, List.map_cons] at hend
      by_cases hsubscribe : s.1 = .subscribe
      · rw [hsubscribe] at hread
        rw [handleConnection_subscribe hread]
        exact runSubscribe_readable hrestFrames hrest (by omega)
      · rw [handleConnection_request hsubscribe hread]
        refine ih hrestFrames (served + 1) hrest (by omega) ?_
        rcases hend with hin | hend
        · rcases List.mem_cons.mp hin with heq | hin
          · exact absurd heq.symm hsubscribe
          · exact Or.inl hin
        · exact Or.inr hend
    · rw [cutAt_inside hlt] at hend
      rcases hend with hin | hclosed
      · exact absurd hin List.not_mem_nil
      · rw [handleConnection_error hread, if_pos hclosed]

end

theorem okOnlyWhenClean_iff (codec : Codec Request) (requests : List Request) (cut : Nat) :
    OkOnlyWhenClean codec requests cut ↔
      (cutFrames codec requests cut).2 = 0 ∨
        ¬ CutInHeader codec requests cut ∧ .subscribe ∉ arrived codec requests cut := by
  have hframes := isFrame_of_sent codec requests
  constructor
  · intro h
    by_cases hclean : (cutFrames codec requests cut).2 = 0
    · exact Or.inl hclean
    · right
      have hbytes := Chunks.bytes_ofBytes (written codec requests cut)
      have hend := handleConnection_ends hframes 0 (hbytes.trans (written_eq codec requests cut))
        (Nat.lt_succ_self _)
      refine ⟨fun hheader => hclean ?_, fun hsubscribe => hclean ?_⟩
      · exact h _ _ _ _ hbytes (hend (Or.inr (endOf_closed.mpr hheader.2)))
      · exact h _ _ _ _ hbytes (hend (Or.inl hsubscribe))
  · intro h write events rounds stream hbytes hok
    rcases h with hclean | ⟨hheader, hsubscribe⟩
    · exact hclean
    · rcases handleConnection_ok hframes (hbytes.trans (written_eq codec requests cut)) hok with
        hin | hclosed
      · exact absurd hin hsubscribe
      · apply Nat.eq_zero_of_not_pos
        exact fun hpos => hheader ⟨hpos, endOf_closed.mp hclosed⟩

end Daemon
end Konstantin
