import Konstantin.Daemon.CleanClose

/-!
# The tray's end of a subscription

`Subscription::next_update` of `crates/tray/src/lib.rs`, and where an end without
an error, on either side, means that the other side closed between two frames.
-/

namespace Konstantin
namespace Tray

open Daemon Streams Proto

namespace Subscription

/-- What `next_update` makes of a read.  `debug` prints a response, and an error
carries its outermost message. -/
def update (debug : Response → String) :
    Except FrameError Response → Except String (Option UserStatus)
  | .error .closed => .ok none
  | .error _ => .error "reading subscribe frame"
  | .ok (.statusUpdate s) => .ok (some s)
  | .ok (.error message) => .error ("daemon error: " ++ message)
  | .ok other => .error ("unexpected response on subscribe stream: " ++ debug other)

def nextUpdate (debug : Response → String) (codec : Codec Response) (stream : Chunks UInt8) :
    Except String (Option UserStatus) × Chunks UInt8 :=
  let r := readFrame codec stream
  (update debug r.1, r.2)

/-- That many calls, one after the other. -/
def nextUpdates (debug : Response → String) (codec : Codec Response) :
    Nat → Chunks UInt8 → List (Except String (Option UserStatus)) × Chunks UInt8
  | 0, stream => ([], stream)
  | n + 1, stream =>
    let r := nextUpdate debug codec stream
    let rest := nextUpdates debug codec n r.2
    (r.1 :: rest.1, rest.2)

/-- The calls up to the one that finds the end say `None` exactly if the stream ends
between two frames. -/
def NoneWhenClean (debug : Response → String) (codec : Codec Response) (responses : List Response)
    (cut : Nat) : Prop :=
  ∀ stream : Chunks UInt8, stream.bytes = written codec responses cut →
    (.ok none ∈ (nextUpdates debug codec ((cutFrames codec responses cut).1 + 1) stream).1 ↔
      (cutFrames codec responses cut).2 = 0)

theorem nextUpdates_eq (debug : Response → String) (codec : Codec Response) (n : Nat)
    (stream : Chunks UInt8) :
    nextUpdates debug codec n stream =
      ((readFrames codec n stream).1.map (update debug), (readFrames codec n stream).2) := by
  induction n generalizing stream with
  | zero => rfl
  | succ n ih =>
    rw [nextUpdates, readFrames]
    dsimp only
    rw [ih]
    rfl

theorem update_none {debug : Response → String} {r : Except FrameError Response} :
    update debug r = .ok none ↔ r = .error .closed := by
  cases r with
  | error e => cases e <;> simp [update]
  | ok response => cases response <;> simp [update]

theorem noneWhenClean_iff (debug : Response → String) (codec : Codec Response)
    (responses : List Response) (cut : Nat) :
    NoneWhenClean debug codec responses cut ↔ ¬ CutInHeader codec responses cut := by
  have hcalls : ∀ stream : Chunks UInt8, stream.bytes = written codec responses cut →
      (.ok none ∈ (nextUpdates debug codec ((cutFrames codec responses cut).1 + 1) stream).1 ↔
        (cutFrames codec responses cut).2 < 4) := by
    intro stream hbytes
    rw [nextUpdates_eq, readFrames_written_cut codec responses cut hbytes, List.mem_map,
      ← endOf_closed]
    constructor
    · rintro ⟨r, hr, hnone⟩
      rw [update_none] at hnone
      rw [hnone] at hr
      rcases List.mem_append.mp hr with hin | hin
      · obtain ⟨s, -, hs⟩ := List.mem_map.mp hin
        cases hs
      · exact (Except.error.inj (List.mem_singleton.mp hin)).symm
    · intro hclosed
      refine ⟨.error .closed, List.mem_append_right _ ?_, rfl⟩
      rw [hclosed]
      exact List.mem_singleton.mpr rfl
  constructor
  · rintro h ⟨hpos, hlt⟩
    have hbytes := Chunks.bytes_ofBytes (written codec responses cut)
    have hzero := (h _ hbytes).mp ((hcalls _ hbytes).mpr hlt)
    omega
  · intro hheader stream hbytes
    rw [hcalls stream hbytes]
    constructor
    · intro hlt
      apply Nat.eq_zero_of_not_pos
      exact fun hpos => hheader ⟨hpos, hlt⟩
    · omega

end Subscription

open Subscription

/-- For the reads, for the tray and for the daemon: where the end of a stream that
breaks off is told apart from a clean close. -/
theorem truncation_told_iff {α : Type} (codec : Codec α) (values : List α)
    (debug : Response → String) (responseCodec : Codec Response) (responses : List Response)
    (requestCodec : Codec Request) (requests : List Request) (cut : Nat) :
    (ToldApart codec values cut ↔ ¬ CutInHeader codec values cut) ∧
      (NoneWhenClean debug responseCodec responses cut ↔
        ¬ CutInHeader responseCodec responses cut) ∧
      (OkOnlyWhenClean requestCodec requests cut ↔
        (cutFrames requestCodec requests cut).2 = 0 ∨
          ¬ CutInHeader requestCodec requests cut ∧
            .subscribe ∉ arrived requestCodec requests cut) :=
  ⟨toldApart_iff codec values cut, noneWhenClean_iff debug responseCodec responses cut,
    okOnlyWhenClean_iff requestCodec requests cut⟩

/-- Two bytes of the length of a request, and the end: the read says `closed`, and the
connection ends without an error. -/
theorem truncation_told_fails :
    ¬ ToldApart sampleCodec [.getStatus] 2 ∧ ¬ OkOnlyWhenClean sampleCodec [.getStatus] 2 := by
  have hcut : cutFrames sampleCodec [.getStatus] 2 = (0, 2) := by decide +kernel
  have hheader : CutInHeader sampleCodec [.getStatus] 2 := by
    rw [CutInHeader, hcut]
    exact ⟨Nat.zero_lt_two, by decide⟩
  refine ⟨fun h => (toldApart_iff _ _ _).mp h hheader, fun h => ?_⟩
  rcases (okOnlyWhenClean_iff _ _ _).mp h with hclean | ⟨hno, -⟩
  · rw [hcut] at hclean
    cases hclean
  · exact hno hheader

end Tray
end Konstantin
