import Konstantin.Daemon.Agreement
import Konstantin.Tray.Notifications

/-!
# What is shown of a status

`format_remaining` of `crates/tray/src/lib.rs` and `status_display` of
`crates/tray/src/bin/tray.rs`.  The remaining seconds are an `i64` off the wire, and
`format_remaining` calls itself with their negation: a bound on the calls stands for
the stack, and the build says what a negation that overflows does.
-/

namespace Konstantin
namespace Tray

open Daemon

namespace Display

/-- Arithmetic wraps in a release build and panics in a debug build. -/
inductive Build where
  | release
  | debug
  deriving DecidableEq

/-- `-n`, `none` for a panic. -/
def Build.neg : Build → Int64 → Option Int64
  | .release, n => some (-n)
  | .debug, n => if n = Int64.minValue then none else some (-n)

/-! ## Texts of durations -/

def decimal (n : Int64) : String := toString n.toInt

/-- `{n:02}`. -/
def pad2 (n : Int64) : String :=
  if (decimal n).length < 2 then "0" ++ decimal n else decimal n

/-- `format_remaining` of a number that is not negative. -/
def durationText (secs : Int64) : String :=
  let h := secs / 3600
  let m := (secs % 3600) / 60
  let s := secs % 60
  if 0 < h then decimal h ++ "h" ++ pad2 m ++ "m"
  else if 0 < m then decimal m ++ "m" ++ pad2 s ++ "s"
  else decimal s ++ "s"

/-- `format_remaining` with room for so many calls, `none` when they do not suffice
or the program panics. -/
def formatRemaining (b : Build) : Nat → Int64 → Option String
  | 0, _ => none
  | calls + 1, secs =>
    if secs < 0 then ((b.neg secs).bind (formatRemaining b calls)).map ("-" ++ ·)
    else some (durationText secs)

structure StatusDisplay where
  label : String
  urgent : Bool
  deriving DecidableEq

/-- The field as it is in memory. -/
def remainingOf (status : UserStatus) : Int64 := Int64.ofInt status.remainingSeconds

def statusDisplay (b : Build) (calls : Nat) (status : UserStatus) : Option StatusDisplay :=
  match status.state with
  | .notConfigured => some ⟨"", false⟩
  | .offline => some ⟨"offline", false⟩
  | .limitReached => some ⟨"0s", true⟩
  | .active =>
    (formatRemaining b calls (remainingOf status)).map fun label =>
      ⟨label, decide (0 ≤ remainingOf status ∧ remainingOf status < 60)⟩
  | .paused =>
    (formatRemaining b calls (remainingOf status)).map fun label => ⟨"⏸ " ++ label, false⟩

/-! ## What a text says -/

def unitSeconds (c : Char) : Option Nat :=
  if c = 'h' then some 3600 else if c = 'm' then some 60 else if c = 's' then some 1 else none

/-- The seconds of a text of numbers with units: `n` is the number that is being
read, `total` the seconds before it. -/
def readUnits : List Char → Nat → Nat → Option Nat
  | [], _, total => some total
  | c :: cs, n, total =>
    if c.isDigit then readUnits cs (10 * n + (c.toNat - 48)) total
    else (unitSeconds c).bind fun u => readUnits cs 0 (total + n * u)

/-- The seconds a text says, negative behind a minus sign. -/
def denoted (text : String) : Option Int :=
  match text.toList with
  | '-' :: cs => (readUnits cs 0 0).map fun n : Nat => -(n : Int)
  | cs => (readUnits cs 0 0).map Int.ofNat

/-- What is to be shown: the seconds below one hour, whole minutes towards zero from
then on. -/
def shown (v : Int) : Int := if v.natAbs < 3600 then v else v.tdiv 60 * 60

def shownNat (k : Nat) : Nat := if k < 3600 then k else k / 60 * 60

theorem shown_natCast (k : Nat) : shown k = shownNat k := by
  unfold shown shownNat
  rw [Int.natAbs_natCast]
  split
  · rfl
  · have hdiv : (k : Int).tdiv 60 = (k / 60 : Nat) := (Int.ofNat_tdiv k 60).symm
    rw [hdiv, Int.natCast_mul]
    rfl

theorem shown_neg (v : Int) : shown (-v) = -shown v := by
  unfold shown
  rw [Int.natAbs_neg]
  split
  · rfl
  · rw [Int.neg_tdiv, Int.neg_mul]

theorem readUnits_digits {ds : List Char} (h : ∀ c ∈ ds, c.isDigit = true) (rest : List Char)
    (n total : Nat) :
    readUnits (ds ++ rest) n total = readUnits rest (Nat.ofDigitChars 10 ds n) total := by
  induction ds generalizing n with
  | nil => rfl
  | cons c ds ih =>
    rw [List.cons_append, readUnits, if_pos (h c List.mem_cons_self),
      ih fun d hd => h d (List.mem_cons_of_mem c hd)]
    rfl

/-- A number and its unit. -/
theorem readUnits_number {u : Char} {seconds : Nat} (hdigit : u.isDigit = false)
    (hu : unitSeconds u = some seconds) (k : Nat) (rest : List Char) (total : Nat) :
    readUnits (Nat.toDigits 10 k ++ u :: rest) 0 total =
      readUnits rest 0 (total + k * seconds) := by
  have hdigits : ∀ c ∈ Nat.toDigits 10 k, c.isDigit = true :=
    fun c hc => Nat.isDigit_of_mem_toDigits (by decide) (by decide) hc
  rw [readUnits_digits hdigits, Nat.ofDigitChars_ten_toDigits, readUnits, hdigit, hu]
  rfl

theorem decimal_toList {n : Int64} {k : Nat} (h : n.toInt = k) :
    (decimal n).toList = Nat.toDigits 10 k := by
  have htext : decimal n = Nat.repr k := by
    rw [decimal, h]
    rfl
  rw [htext, Nat.repr, String.toList_ofList]

theorem readUnits_decimal {n : Int64} {k : Nat} (h : n.toInt = k) {u : Char} {seconds : Nat}
    (hdigit : u.isDigit = false) (hu : unitSeconds u = some seconds) (rest : List Char)
    (total : Nat) :
    readUnits ((decimal n).toList ++ u :: rest) 0 total =
      readUnits rest 0 (total + k * seconds) := by
  rw [decimal_toList h, readUnits_number hdigit hu]

/-- A zero in front changes nothing. -/
theorem readUnits_pad2 {n : Int64} {k : Nat} (h : n.toInt = k) {u : Char} {seconds : Nat}
    (hdigit : u.isDigit = false) (hu : unitSeconds u = some seconds) (rest : List Char)
    (total : Nat) :
    readUnits ((pad2 n).toList ++ u :: rest) 0 total = readUnits rest 0 (total + k * seconds) := by
  rw [pad2]
  split
  · rw [String.toList_append, List.append_assoc]
    show readUnits ('0' :: ((decimal n).toList ++ u :: rest)) 0 total = _
    rw [readUnits, if_pos (by decide)]
    exact readUnits_decimal h hdigit hu rest total
  · exact readUnits_decimal h hdigit hu rest total

/-- Hours and minutes drop the seconds, the other two shapes have them all. -/
theorem readUnits_durationText {secs : Int64} {k : Nat} (h : secs.toInt = k) :
    readUnits (durationText secs).toList 0 0 = some (shownNat k) := by
  have hh : (secs / 3600).toInt = (k / 3600 : Nat) := by
    rw [Int64.toInt_div_of_ne_right secs 3600 (by decide), h]
    exact (Int.ofNat_tdiv k 3600).symm
  have hr : (secs % 3600).toInt = (k % 3600 : Nat) := by
    rw [Int64.toInt_mod, h]
    exact (Int.ofNat_tmod k 3600).symm
  have hm : (secs % 3600 / 60).toInt = (k % 3600 / 60 : Nat) := by
    rw [Int64.toInt_div_of_ne_right (secs % 3600) 60 (by decide), hr]
    exact (Int.ofNat_tdiv (k % 3600) 60).symm
  have hs : (secs % 60).toInt = (k % 60 : Nat) := by
    rw [Int64.toInt_mod, h]
    exact (Int.ofNat_tmod k 60).symm
  have hpos : (0 : Int64) < secs / 3600 ↔ 0 < k / 3600 := by
    rw [Int64.lt_iff_toInt_lt, hh]
    exact Int.ofNat_lt
  have hpos' : (0 : Int64) < secs % 3600 / 60 ↔ 0 < k % 3600 / 60 := by
    rw [Int64.lt_iff_toInt_lt, hm]
    exact Int.ofNat_lt
  have hunits : "h".toList = ['h'] ∧ "m".toList = ['m'] ∧ "s".toList = ['s'] := ⟨rfl, rfl, rfl⟩
  unfold durationText
  dsimp only
  by_cases hhours : 0 < k / 3600
  · rw [if_pos (hpos.mpr hhours), shownNat, if_neg (by omega)]
    simp only [String.toList_append, hunits, List.append_assoc, List.cons_append,
      List.nil_append]
    rw [readUnits_decimal (u := 'h') hh (by decide) (by rfl),
      readUnits_pad2 (u := 'm') hm (by decide) (by rfl),
      readUnits]
    congr 1
    omega
  · rw [if_neg fun hlt => hhours (hpos.mp hlt), shownNat, if_pos (show k < 3600 by omega)]
    by_cases hminutes : 0 < k % 3600 / 60
    · rw [if_pos (hpos'.mpr hminutes)]
      simp only [String.toList_append, hunits, List.append_assoc, List.cons_append,
        List.nil_append]
      rw [readUnits_decimal (u := 'm') hm (by decide) (by rfl),
        readUnits_pad2 (u := 's') hs (by decide) (by rfl),
        readUnits]
      congr 1
      omega
    · rw [if_neg fun hlt => hminutes (hpos'.mp hlt)]
      simp only [String.toList_append, hunits]
      rw [readUnits_decimal (u := 's') hs (by decide) (by rfl), readUnits]
      congr 1
      omega

/-! ## Calls -/

theorem neg_minValue : -Int64.minValue = Int64.minValue := by decide

/-- The least `i64` is its own negation: no number of calls suffices. -/
theorem formatRemaining_minValue (b : Build) (calls : Nat) :
    formatRemaining b calls Int64.minValue = none := by
  induction calls with
  | zero => rfl
  | succ calls ih =>
    rw [formatRemaining, if_pos (by decide)]
    cases b with
    | release =>
      show ((some (-Int64.minValue)).bind (formatRemaining .release calls)).map _ = none
      rw [neg_minValue, Option.bind_some, ih]
      rfl
    | debug => rfl

/-- The other negations are exact. -/
theorem neg_of_ne {b : Build} {secs : Int64} (h : secs ≠ Int64.minValue) :
    b.neg secs = some (-secs) ∧ (-secs).toInt = -secs.toInt := by
  have hlow := secs.le_toInt
  have hhigh := secs.toInt_lt
  have hne : secs.toInt ≠ -2 ^ 63 := fun heq => h (Int64.toInt_inj.mp heq)
  constructor
  · cases b with
    | release => rfl
    | debug =>
      unfold Build.neg
      exact if_neg h
  · rw [Int64.toInt_neg]
    exact Int.bmod_eq_of_le (by omega) (by omega)

theorem formatRemaining_nonneg (b : Build) {secs : Int64} (h : 0 ≤ secs.toInt) (calls : Nat) :
    formatRemaining b (calls + 1) secs = some (durationText secs) := by
  have hnot : ¬ secs < 0 := by
    rw [Int64.lt_iff_toInt_lt]
    exact Int.not_lt.mpr h
  rw [formatRemaining, if_neg hnot]

theorem formatRemaining_neg (b : Build) {secs : Int64} (h : secs.toInt < 0)
    (hmin : secs ≠ Int64.minValue) (calls : Nat) :
    formatRemaining b (calls + 2) secs = some ("-" ++ durationText (-secs)) := by
  have hlt : secs < 0 := Int64.lt_iff_toInt_lt.mpr h
  obtain ⟨hneg, hvalue⟩ := neg_of_ne (b := b) hmin
  rw [formatRemaining, if_pos hlt, hneg, Option.bind_some,
    formatRemaining_nonneg b (by rw [hvalue]; omega) calls]
  rfl

theorem denoted_durationText {secs : Int64} {k : Nat} (h : secs.toInt = k) :
    denoted (durationText secs) = some (shownNat k : Int) := by
  have hread := readUnits_durationText h
  unfold denoted
  split
  · rename_i cs hcs
    rw [hcs, readUnits, if_neg (by decide)] at hread
    cases hread
  · rw [hread]
    rfl

theorem denoted_minus {secs : Int64} {k : Nat} (h : secs.toInt = k) :
    denoted ("-" ++ durationText secs) = some (-(shownNat k : Int)) := by
  have hchars : ("-" ++ durationText secs).toList = '-' :: (durationText secs).toList := by
    rw [String.toList_append]
    rfl
  unfold denoted
  rw [hchars]
  show (readUnits (durationText secs).toList 0 0).map _ = _
  rw [readUnits_durationText h]
  rfl

/-- Two calls suffice where the negation does not overflow, and the text says what is
to be shown. -/
theorem formatRemaining_exact (b : Build) {secs : Int64} (h : secs ≠ Int64.minValue)
    (calls : Nat) :
    ∃ text, formatRemaining b (calls + 2) secs = some text ∧
      denoted text = some (shown secs.toInt) := by
  by_cases hsign : 0 ≤ secs.toInt
  · obtain ⟨k, hk⟩ := Int.eq_ofNat_of_zero_le hsign
    refine ⟨durationText secs, formatRemaining_nonneg b hsign (calls + 1), ?_⟩
    rw [denoted_durationText hk, hk, shown_natCast]
  · have hneg : secs.toInt < 0 := Int.not_le.mp hsign
    have hvalue := (neg_of_ne (b := b) h).2
    obtain ⟨k, hk⟩ := Int.eq_ofNat_of_zero_le (show 0 ≤ (-secs).toInt by omega)
    refine ⟨"-" ++ durationText (-secs), formatRemaining_neg b hneg h calls, ?_⟩
    have hback : secs.toInt = -(k : Int) := by omega
    rw [denoted_minus hk, hback, shown_neg, shown_natCast]

/-! ## Which statuses can be shown -/

/-- The field is an `i64`, as everything that `read_frame` decodes. -/
def FitsI64 (status : UserStatus) : Prop := (remainingOf status).toInt = status.remainingSeconds

/-- The three functions come to an end on this status, without an overflow, and the
text is exact.  A warning is whole minutes of the threshold that numbers without a
bound would give. -/
structure Rendered (b : Build) (t : NotifTracker) (status : UserStatus) : Prop where
  evaluated : ∀ minutes, (t.evaluate status).2 = some minutes →
    ∃ seconds, Warns status seconds ∧ minutes.toNat = seconds / 60
  displayed : ∃ calls display, statusDisplay b calls status = some display
  exact : ∃ calls text, formatRemaining b calls (remainingOf status) = some text ∧
    denoted text = some (shown status.remainingSeconds)

theorem evaluate_minutes {t : NotifTracker} {status : UserStatus} {minutes : UInt32}
    (h : (t.evaluate status).2 = some minutes) :
    ∃ seconds, Warns status seconds ∧ minutes.toNat = seconds / 60 := by
  rw [NotifTracker.evaluate_eq] at h
  cases hcandidate : candidate status with
  | none =>
    rw [hcandidate] at h
    cases h
  | some s =>
    have hwarns : Warns status s.toNat := by
      rw [← candidate_iff, hcandidate]
      rfl
    have hminutes : minutes = s / 60 := by
      rw [hcandidate] at h
      cases hfired : (t.rollover status.resetsAt).firedAtOrBelow with
      | none =>
        rw [hfired] at h
        exact (Option.some.inj h).symm
      | some prev =>
        rw [hfired] at h
        dsimp only at h
        split at h
        · exact (Option.some.inj h).symm
        · cases h
    refine ⟨s.toNat, hwarns, ?_⟩
    rw [hminutes, UInt32.toNat_div]
    rfl

/-- Only the two states that show the time depend on it. -/
theorem statusDisplay_some {b : Build} {calls : Nat} {status : UserStatus} {text : String}
    (h : formatRemaining b calls (remainingOf status) = some text) :
    ∃ display, statusDisplay b calls status = some display := by
  unfold statusDisplay
  rw [h]
  cases status.state with
  | active => exact ⟨_, rfl⟩
  | paused => exact ⟨_, rfl⟩
  | limitReached => exact ⟨_, rfl⟩
  | offline => exact ⟨_, rfl⟩
  | notConfigured => exact ⟨_, rfl⟩

/-- In these two states the least `i64` never gets a display. -/
theorem statusDisplay_minValue (b : Build) (calls : Nat) {status : UserStatus}
    (hstate : status.state = .active ∨ status.state = .paused)
    (hmin : remainingOf status = Int64.minValue) : statusDisplay b calls status = none := by
  unfold statusDisplay
  rw [hmin, formatRemaining_minValue]
  rcases hstate with h | h
  · rw [h]
    rfl
  · rw [h]
    rfl

theorem remainingOf_ne {status : UserStatus} (h : FitsI64 status) :
    remainingOf status ≠ Int64.minValue ↔ status.remainingSeconds ≠ Int64.minValue.toInt := by
  rw [← h, ne_eq, ne_eq, Int64.toInt_inj]

theorem rendered_of_ne (b : Build) (t : NotifTracker) {status : UserStatus}
    (h : FitsI64 status) (hne : remainingOf status ≠ Int64.minValue) : Rendered b t status := by
  obtain ⟨text, htext, hdenoted⟩ := formatRemaining_exact b hne 0
  obtain ⟨display, hdisplay⟩ := statusDisplay_some htext
  refine ⟨fun minutes => evaluate_minutes, ⟨2, display, hdisplay⟩, ⟨2, text, htext, ?_⟩⟩
  rw [hdenoted, h]

theorem not_rendered (b : Build) (t : NotifTracker) {status : UserStatus}
    (hmin : remainingOf status = Int64.minValue) : ¬ Rendered b t status := by
  intro h
  obtain ⟨calls, text, htext, -⟩ := h.exact
  rw [hmin, formatRemaining_minValue] at htext
  cases htext

theorem rendered_iff (b : Build) (t : NotifTracker) (status : UserStatus) (h : FitsI64 status) :
    Rendered b t status ↔ status.remainingSeconds ≠ Int64.minValue.toInt := by
  rw [← remainingOf_ne h]
  constructor
  · intro hrendered hmin
    exact not_rendered b t hmin hrendered
  · exact rendered_of_ne b t h

/-- Alice is active, with `seconds` left. -/
def aliceWith (seconds : Int) : UserStatus where
  uid := 501
  username := "alice"
  state := .active
  dailyLimitSeconds := 3600
  usedSeconds := 0
  remainingSeconds := seconds
  resetsAt := 0
  warnThresholdsMinutes := [15, 5, 1]

theorem rendered_iff_alice :
    Rendered .release .new (aliceWith (-4000)) ↔ (-4000 : Int) ≠ Int64.minValue.toInt :=
  rendered_iff .release .new (aliceWith (-4000)) (by unfold FitsI64; decide)

/-- At `i64::MIN` no stack is deep enough, and nothing is shown. -/
theorem rendered_fails :
    FitsI64 (aliceWith (-9223372036854775808)) ∧
      (∀ calls, statusDisplay .release calls (aliceWith (-9223372036854775808)) = none) ∧
      ¬ Rendered .release .new (aliceWith (-9223372036854775808)) := by
  have hmin : remainingOf (aliceWith (-9223372036854775808)) = Int64.minValue := by decide
  refine ⟨?_, fun calls => statusDisplay_minValue .release calls (Or.inl rfl) hmin,
    not_rendered .release .new hmin⟩
  unfold FitsI64
  decide

/-- Every status that the daemon computes is shown. -/
theorem rendered_computeStatus (b : Build) (t : NotifTracker) (username : String) (uid : UInt32)
    (cfg : Config) (s : State) (resetsAt : Int) :
    Rendered b t (computeStatus username uid cfg s resetsAt) := by
  have hvalue : remainingOf (computeStatus username uid cfg s resetsAt) =
      remainingI64 (sessionState cfg username (s.used username) (s.isActive username)).2
        (s.used username) := by
    rw [← Int64.ofInt_toInt (remainingI64 _ _), toInt_remainingI64]
    rfl
  have hfits : FitsI64 (computeStatus username uid cfg s resetsAt) := by
    rw [FitsI64, hvalue, toInt_remainingI64]
    rfl
  refine rendered_of_ne b t hfits fun hmin => ?_
  have hused := (s.used username).toNat_lt
  have hleast := congrArg Int64.toInt hmin
  rw [hvalue, toInt_remainingI64, Int64.toInt_minValue] at hleast
  omega

theorem remainingOf_computeStatus_ne (username : String) (uid : UInt32) (cfg : Config) (s : State)
    (resetsAt : Int) :
    remainingOf (computeStatus username uid cfg s resetsAt) ≠ Int64.minValue :=
  fun hmin => not_rendered .release .new hmin
    (rendered_computeStatus .release .new username uid cfg s resetsAt)

end Display
end Tray
end Konstantin
