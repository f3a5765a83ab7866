import Mathlib.Data.List.Basic
import Konstantin.Text.Numbers

/-!
# Hexadecimal texts

Digits of base sixteen, `from_str_radix` of an unsigned type in that base, and
`from_utf8` of a few bytes.  `Encodes` says that a text is the digit pairs of some
bytes, in either case.
-/

namespace Konstantin
namespace Text

/-! ## Digits -/

/-- `char::to_digit(16)`. -/
def toDigit16 (c : Char) : Option Nat :=
  let n := c.toNat
  if 48 ≤ n ∧ n ≤ 57 then some (n - 48)
  else if 97 ≤ n ∧ n ≤ 102 then some (n - 87)
  else if 65 ≤ n ∧ n ≤ 70 then some (n - 55)
  else none

theorem toDigit16_bounds {c : Char} {d : Nat} (h : toDigit16 c = some d) :
    d < 16 ∧ c.toNat < 128 := by
  unfold toDigit16 at h
  dsimp only at h
  split at h
  · obtain rfl := Option.some.inj h
    omega
  · split at h
    · obtain rfl := Option.some.inj h
      omega
    · split at h
      · obtain rfl := Option.some.inj h
        omega
      · cases h

theorem toDigit16_plus : toDigit16 '+' = none := rfl

/-- The digits behind an accumulator, below `bound`. -/
def radixValue (bound : Nat) : List Char → Nat → Option Nat
  | [], acc => some acc
  | c :: cs, acc =>
    match toDigit16 c with
    | some d => if acc * 16 + d < bound then radixValue bound cs (acc * 16 + d) else none
    | none => none

/-- `from_str_radix(s, 16)` of an unsigned type with the values below `bound`: a
plus sign may come before the digits. -/
def fromStrRadix16 (bound : Nat) (cs : List Char) : Option Nat :=
  let digits := withoutPlus cs
  if digits = [] then none else radixValue bound digits 0

theorem digits_of_radixValue {bound : Nat} {cs : List Char} {acc n : Nat}
    (h : radixValue bound cs acc = some n) : ∀ c ∈ cs, ∃ d, toDigit16 c = some d := by
  induction cs generalizing acc with
  | nil => exact fun c hc => absurd hc List.not_mem_nil
  | cons c cs ih =>
    rw [radixValue] at h
    cases hdigit : toDigit16 c with
    | none =>
      rw [hdigit] at h
      cases h
    | some d =>
      rw [hdigit] at h
      dsimp only at h
      split at h
      · intro e he
        rcases List.mem_cons.mp he with rfl | hrest
        · exact ⟨d, hdigit⟩
        · exact ih h e hrest
      · cases h

/-- What is read has digits and perhaps a plus sign, so it is ASCII. -/
theorem ascii_of_fromStrRadix16 {bound n : Nat} {cs : List Char}
    (h : fromStrRadix16 bound cs = some n) : ∀ c ∈ cs, c.toNat < 128 := by
  unfold fromStrRadix16 at h
  dsimp only at h
  split at h
  · cases h
  · have hdigits := digits_of_radixValue h
    intro c hc
    have hor : c = '+' ∨ c ∈ withoutPlus cs := by
      rcases withoutPlus_cases cs with hplus | hsame
      · rw [hplus] at hc
        exact List.mem_cons.mp hc
      · exact Or.inr (hsame ▸ hc)
    rcases hor with rfl | hin
    · decide
    · obtain ⟨d, hd⟩ := hdigits c hin
      exact (toDigit16_bounds hd).2

/-! ## Two characters -/

theorem withoutPlus_of_ne {c : Char} (hc : c ≠ '+') (cs : List Char) :
    withoutPlus (c :: cs) = c :: cs := by
  rcases withoutPlus_cases (c :: cs) with hplus | hsame
  · exact absurd (List.cons.inj hplus).1 hc
  · exact hsame.symm

theorem fromStrRadix16_digits {c d : Char} {hi lo : Nat} (hc : toDigit16 c = some hi)
    (hd : toDigit16 d = some lo) : fromStrRadix16 256 [c, d] = some (hi * 16 + lo) := by
  have hne : c ≠ '+' := by
    intro heq
    rw [heq, toDigit16_plus] at hc
    cases hc
  have hhi := (toDigit16_bounds hc).1
  have hlo := (toDigit16_bounds hd).1
  unfold fromStrRadix16
  rw [withoutPlus_of_ne hne]
  dsimp only
  rw [if_neg (List.cons_ne_nil c [d]), radixValue, hc]
  dsimp only
  rw [if_pos (by omega), radixValue, hd]
  dsimp only
  rw [if_pos (by omega), radixValue]
  congr 1
  omega

theorem fromStrRadix16_plus {d : Char} {lo : Nat} (hd : toDigit16 d = some lo) :
    fromStrRadix16 256 ['+', d] = some lo := by
  have hlo := (toDigit16_bounds hd).1
  unfold fromStrRadix16
  show (if [d] = [] then none else radixValue 256 [d] 0) = some lo
  rw [if_neg (List.cons_ne_nil d []), radixValue, hd]
  dsimp only
  rw [if_pos (by omega), radixValue]
  congr 1
  omega

/-- Two characters are read when the second is a digit and the first a digit or a
plus sign. -/
theorem fromStrRadix16_cases {c d : Char} {n : Nat} (h : fromStrRadix16 256 [c, d] = some n) :
    ∃ lo, toDigit16 d = some lo ∧
      (c = '+' ∧ n = lo ∨ ∃ hi, toDigit16 c = some hi ∧ n = hi * 16 + lo) := by
  by_cases hplus : c = '+'
  · subst hplus
    have hdigits : radixValue 256 [d] 0 = some n := h
    obtain ⟨lo, hlo⟩ := digits_of_radixValue hdigits d List.mem_cons_self
    refine ⟨lo, hlo, Or.inl ⟨rfl, ?_⟩⟩
    rw [fromStrRadix16_plus hlo] at h
    exact (Option.some.inj h).symm
  · have hdigits : radixValue 256 [c, d] 0 = some n := by
      rw [fromStrRadix16, withoutPlus_of_ne hplus] at h
      exact h
    have hall := digits_of_radixValue hdigits
    obtain ⟨hi, hhi⟩ := hall c List.mem_cons_self
    obtain ⟨lo, hlo⟩ := hall d (List.mem_cons_of_mem c List.mem_cons_self)
    refine ⟨lo, hlo, Or.inr ⟨hi, hhi, ?_⟩⟩
    rw [fromStrRadix16_digits hhi hlo] at h
    exact (Option.some.inj h).symm

/-! ## UTF-8 -/

/-- `as_bytes`. -/
def utf8 (cs : List Char) : List UInt8 := cs.flatMap String.utf8EncodeChar

/-- `from_utf8`. -/
def fromUtf8 (bytes : List UInt8) : Option (List Char) :=
  (String.fromUTF8? bytes.toByteArray).map String.toList

theorem utf8_cons (c : Char) (cs : List Char) :
    utf8 (c :: cs) = String.utf8EncodeChar c ++ utf8 cs := rfl

theorem toByteArray_injective {xs ys : List UInt8} (h : xs.toByteArray = ys.toByteArray) :
    xs = ys := by
  have hdata := congrArg (fun b : ByteArray => b.data.toList) h
  simpa only [List.toList_data_toByteArray] using hdata

theorem utf8_of_fromUtf8 {bytes : List UInt8} {cs : List Char} (h : fromUtf8 bytes = some cs) :
    utf8 cs = bytes := by
  rw [fromUtf8, String.fromUTF8?] at h
  split at h
  · obtain rfl := Option.some.inj h
    exact toByteArray_injective String.utf8Encode_toList
  · cases h

theorem fromUtf8_utf8 (cs : List Char) : fromUtf8 (utf8 cs) = some cs := by
  have hvalid : (utf8 cs).toByteArray.IsValidUTF8 := .intro cs rfl
  have htext : String.fromUTF8 (utf8 cs).toByteArray hvalid = String.ofList cs :=
    String.toByteArray_inj.mp (String.toByteArray_ofList (l := cs)).symm
  rw [fromUtf8, String.fromUTF8?, dif_pos hvalid, htext, Option.map_some, String.toList_ofList]

theorem utf8EncodeChar_ascii {c : Char} (h : c.toNat < 128) :
    String.utf8EncodeChar c = [UInt8.ofNat c.toNat] := by
  have hle : c.val.toNat ≤ 127 := Nat.le_of_lt_succ h
  unfold String.utf8EncodeChar
  exact if_pos hle

/-- Beyond ASCII the last byte is a continuation byte. -/
theorem utf8EncodeChar_high {c : Char} (h : 128 ≤ c.toNat) :
    ∃ x ∈ String.utf8EncodeChar c, 128 ≤ x.toNat := by
  have hgt : ¬ c.val.toNat ≤ 127 := Nat.not_le.mpr h
  have hlast : 128 ≤ (UInt8.ofNat (c.val.toNat % 64 + 128)).toNat := by
    rw [UInt8.toNat_ofNat']
    omega
  refine ⟨UInt8.ofNat (c.val.toNat % 64 + 128), ?_, hlast⟩
  unfold String.utf8EncodeChar
  dsimp only
  rw [if_neg hgt]
  split
  · simp
  · split <;> simp

/-- Every byte of a text is ASCII only if its characters are. -/
theorem ascii_of_utf8 {cs : List Char} (h : ∀ x ∈ utf8 cs, x.toNat < 128) :
    ∀ c ∈ cs, c.toNat < 128 := by
  intro c hc
  apply Nat.lt_of_not_le
  intro hhigh
  obtain ⟨x, hx, hbyte⟩ := utf8EncodeChar_high hhigh
  have hlow := h x (List.mem_flatMap.mpr ⟨c, hc, hx⟩)
  omega

theorem utf8_ascii {cs : List Char} (h : ∀ c ∈ cs, c.toNat < 128) :
    utf8 cs = cs.map fun c => UInt8.ofNat c.toNat := by
  induction cs with
  | nil => rfl
  | cons c cs ih =>
    rw [utf8_cons, utf8EncodeChar_ascii (h c List.mem_cons_self),
      ih fun d hd => h d (List.mem_cons_of_mem c hd)]
    rfl

/-- An ASCII text has one byte for each character. -/
theorem length_utf8 {cs : List Char} (h : ∀ c ∈ cs, c.toNat < 128) :
    (utf8 cs).length = cs.length := by
  rw [utf8_ascii h, List.length_map]

theorem ascii_utf8 {cs : List Char} (h : ∀ c ∈ cs, c.toNat < 128) :
    ∀ x ∈ utf8 cs, x.toNat < 128 := by
  rw [utf8_ascii h]
  intro x hx
  obtain ⟨c, hc, rfl⟩ := List.mem_map.mp hx
  have hlow := h c hc
  rw [UInt8.toNat_ofNat']
  omega

/-! ## Pieces of two bytes -/

/-- `chunks(2)`. -/
def chunks2 {α : Type} : List α → List (List α)
  | [] => []
  | [a] => [[a]]
  | a :: b :: rest => [a, b] :: chunks2 rest

theorem mem_chunks2 {α : Type} {xs : List α} {x : α} (h : x ∈ xs) :
    ∃ chunk ∈ chunks2 xs, x ∈ chunk := by
  induction xs using chunks2.induct with
  | case1 => exact absurd h List.not_mem_nil
  | case2 a => exact ⟨[a], List.mem_cons_self, h⟩
  | case3 a b rest ih =>
    rw [chunks2]
    by_cases hfirst : x ∈ [a, b]
    · exact ⟨[a, b], List.mem_cons_self, hfirst⟩
    · have hrest : x ∈ rest := by
        rcases List.mem_append.mp (show x ∈ [a, b] ++ rest from h) with hin | hin
        · exact absurd hin hfirst
        · exact hin
      obtain ⟨chunk, hchunk, hx⟩ := ih hrest
      exact ⟨chunk, List.mem_cons_of_mem _ hchunk, hx⟩

/-! ## Digit pairs -/

/-- The text is two digits for each of the bytes. -/
inductive Encodes : List Char → List UInt8 → Prop where
  | nil : Encodes [] []
  | pair {c d : Char} {hi lo : Nat} {cs : List Char} {bs : List UInt8} :
      toDigit16 c = some hi → toDigit16 d = some lo → Encodes cs bs →
      Encodes (c :: d :: cs) (UInt8.ofNat (hi * 16 + lo) :: bs)

theorem Encodes.digits {cs : List Char} {bs : List UInt8} (h : Encodes cs bs) :
    cs.length = 2 * bs.length ∧ ∀ c ∈ cs, ∃ d, toDigit16 c = some d := by
  induction h with
  | nil => exact ⟨rfl, fun c hc => absurd hc List.not_mem_nil⟩
  | pair hc hd _ ih =>
    refine ⟨?_, ?_⟩
    · rw [List.length_cons, List.length_cons, ih.1, List.length_cons]
      omega
    · rw [List.forall_mem_cons, List.forall_mem_cons]
      exact ⟨⟨_, hc⟩, ⟨_, hd⟩, ih.2⟩

end Text
end Konstantin
