/-!
# Numbers in texts

Unsigned decimal numbers as `FromStr` reads them, white space as `char` defines
it, and lists of items between separators.

`Separated` says what such a list is, by how it is put together: an item ends
where a separator or the text ends.  `separated_iff` says that splitting at the
separators and reading what is not empty finds exactly these lists.
-/

namespace Konstantin
namespace Text

/-- The code points of the Unicode property `White_Space`. -/
def isWhitespace (c : Char) : Bool :=
  let n := c.toNat
  decide (9 ≤ n ∧ n ≤ 13 ∨ n = 32 ∨ n = 133 ∨ n = 160 ∨ n = 5760 ∨ 8192 ≤ n ∧ n ≤ 8202 ∨
    n = 8232 ∨ n = 8233 ∨ n = 8239 ∨ n = 8287 ∨ n = 12288)

def trim (cs : List Char) : List Char :=
  ((cs.dropWhile isWhitespace).reverse.dropWhile isWhitespace).reverse

theorem trim_of_no_whitespace {cs : List Char} (h : ∀ c ∈ cs, isWhitespace c = false) :
    trim cs = cs := by
  have hkeep : ∀ ds : List Char, (∀ c ∈ ds, isWhitespace c = false) →
      ds.dropWhile isWhitespace = ds := by
    intro ds hds
    cases ds with
    | nil => rfl
    | cons d ds => rw [List.dropWhile_cons, if_neg (by simp [hds d])]
  rw [trim, hkeep cs h, hkeep, List.reverse_reverse]
  intro c hc
  exact h c (List.mem_reverse.mp hc)

/-! ## Unsigned numbers -/

def digitsValue (cs : List Char) : Option Nat :=
  if cs ≠ [] ∧ cs.all Char.isDigit = true then some (Nat.ofDigitChars 10 cs 0) else none

def withoutPlus : List Char → List Char
  | '+' :: cs => cs
  | cs => cs

/-- `FromStr` of an unsigned type with the values below `bound`: a plus sign may
come before the digits. -/
def parseUnsigned (bound : Nat) (cs : List Char) : Option Nat :=
  (digitsValue (withoutPlus cs)).filter (· < bound)

theorem digitsValue_isDigit {cs : List Char} {n : Nat} (h : digitsValue cs = some n) :
    cs ≠ [] ∧ ∀ c ∈ cs, c.isDigit = true := by
  unfold digitsValue at h
  split at h
  · rename_i hcs
    exact ⟨hcs.1, List.all_eq_true.mp hcs.2⟩
  · cases h

theorem withoutPlus_cases (cs : List Char) :
    cs = '+' :: withoutPlus cs ∨ cs = withoutPlus cs := by
  unfold withoutPlus
  split
  · exact Or.inl rfl
  · exact Or.inr rfl

/-- A number is a text of digits and plus signs. -/
theorem chars_of_parseUnsigned {bound n : Nat} {cs : List Char}
    (h : parseUnsigned bound cs = some n) :
    cs ≠ [] ∧ ∀ c ∈ cs, c = '+' ∨ c.isDigit = true := by
  obtain ⟨hne, hdigits⟩ := digitsValue_isDigit (Option.filter_eq_some_iff.mp h).1
  rcases withoutPlus_cases cs with hplus | hsame
  · rw [hplus]
    refine ⟨List.cons_ne_nil _ _, fun c hc => ?_⟩
    rcases List.mem_cons.mp hc with rfl | hrest
    · exact Or.inl rfl
    · exact Or.inr (hdigits c hrest)
  · rw [hsame]
    exact ⟨hne, fun c hc => Or.inr (hdigits c hc)⟩

theorem isDigit_toDigits (n : Nat) : ∀ c ∈ Nat.toDigits 10 n, c.isDigit = true :=
  fun _ hc => Nat.isDigit_of_mem_toDigits (by decide) (by decide) hc

theorem digitsValue_toDigits (n : Nat) : digitsValue (Nat.toDigits 10 n) = some n := by
  rw [digitsValue, if_pos ⟨Nat.toDigits_ne_nil, List.all_eq_true.mpr (isDigit_toDigits n)⟩,
    Nat.ofDigitChars_ten_toDigits]

/-- Whatever `to_string` prints is read back. -/
theorem parseUnsigned_toDigits {bound n : Nat} (h : n < bound) :
    parseUnsigned bound (Nat.toDigits 10 n) = some n := by
  have hread : withoutPlus (Nat.toDigits 10 n) = Nat.toDigits 10 n := by
    rcases withoutPlus_cases (Nat.toDigits 10 n) with hplus | hsame
    · have habs := isDigit_toDigits n '+' (by rw [hplus]; exact List.mem_cons_self)
      cases habs
    · exact hsame.symm
  rw [parseUnsigned, hread, digitsValue_toDigits, Option.filter_some, if_pos (by simpa using h)]

/-! ## Signed numbers -/

/-- `FromStr` of a signed type with the values from `-bound` up to `bound`. -/
def parseSigned (bound : Nat) : List Char → Option Int
  | '-' :: cs => ((digitsValue cs).filter (· ≤ bound)).map fun n : Nat => -(n : Int)
  | cs => (parseUnsigned bound cs).map fun n : Nat => (n : Int)

/-- What `to_string` prints. -/
def signedDigits : Int → List Char
  | .ofNat n => Nat.toDigits 10 n
  | .negSucc n => '-' :: Nat.toDigits 10 (n + 1)

theorem parseSigned_signedDigits {bound : Nat} {i : Int} (hlow : -bound ≤ i) (hhigh : i < bound) :
    parseSigned bound (signedDigits i) = some i := by
  cases i with
  | ofNat n =>
    have hread : parseSigned bound (Nat.toDigits 10 n) =
        (parseUnsigned bound (Nat.toDigits 10 n)).map fun n : Nat => (n : Int) := by
      unfold parseSigned
      split
      · rename_i cs hcs
        have hdigit := isDigit_toDigits n '-' (by rw [hcs]; exact List.mem_cons_self)
        cases hdigit
      · rfl
    have hn : n < bound := by
      have hn : (n : Int) < bound := hhigh
      omega
    rw [signedDigits, hread, parseUnsigned_toDigits hn]
    rfl
  | negSucc n =>
    have hn : n + 1 ≤ bound := by omega
    rw [signedDigits, parseSigned, digitsValue_toDigits, Option.filter_some,
      if_pos (by simpa using hn)]
    rfl

theorem not_isWhitespace_of_isDigit {c : Char} (h : c.isDigit = true) :
    isWhitespace c = false := by
  have hrange : 48 ≤ c.toNat ∧ c.toNat ≤ 57 := by
    simp only [Char.isDigit, Bool.and_eq_true, decide_eq_true_eq, UInt32.le_iff_toNat_le] at h
    exact h
  apply decide_eq_false
  omega

theorem signedDigits_clear (i : Int) :
    signedDigits i ≠ [] ∧ ∀ c ∈ signedDigits i, isWhitespace c = false := by
  have hdigits : ∀ n : Nat, ∀ c ∈ Nat.toDigits 10 n, isWhitespace c = false :=
    fun n c hc => not_isWhitespace_of_isDigit (isDigit_toDigits n c hc)
  cases i with
  | ofNat n => exact ⟨Nat.toDigits_ne_nil, hdigits n⟩
  | negSucc n =>
    refine ⟨List.cons_ne_nil _ _, fun c hc => ?_⟩
    rcases List.mem_cons.mp hc with rfl | hrest
    · decide
    · exact hdigits _ c hrest

/-! ## Separated lists -/

section

variable {α : Type}

/-- `text` is the items `as` with separators before, between and behind them. -/
inductive Separated (sep : Char → Bool) (item : List Char → Option α) :
    List Char → List α → Prop
  | nil : Separated sep item [] []
  | separator {c : Char} {text : List Char} {as : List α} (hc : sep c = true)
      (h : Separated sep item text as) : Separated sep item (c :: text) as
  | item {tok rest : List Char} {a : α} {as : List α} (ha : item tok = some a)
      (hend : rest = [] ∨ ∃ c more, rest = c :: more ∧ sep c = true)
      (h : Separated sep item rest as) : Separated sep item (tok ++ rest) (a :: as)

/-- The items among the pieces of a text, should all pieces that are not empty
be items. -/
def readPieces (item : List Char → Option α) : List (List Char) → Option (List α)
  | [] => some []
  | piece :: pieces =>
    if piece = [] then readPieces item pieces
    else (item piece).bind fun a => (readPieces item pieces).map (a :: ·)

variable {sep : Char → Bool} {item : List Char → Option α}

theorem splitOnP_cases (sep : Char → Bool) (text : List Char) :
    (∀ c ∈ text, sep c = false) ∨
      ∃ piece c rest, text = piece ++ c :: rest ∧ (∀ d ∈ piece, sep d = false) ∧ sep c = true := by
  induction text with
  | nil => exact Or.inl fun c hc => by cases hc
  | cons c text ih =>
    by_cases hc : sep c = true
    · exact Or.inr ⟨[], c, text, rfl, fun d hd => (by cases hd), hc⟩
    · have hc : sep c = false := by simpa using hc
      rcases ih with hall | ⟨piece, d, rest, rfl, hpiece, hd⟩
      · exact Or.inl (List.forall_mem_cons.mpr ⟨hc, hall⟩)
      · exact Or.inr ⟨c :: piece, d, rest, rfl, List.forall_mem_cons.mpr ⟨hc, hpiece⟩, hd⟩

theorem clear_of_mem_splitOnP {text piece : List Char} (h : piece ∈ text.splitOnP sep) :
    ∀ c ∈ piece, sep c = false := by
  rcases splitOnP_cases sep text with hclear | ⟨first, c, rest, htext, hfirst, hc⟩
  · rw [List.splitOnP_eq_singleton hclear] at h
    rw [List.mem_singleton.mp h]
    exact hclear
  · have hshort : rest.length < text.length := by
      rw [htext, List.length_append, List.length_cons]
      omega
    rw [htext, List.splitOnP_append_cons_of_forall_mem hfirst c hc rest] at h
    rcases List.mem_cons.mp h with rfl | hrest
    · exact hfirst
    · exact clear_of_mem_splitOnP hrest
termination_by text.length

theorem readPieces_item {piece : List Char} {pieces : List (List Char)} {a : α}
    (hne : piece ≠ []) (ha : item piece = some a) :
    readPieces item (piece :: pieces) = (readPieces item pieces).map (a :: ·) := by
  rw [readPieces, if_neg hne, ha, Option.bind_some]

/-- Items are not empty and hold no separator. -/
def Solid (sep : Char → Bool) (item : List Char → Option α) : Prop :=
  ∀ tok a, item tok = some a → tok ≠ [] ∧ ∀ c ∈ tok, sep c = false

theorem splitOnP_separator {c : Char} (hc : sep c = true) (text : List Char) :
    (c :: text).splitOnP sep = [] :: text.splitOnP sep := by
  have hempty : ∀ d ∈ ([] : List Char), sep d = false := fun d hd => by cases hd
  exact List.splitOnP_append_cons_of_forall_mem hempty c hc text

theorem readPieces_of_separated (hsolid : Solid sep item) {text : List Char} {as : List α}
    (h : Separated sep item text as) : readPieces item (text.splitOnP sep) = some as := by
  induction h with
  | nil => rfl
  | @separator c text as hc h ih =>
    rw [splitOnP_separator hc, readPieces, if_pos rfl, ih]
  | @item tok rest a as ha hend h ih =>
    obtain ⟨hne, hclear⟩ := hsolid tok a ha
    rcases hend with rfl | ⟨c, more, rfl, hc⟩
    · rw [List.append_nil, List.splitOnP_eq_singleton hclear, readPieces_item hne ha]
      have hrest : readPieces item [[]] = some as := ih
      cases hrest
      rfl
    · rw [splitOnP_separator hc, readPieces, if_pos rfl] at ih
      rw [List.splitOnP_append_cons_of_forall_mem hclear c hc more, readPieces_item hne ha, ih]
      rfl

theorem separated_of_piece {piece rest : List Char} {pieces : List (List Char)} {as : List α}
    (hend : rest = [] ∨ ∃ c more, rest = c :: more ∧ sep c = true)
    (h : readPieces item (piece :: pieces) = some as)
    (hrest : ∀ bs, readPieces item pieces = some bs → Separated sep item rest bs) :
    Separated sep item (piece ++ rest) as := by
  by_cases hpiece : piece = []
  · rw [readPieces, if_pos hpiece] at h
    rw [hpiece, List.nil_append]
    exact hrest as h
  · rw [readPieces, if_neg hpiece] at h
    obtain ⟨a, ha, hmap⟩ := Option.bind_eq_some_iff.mp h
    obtain ⟨bs, hbs, rfl⟩ := Option.map_eq_some_iff.mp hmap
    exact .item ha hend (hrest bs hbs)

theorem separated_of_readPieces {text : List Char} {as : List α}
    (h : readPieces item (text.splitOnP sep) = some as) : Separated sep item text as := by
  rcases splitOnP_cases sep text with hclear | ⟨piece, c, rest, htext, hpiece, hc⟩
  · rw [List.splitOnP_eq_singleton hclear] at h
    have hwhole : Separated sep item (text ++ []) as :=
      separated_of_piece (Or.inl rfl) h fun bs hbs => by
        cases hbs
        exact .nil
    rwa [List.append_nil] at hwhole
  · have hshort : rest.length < text.length := by
      rw [htext, List.length_append, List.length_cons]
      omega
    rw [htext] at h ⊢
    rw [List.splitOnP_append_cons_of_forall_mem hpiece c hc rest] at h
    refine separated_of_piece (Or.inr ⟨c, rest, rfl, hc⟩) h fun bs hbs => ?_
    exact .separator hc (separated_of_readPieces hbs)
termination_by text.length

theorem separated_iff (hsolid : Solid sep item) (text : List Char) (as : List α) :
    Separated sep item text as ↔ readPieces item (text.splitOnP sep) = some as :=
  ⟨readPieces_of_separated hsolid, separated_of_readPieces⟩

end

end Text
end Konstantin
