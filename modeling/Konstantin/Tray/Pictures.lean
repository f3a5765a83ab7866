import Konstantin.Text.Hex

/-!
# The picture of a user

`hex_decode`, `jpeg_from_dict`, `picture_path_from_dict` and `parse_user_plist` of
`crates/tray/src/users.rs`.  The pairs are left to an integer parser, which takes a
plus sign in the place of the first digit.
-/

namespace Konstantin
namespace Tray

open Text

namespace Pictures

/-! ## Hexadecimal texts -/

/-- The text without white space. -/
def stripped (hex : String) : List Char := hex.toList.filter fun c => !isWhitespace c

/-- `from_utf8` and `from_str_radix` of one pair. -/
def decodePair (pair : List UInt8) : Option UInt8 :=
  ((fromUtf8 pair).bind (fromStrRadix16 256)).map UInt8.ofNat

def decodePairs : List (List UInt8) → List UInt8 → Option (List UInt8)
  | [], out => some out
  | pair :: rest, out =>
    match decodePair pair with
    | some b => decodePairs rest (out ++ [b])
    | none => none

def hexDecode (hex : String) : Option (List UInt8) :=
  let bytes := utf8 (stripped hex)
  if stripped hex = [] ∨ bytes.length % 2 ≠ 0 then none else decodePairs (chunks2 bytes) []

/-! ## What the pairs are -/

theorem decodePairs_each {pairs : List (List UInt8)} {out bs : List UInt8}
    (h : decodePairs pairs out = some bs) : ∀ pair ∈ pairs, ∃ b, decodePair pair = some b := by
  induction pairs generalizing out with
  | nil => exact fun pair hpair => absurd hpair List.not_mem_nil
  | cons first rest ih =>
    rw [decodePairs] at h
    cases hfirst : decodePair first with
    | none =>
      rw [hfirst] at h
      cases h
    | some b =>
      rw [hfirst] at h
      intro pair hpair
      rcases List.mem_cons.mp hpair with rfl | hrest
      · exact ⟨b, hfirst⟩
      · exact ih h pair hrest

/-- A pair with a byte beyond ASCII is no number. -/
theorem ascii_of_decodePair {pair : List UInt8} {b : UInt8} (h : decodePair pair = some b) :
    ∀ x ∈ pair, x.toNat < 128 := by
  obtain ⟨n, hn, -⟩ := Option.map_eq_some_iff.mp h
  obtain ⟨cs, hcs, hvalue⟩ := Option.bind_eq_some_iff.mp hn
  rw [← utf8_of_fromUtf8 hcs]
  exact ascii_utf8 (ascii_of_fromStrRadix16 hvalue)

theorem ascii_of_decodePairs {cs : List Char} {bs : List UInt8}
    (h : decodePairs (chunks2 (utf8 cs)) [] = some bs) : ∀ c ∈ cs, c.toNat < 128 := by
  refine ascii_of_utf8 fun x hx => ?_
  obtain ⟨pair, hpair, hin⟩ := mem_chunks2 hx
  obtain ⟨b, hb⟩ := decodePairs_each h pair hpair
  exact ascii_of_decodePair hb x hin

/-- Two ASCII characters are one pair. -/
theorem decodePairs_cons {c d : Char} (hc : c.toNat < 128) (hd : d.toNat < 128)
    (cs : List Char) (out : List UInt8) :
    decodePairs (chunks2 (utf8 (c :: d :: cs))) out =
      match (fromStrRadix16 256 [c, d]).map UInt8.ofNat with
      | some b => decodePairs (chunks2 (utf8 cs)) (out ++ [b])
      | none => none := by
  have hpair : fromUtf8 [UInt8.ofNat c.toNat, UInt8.ofNat d.toNat] = some [c, d] := by
    have hcs := fromUtf8_utf8 [c, d]
    rw [utf8_cons, utf8_cons, utf8EncodeChar_ascii hc, utf8EncodeChar_ascii hd] at hcs
    exact hcs
  rw [utf8_cons, utf8_cons, utf8EncodeChar_ascii hc, utf8EncodeChar_ascii hd]
  show decodePairs ([UInt8.ofNat c.toNat, UInt8.ofNat d.toNat] :: chunks2 (utf8 cs)) out = _
  rw [decodePairs, decodePair, hpair]
  rfl

theorem decodePairs_encodes {cs : List Char} {bs : List UInt8} (h : Encodes cs bs)
    (out : List UInt8) : decodePairs (chunks2 (utf8 cs)) out = some (out ++ bs) := by
  induction h generalizing out with
  | nil => rw [List.append_nil]; rfl
  | pair hc hd _ ih =>
    rw [decodePairs_cons (toDigit16_bounds hc).2 (toDigit16_bounds hd).2,
      fromStrRadix16_digits hc hd]
    dsimp only [Option.map_some]
    rw [ih, List.append_assoc]
    rfl

/-- The pairs that are accepted: a hexadecimal digit, or a plus sign before one. -/
def signedPairs : List Char → Bool
  | [] => true
  | [_] => false
  | c :: d :: cs =>
    (c == '+' || (toDigit16 c).isSome) && (toDigit16 d).isSome && signedPairs cs

theorem signedPairs_cons {c d : Char} {cs : List Char} :
    signedPairs (c :: d :: cs) = true ↔
      (c = '+' ∨ ∃ hi, toDigit16 c = some hi) ∧ (∃ lo, toDigit16 d = some lo) ∧
        signedPairs cs = true := by
  rw [signedPairs, Bool.and_eq_true, Bool.and_eq_true, Bool.or_eq_true, beq_iff_eq,
    Option.isSome_iff_exists, Option.isSome_iff_exists, and_assoc]

theorem signedPairs_chars {cs : List Char} (h : signedPairs cs = true) :
    cs.length % 2 = 0 ∧ ∀ c ∈ cs, c.toNat < 128 := by
  induction cs using signedPairs.induct with
  | case1 => exact ⟨rfl, fun c hc => absurd hc List.not_mem_nil⟩
  | case2 a => cases h
  | case3 c d cs ih =>
    obtain ⟨hc, ⟨lo, hd⟩, hcs⟩ := signedPairs_cons.mp h
    obtain ⟨heven, hascii⟩ := ih hcs
    have hfirst : c.toNat < 128 := by
      rcases hc with rfl | ⟨hi, hhi⟩
      · decide
      · exact (toDigit16_bounds hhi).2
    refine ⟨?_, ?_⟩
    · rw [List.length_cons, List.length_cons]
      omega
    · rw [List.forall_mem_cons, List.forall_mem_cons]
      exact ⟨hfirst, (toDigit16_bounds hd).2, hascii⟩

/-- Accepted pairs are digits where there is no plus sign. -/
theorem decodePairs_signed {cs : List Char} (h : signedPairs cs = true) (out : List UInt8) :
    ∃ bs, decodePairs (chunks2 (utf8 cs)) out = some (out ++ bs) ∧
      ('+' ∉ cs → Encodes cs bs) := by
  induction cs using signedPairs.induct generalizing out with
  | case1 => exact ⟨[], by rw [List.append_nil]; rfl, fun _ => .nil⟩
  | case2 a => cases h
  | case3 c d cs ih =>
    have hascii := (signedPairs_chars h).2
    rw [List.forall_mem_cons, List.forall_mem_cons] at hascii
    obtain ⟨hfirst, hsecond, -⟩ := hascii
    obtain ⟨hc, ⟨lo, hd⟩, hcs⟩ := signedPairs_cons.mp h
    rw [decodePairs_cons hfirst hsecond]
    rcases hc with rfl | ⟨hi, hhi⟩
    · obtain ⟨bs, hbs, -⟩ := ih hcs (out ++ [UInt8.ofNat lo])
      rw [fromStrRadix16_plus hd]
      dsimp only [Option.map_some]
      refine ⟨UInt8.ofNat lo :: bs, ?_, fun hno => absurd List.mem_cons_self hno⟩
      rw [hbs, List.append_assoc]
      rfl
    · obtain ⟨bs, hbs, hencodes⟩ := ih hcs (out ++ [UInt8.ofNat (hi * 16 + lo)])
      rw [fromStrRadix16_digits hhi hd]
      dsimp only [Option.map_some]
      refine ⟨UInt8.ofNat (hi * 16 + lo) :: bs, ?_, fun hno => ?_⟩
      · rw [hbs, List.append_assoc]
        rfl
      · refine .pair hhi hd (hencodes fun hin => hno ?_)
        exact List.mem_cons_of_mem c (List.mem_cons_of_mem d hin)

theorem signed_of_decodePairs {cs : List Char} (heven : cs.length % 2 = 0)
    (hascii : ∀ c ∈ cs, c.toNat < 128) {out bs : List UInt8}
    (h : decodePairs (chunks2 (utf8 cs)) out = some bs) : signedPairs cs = true := by
  induction cs using signedPairs.induct generalizing out with
  | case1 => rfl
  | case2 a => exact absurd heven (by simp)
  | case3 c d cs ih =>
    rw [List.forall_mem_cons, List.forall_mem_cons] at hascii
    obtain ⟨hfirst, hsecond, hrestAscii⟩ := hascii
    rw [decodePairs_cons hfirst hsecond] at h
    cases hvalue : fromStrRadix16 256 [c, d] with
    | none =>
      rw [hvalue] at h
      cases h
    | some n =>
      rw [hvalue] at h
      have hrest : cs.length % 2 = 0 := by
        rw [List.length_cons, List.length_cons] at heven
        omega
      have hcs := ih hrest hrestAscii h
      obtain ⟨lo, hlo, hor⟩ := fromStrRadix16_cases hvalue
      refine signedPairs_cons.mpr ⟨?_, ⟨lo, hlo⟩, hcs⟩
      rcases hor with ⟨rfl, -⟩ | ⟨hi, hhi, -⟩
      · exact Or.inl rfl
      · exact Or.inr ⟨hi, hhi⟩

/-- The texts that are accepted. -/
theorem hexDecode_isSome_iff (hex : String) :
    (∃ bs, hexDecode hex = some bs) ↔ stripped hex ≠ [] ∧ signedPairs (stripped hex) = true := by
  unfold hexDecode
  dsimp only
  constructor
  · rintro ⟨bs, h⟩
    split at h
    · cases h
    · rename_i hguard
      rw [not_or, ne_eq, not_not] at hguard
      have hascii := ascii_of_decodePairs h
      have heven := hguard.2
      rw [length_utf8 hascii] at heven
      exact ⟨hguard.1, signed_of_decodePairs heven hascii h⟩
  · rintro ⟨hne, hsigned⟩
    obtain ⟨heven, hascii⟩ := signedPairs_chars hsigned
    have hlength : (utf8 (stripped hex)).length % 2 = 0 := by
      rw [length_utf8 hascii]
      exact heven
    obtain ⟨bs, hbs, -⟩ := decodePairs_signed hsigned []
    rw [if_neg (not_or.mpr ⟨hne, not_not.mpr hlength⟩)]
    exact ⟨[] ++ bs, hbs⟩

theorem hexDecode_of_encodes {hex : String} {bs : List UInt8} (hne : bs ≠ [])
    (h : Encodes (stripped hex) bs) : hexDecode hex = some bs := by
  have hdigits := h.digits
  have hascii : ∀ c ∈ stripped hex, c.toNat < 128 := by
    intro c hc
    obtain ⟨d, hd⟩ := hdigits.2 c hc
    exact (toDigit16_bounds hd).2
  have hsome : stripped hex ≠ [] := by
    intro hnil
    have hlength := hdigits.1
    rw [hnil, List.length_nil] at hlength
    exact hne (List.eq_nil_of_length_eq_zero (by omega))
  have hlength : (utf8 (stripped hex)).length % 2 = 0 := by
    rw [length_utf8 hascii, hdigits.1]
    omega
  unfold hexDecode
  dsimp only
  rw [if_neg (not_or.mpr ⟨hsome, not_not.mpr hlength⟩), decodePairs_encodes h, List.nil_append]

/-! ## Where hexadecimal is all that is accepted -/

/-- `hexDecode` takes this text exactly if it is the hexadecimal of some bytes, and
gives these. -/
structure ExactlyHex (hex : String) : Prop where
  exact : ∀ bs, hexDecode hex = some bs ↔
    stripped hex ≠ [] ∧ (stripped hex).length % 2 = 0 ∧
      (∀ c ∈ stripped hex, (toDigit16 c).isSome = true) ∧ Encodes (stripped hex) bs
  roundTrip : ∀ bs, bs ≠ [] → Encodes (stripped hex) bs → hexDecode hex = some bs
  others : (∀ bs, bs ≠ [] → ¬ Encodes (stripped hex) bs) → hexDecode hex = none

/-- The text is not made of hexadecimal digits and plus signs, each plus sign the
first of a pair and before a digit. -/
def NoSignedPair (hex : String) : Prop :=
  ¬ (signedPairs (stripped hex) = true ∧ '+' ∈ stripped hex)

theorem encodes_of_hexDecode {hex : String} (hclean : NoSignedPair hex) {bs : List UInt8}
    (h : hexDecode hex = some bs) : stripped hex ≠ [] ∧ Encodes (stripped hex) bs := by
  obtain ⟨hne, hsigned⟩ := (hexDecode_isSome_iff hex).mp ⟨bs, h⟩
  have hplus : '+' ∉ stripped hex := fun hin => hclean ⟨hsigned, hin⟩
  obtain ⟨bytes, hbytes, hencodes⟩ := decodePairs_signed hsigned []
  have hdecode := hencodes hplus
  have hsome : bytes ≠ [] := by
    rintro rfl
    exact hne (List.eq_nil_of_length_eq_zero hdecode.digits.1)
  rw [hexDecode_of_encodes hsome hdecode] at h
  exact ⟨hne, Option.some.inj h ▸ hdecode⟩

theorem not_exactlyHex_of_plus {hex : String} {bs : List UInt8} (h : hexDecode hex = some bs)
    (hplus : '+' ∈ stripped hex) : ¬ ExactlyHex hex := by
  intro hexact
  have hdigit := ((hexact.exact bs).mp h).2.2.1 '+' hplus
  exact absurd hdigit (by decide)

theorem exactlyHex_iff (hex : String) : ExactlyHex hex ↔ NoSignedPair hex := by
  constructor
  · rintro hexact ⟨hsigned, hplus⟩
    obtain ⟨bs, hbs⟩ := (hexDecode_isSome_iff hex).mpr ⟨List.ne_nil_of_mem hplus, hsigned⟩
    exact not_exactlyHex_of_plus hbs hplus hexact
  · intro hclean
    have hround : ∀ bs, bs ≠ [] → Encodes (stripped hex) bs → hexDecode hex = some bs :=
      fun bs hne henc => hexDecode_of_encodes hne henc
    refine ⟨fun bs => ⟨fun h => ?_, fun h => ?_⟩, hround, fun hnone => ?_⟩
    · obtain ⟨hne, henc⟩ := encodes_of_hexDecode hclean h
      have hdigits := henc.digits
      refine ⟨hne, by omega, fun c hc => ?_, henc⟩
      exact Option.isSome_iff_exists.mpr (hdigits.2 c hc)
    · refine hround bs ?_ h.2.2.2
      rintro rfl
      exact h.1 (List.eq_nil_of_length_eq_zero h.2.2.2.digits.1)
    · rw [Option.eq_none_iff_forall_ne_some]
      intro bs h
      obtain ⟨hne, henc⟩ := encodes_of_hexDecode hclean h
      refine hnone bs ?_ henc
      rintro rfl
      exact hne (List.eq_nil_of_length_eq_zero henc.digits.1)

/-- `+f` is taken for the byte 15. -/
theorem exactlyHex_fails : hexDecode "+f" = some [15] ∧ ¬ ExactlyHex "+f" := by
  have hdecode : hexDecode "+f" = some [15] := by
    unfold hexDecode
    show decodePairs (chunks2 (utf8 ['+', 'f'])) [] = some [15]
    have hdigit : toDigit16 'f' = some 15 := rfl
    rw [decodePairs_cons (by decide) (by decide), fromStrRadix16_plus hdigit]
    rfl
  exact ⟨hdecode, not_exactlyHex_of_plus hdecode (by decide)⟩

/-! ## The attributes of a user -/

/-- The values of a property list that are looked at, `other` for the rest. -/
inductive PlistValue where
  | array (items : List PlistValue)
  | data (bytes : List UInt8)
  | string (text : String)
  | other

def PlistValue.asArray : PlistValue → Option (List PlistValue)
  | .array items => some items
  | _ => none

def PlistValue.asString : PlistValue → Option String
  | .string text => some text
  | _ => none

inductive UserPicture where
  | file (path : String)
  | jpeg (bytes : List UInt8)
deriving DecidableEq

structure UserAttributes where
  home : Option String
  picture : Option UserPicture

abbrev Dictionary := String → Option PlistValue

def firstString (v : PlistValue) : Option String :=
  v.asArray.bind fun items => items.findSome? PlistValue.asString

/-- The bytes of one item of the attribute, as data or as hexadecimal text. -/
def jpegBytes : PlistValue → Option (List UInt8)
  | .data bytes => some bytes
  | item => item.asString.bind hexDecode

def jpegFromDict (dict : Dictionary) : Option UserPicture :=
  (dict "dsAttrTypeStandard:JPEGPhoto").bind fun v => v.asArray.bind fun items =>
    (items.findSome? jpegBytes).bind fun bytes =>
      if bytes.isEmpty then none else some (.jpeg bytes)

def picturePathFromDict (isFile : String → Bool) (dict : Dictionary) : Option UserPicture :=
  ((dict "dsAttrTypeStandard:Picture").bind firstString).bind fun raw =>
    let path := trim raw.toList
    if path.isEmpty then none
    else if isFile (String.ofList path) then some (.file (String.ofList path)) else none

/-- `parse_user_plist` behind the root of the property list. -/
def parseUserPlist (isFile : String → Bool) (dict : Dictionary) : UserAttributes where
  home := (dict "dsAttrTypeStandard:NFSHomeDirectory").bind firstString
  picture := (jpegFromDict dict).or (picturePathFromDict isFile dict)

/-- The hexadecimal text of a photo is shown as that photo, in any layout, whatever
else is known of the user. -/
theorem picture_of_hex {isFile : String → Bool} {dict : Dictionary} {hex : String}
    {bs : List UInt8} {rest : List PlistValue} (hne : bs ≠ [])
    (hphoto : dict "dsAttrTypeStandard:JPEGPhoto" = some (.array (.string hex :: rest)))
    (henc : Encodes (stripped hex) bs) :
    (parseUserPlist isFile dict).picture = some (.jpeg bs) := by
  have hbytes : jpegBytes (.string hex) = some bs := hexDecode_of_encodes hne henc
  have hjpeg : jpegFromDict dict = some (.jpeg bs) := by
    unfold jpegFromDict
    rw [hphoto]
    show ((PlistValue.string hex :: rest).findSome? jpegBytes).bind _ = _
    rw [List.findSome?_cons, hbytes]
    show (if bs.isEmpty then none else some (UserPicture.jpeg bs)) = _
    rw [if_neg fun hempty => hne (List.isEmpty_iff.mp hempty)]
  show (jpegFromDict dict).or _ = _
  rw [hjpeg, Option.some_or]

/-- A picture has bytes, or is a file that exists. -/
theorem picture_usable {isFile : String → Bool} {dict : Dictionary} {picture : UserPicture}
    (h : (parseUserPlist isFile dict).picture = some picture) :
    (∃ bs, picture = .jpeg bs ∧ bs ≠ []) ∨ ∃ path, picture = .file path ∧ isFile path = true := by
  rcases Option.or_eq_some_iff.mp h with hjpeg | ⟨-, hpath⟩
  · left
    obtain ⟨v, -, hv⟩ := Option.bind_eq_some_iff.mp hjpeg
    obtain ⟨items, -, hitems⟩ := Option.bind_eq_some_iff.mp hv
    obtain ⟨bs, -, hbs⟩ := Option.bind_eq_some_iff.mp hitems
    split at hbs
    · cases hbs
    · rename_i hempty
      obtain rfl := Option.some.inj hbs
      exact ⟨bs, rfl, fun hnil => hempty (List.isEmpty_iff.mpr hnil)⟩
  · right
    obtain ⟨raw, -, hraw⟩ := Option.bind_eq_some_iff.mp hpath
    dsimp only at hraw
    split at hraw
    · cases hraw
    · split at hraw
      · rename_i hfile
        obtain rfl := Option.some.inj hraw
        exact ⟨_, rfl, hfile⟩
      · cases hraw

end Pictures
end Tray
end Konstantin
