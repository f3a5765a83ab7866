import Konstantin.Daemon.Auth

/-!
# What dscl prints of a group

A record is printed as preamble lines and its attributes, each on one line or with
one indented line per value.  `parseAdminMembers` of such a text gives the values of
the attribute `GroupMembership` and nothing else: the section starts at its header
and stops at the latest at the next attribute, whose header has a colon.
-/

namespace Konstantin
namespace Daemon

open Text

inductive Layout where
  | inline
  | wrapped
deriving DecidableEq

/-- An attribute and the layout it is printed in.  Its name stands on one line. -/
structure Attribute where
  name : String
  values : List String
  layout : Layout
  one_line : '\n' ∉ name.toList

namespace Attribute

/-- `Name: v1 v2 ...`, or `Name:` and one indented line per value. -/
def text (a : Attribute) : List Char :=
  match a.layout with
  | .inline => a.name.toList ++ ':' :: (a.values.flatMap fun v => ' ' :: v.toList) ++ ['\n']
  | .wrapped =>
    a.name.toList ++ ':' :: '\n' :: a.values.flatMap fun v => ' ' :: v.toList ++ ['\n']

def isMembership (a : Attribute) : Bool := a.name == "GroupMembership"

end Attribute

structure GroupRecord where
  preamble : List String
  attributes : List Attribute

namespace GroupRecord

def text (r : GroupRecord) : List Char :=
  r.preamble.flatMap (fun line => line.toList ++ ['\n']) ++ r.attributes.flatMap Attribute.text

def print (r : GroupRecord) : String := String.ofList r.text

/-- The values of `GroupMembership`, none when it is absent. -/
def members (r : GroupRecord) : List String :=
  (r.attributes.filter Attribute.isMembership).flatMap Attribute.values

/-- No line of the text starts, after leading blanks, with `GroupMembership:`. -/
def NoHeader (cs : List Char) : Prop :=
  ∀ line ∈ lines cs, ¬ membershipLabel.toList <+: trimStart line

/-- `GroupMembership` at most once, its values words without a colon, and its header
nowhere else. -/
structure Readable (r : GroupRecord) : Prop where
  once : (r.attributes.filter Attribute.isMembership).length ≤ 1
  values : ∀ v ∈ r.members, v ≠ "" ∧ ∀ c ∈ v.toList, isWhitespace c = false ∧ c ≠ ':'
  preamble : ∀ line ∈ r.preamble, NoHeader (line.toList ++ ['\n'])
  others : ∀ a ∈ r.attributes, a.isMembership = false → NoHeader a.text

end GroupRecord

/-! ## Lines that are headers and lines that end the section -/

theorem isHeader_iff {line : List Char} :
    isHeader line = true ↔ membershipLabel.toList <+: trimStart line := by
  rw [isHeader]
  cases hlabel : behindLabel membershipLabel line with
  | some behind => exact ⟨fun _ => ⟨behind, behindLabel_eq_some.mp hlabel⟩, fun _ => rfl⟩
  | none => exact ⟨fun h => (Bool.false_ne_true h).elim,
      fun h => absurd h (behindLabel_eq_none.mp hlabel)⟩

theorem isHeader_of_noHeader {cs line : List Char} (h : GroupRecord.NoHeader cs)
    (hline : line ∈ lines cs) : isHeader line = false := by
  rw [Bool.eq_false_iff]
  exact fun hheader => h line hline (isHeader_iff.mp hheader)

theorem mem_trim_colon {line : List Char} (h : ':' ∈ line) : ':' ∈ trim line :=
  mem_trim h (by decide)

theorem endsMembers_of_colon {line : List Char} (hheader : isHeader line = false)
    (hcolon : ':' ∈ line) : endsMembers line = true := by
  have hmem : decide (':' ∈ trim line) = true := decide_eq_true (mem_trim_colon hcolon)
  rw [endsMembers, hheader, hmem, Bool.or_true]
  rfl

theorem behindLabel_header (behind : List Char) :
    behindLabel membershipLabel (membershipLabel.toList ++ behind) = some behind :=
  behindLabel_eq_some.mpr rfl

/-! ## The lines of an attribute -/

namespace Attribute

theorem wholeLines_text (a : Attribute) : WholeLines a.text := by
  unfold text
  cases a.layout with
  | inline => exact wholeLines_lf _
  | wrapped =>
    have hvalues : WholeLines (a.values.flatMap fun v => ' ' :: v.toList ++ ['\n']) :=
      wholeLines_flatMap fun v _ => wholeLines_lf (' ' :: v.toList)
    have hname := wholeLines_append (wholeLines_lf (a.name.toList ++ [':'])) hvalues
    rw [List.append_assoc, List.append_assoc] at hname
    exact hname

theorem text_eq (a : Attribute) : ∃ more, a.text = a.name.toList ++ ':' :: more := by
  unfold text
  cases a.layout with
  | inline => exact ⟨_, List.append_assoc _ _ _⟩
  | wrapped => exact ⟨_, rfl⟩

/-- An attribute starts with a line that has a colon. -/
theorem lines_text (a : Attribute) :
    ∃ first rest, lines a.text = first :: rest ∧ ':' ∈ first := by
  obtain ⟨more, hmore⟩ := a.text_eq
  obtain ⟨first, rest, hlines, hfirst⟩ :=
    lines_first (c := ':') a.one_line (by decide) (by decide) more
  refine ⟨first, rest, hmore ▸ hlines, hfirst.subset ?_⟩
  exact List.mem_append_right _ List.mem_cons_self

end Attribute

/-! ## The lines of the membership attribute -/

section Values

variable {values : List String}
  (hvalues : ∀ v ∈ values, v ≠ "" ∧ ∀ c ∈ v.toList, isWhitespace c = false ∧ c ≠ ':')

include hvalues

theorem names_values :
    names (values.flatMap fun v => ' ' :: v.toList) = values.toFinset := by
  have hsolid : ∀ w ∈ values.map String.toList, w ≠ [] ∧ ∀ c ∈ w, isWhitespace c = false := by
    intro w hw
    obtain ⟨v, hv, rfl⟩ := List.mem_map.mp hw
    have hvalue := hvalues v hv
    refine ⟨?_, fun c hc => (hvalue.2 c hc).1⟩
    exact fun hnil => hvalue.1 (String.toList_eq_nil_iff.mp hnil)
  have hwords := words_flatMap_blank hsolid
  rw [List.flatMap_map] at hwords
  rw [names, hwords, List.map_map]
  have hid : String.ofList ∘ String.toList = id := funext fun v => String.ofList_toList
  rw [hid, List.map_id]

theorem names_value {v : String} (hv : v ∈ values) : names (' ' :: v.toList) = {v} := by
  have hsingle : ∀ w ∈ [v], w ≠ "" ∧ ∀ c ∈ w.toList, isWhitespace c = false ∧ c ≠ ':' := by
    intro w hw
    rw [List.mem_singleton.mp hw]
    exact hvalues v hv
  have hone := names_values hsingle
  rw [List.flatMap_cons, List.flatMap_nil, List.append_nil] at hone
  exact hone

/-- The only white space of an indented value is its indent. -/
theorem no_break {c : Char} (hc : isWhitespace c = true) (hblank : c ≠ ' ') {v : String}
    (hv : v ∈ values) : c ∉ ' ' :: v.toList := by
  intro hmem
  rcases List.mem_cons.mp hmem with hspace | hin
  · exact hblank hspace
  · rw [((hvalues v hv).2 c hin).1] at hc
    exact absurd hc (by decide)

/-- An indented value is a line of the section that lists it. -/
theorem value_line {v : String} (hv : v ∈ values) :
    endsMembers (' ' :: v.toList) = false ∧ listed (' ' :: v.toList) = {v} := by
  have hcolon : ':' ∉ ' ' :: v.toList := by
    intro hmem
    rcases List.mem_cons.mp hmem with hblank | hin
    · exact absurd hblank (by decide)
    · exact ((hvalues v hv).2 ':' hin).2 rfl
  have hlabel : behindLabel membershipLabel (' ' :: v.toList) = none := by
    rw [behindLabel_eq_none]
    intro hprefix
    have hmem : ':' ∈ trimStart (' ' :: v.toList) := hprefix.subset (by decide)
    exact hcolon ((List.dropWhile_sublist _).subset hmem)
  have htrim : trim (' ' :: v.toList) = v.toList :=
    trim_of_no_whitespace fun c hc => ((hvalues v hv).2 c hc).1
  have hsome : v.toList ≠ [] := fun hnil => (hvalues v hv).1 (String.toList_eq_nil_iff.mp hnil)
  constructor
  · have hclear : ':' ∉ v.toList := fun hin => hcolon (List.mem_cons_of_mem ' ' hin)
    rw [endsMembers, htrim, decide_eq_false hsome, decide_eq_false hclear]
    exact Bool.and_false _
  · rw [listed_of_not_header hlabel, names_value hvalues hv]

theorem value_lines : lines (values.flatMap fun v => ' ' :: v.toList ++ ['\n']) =
    values.map fun v => ' ' :: v.toList := by
  induction values with
  | nil => rfl
  | cons v vs ih =>
    have hlf : '\n' ∉ ' ' :: v.toList :=
      no_break hvalues (by decide) (by decide) List.mem_cons_self
    have hcr : '\r' ∉ ' ' :: v.toList :=
      no_break hvalues (by decide) (by decide) List.mem_cons_self
    rw [List.flatMap_cons, List.append_assoc, List.singleton_append, lines_line hlf,
      withoutCr_of_not_mem hcr, ih fun w hw => hvalues w (List.mem_cons_of_mem v hw),
      List.map_cons]

theorem listedIn_values : listedIn (values.map fun v => ' ' :: v.toList) = values.toFinset := by
  induction values with
  | nil => rfl
  | cons v vs ih =>
    rw [List.map_cons, listedIn_cons, (value_line hvalues List.mem_cons_self).2,
      ih fun w hw => hvalues w (List.mem_cons_of_mem v hw), List.toFinset_cons,
      Finset.insert_eq]

/-- In both layouts the attribute is a header and lines of the section, which
together list the values. -/
theorem lines_membership {a : Attribute} (hname : a.isMembership = true)
    (ha : a.values = values) :
    ∃ behind tail, lines a.text = (membershipLabel.toList ++ behind) :: tail ∧
      (∀ line ∈ tail, endsMembers line = false) ∧
      names behind ∪ listedIn tail = values.toFinset := by
  have hlabel : a.name.toList ++ [':'] = membershipLabel.toList := by
    rw [beq_iff_eq.mp hname]
    rfl
  unfold Attribute.text
  rw [ha]
  cases a.layout with
  | inline =>
    have hclear : ∀ {c : Char}, isWhitespace c = true → c ≠ ' ' → c ∉ membershipLabel.toList →
        c ∉ membershipLabel.toList ++ values.flatMap fun v => ' ' :: v.toList := by
      intro c hc hblank hout hmem
      rcases List.mem_append.mp hmem with hin | hin
      · exact hout hin
      · obtain ⟨v, hv, hin⟩ := List.mem_flatMap.mp hin
        exact no_break hvalues hc hblank hv hin
    refine ⟨values.flatMap fun v => ' ' :: v.toList, [], ?_, fun line hline => ?_, ?_⟩
    · show lines (a.name.toList ++ ':' :: (values.flatMap fun v => ' ' :: v.toList) ++ ['\n']) = _
      rw [List.append_cons a.name.toList, hlabel,
        lines_line (hclear (by decide) (by decide) (by decide)),
        withoutCr_of_not_mem (hclear (by decide) (by decide) (by decide)), lines_nil]
    · exact absurd hline List.not_mem_nil
    · rw [names_values hvalues]
      exact Finset.union_empty _
  | wrapped =>
    refine ⟨[], values.map fun v => ' ' :: v.toList, ?_, fun line hline => ?_, ?_⟩
    · show lines (a.name.toList ++
        ':' :: '\n' :: values.flatMap fun v => ' ' :: v.toList ++ ['\n']) = _
      rw [List.append_cons, hlabel, lines_line (by decide), withoutCr_of_not_mem (by decide),
        value_lines hvalues, List.append_nil]
    · obtain ⟨v, hv, rfl⟩ := List.mem_map.mp hline
      exact (value_line hvalues hv).1
    · rw [listedIn_values hvalues]
      exact Finset.empty_union _

end Values

/-! ## The section of a record -/

namespace GroupRecord

theorem lines_text (r : GroupRecord) :
    lines r.text = (r.preamble.flatMap fun line => lines (line.toList ++ ['\n'])) ++
      r.attributes.flatMap fun a => lines a.text := by
  have hline : ∀ line ∈ r.preamble, WholeLines (line.toList ++ ['\n']) :=
    fun line _ => wholeLines_lf line.toList
  have hattribute : ∀ a ∈ r.attributes, WholeLines a.text := fun a _ => a.wholeLines_text
  have hattributes := lines_flatMap hattribute
  have hend := hattributes []
  rw [List.append_nil, lines_nil, List.append_nil] at hend
  rw [text, lines_flatMap hline, hend]

/-- No line before the membership attribute is a header. -/
theorem outside_of_others {attributes : List Attribute}
    (h : ∀ a ∈ attributes, a.isMembership = false ∧ NoHeader a.text) :
    ∀ line ∈ attributes.flatMap fun a => lines a.text, isHeader line = false := by
  intro line hline
  obtain ⟨a, ha, hin⟩ := List.mem_flatMap.mp hline
  exact isHeader_of_noHeader (h a ha).2 hin

theorem takeWhile_others {attributes : List Attribute}
    (h : ∀ a ∈ attributes, a.isMembership = false ∧ NoHeader a.text) :
    (attributes.flatMap fun a => lines a.text).takeWhile (fun l => !endsMembers l) = [] := by
  cases attributes with
  | nil => rfl
  | cons a as =>
    obtain ⟨first, rest, hlines, hcolon⟩ := a.lines_text
    have hfirst : isHeader first = false :=
      isHeader_of_noHeader (h a List.mem_cons_self).2 (hlines ▸ List.mem_cons_self)
    rw [List.flatMap_cons, hlines, List.cons_append, List.takeWhile_cons,
      endsMembers_of_colon hfirst hcolon]
    rfl

theorem fromHeader_append {before : List (List Char)} (hbefore : ∀ l ∈ before, isHeader l = false)
    (ls : List (List Char)) : fromHeader (before ++ ls) = fromHeader ls := by
  rw [fromHeader, List.dropWhile_append_of_pos fun l hl => by rw [hbefore l hl]; rfl, fromHeader]

/-- The lines before the attributes have no header. -/
theorem outside_of_preamble {r : GroupRecord} (hr : r.Readable) :
    ∀ l ∈ r.preamble.flatMap fun line => lines (line.toList ++ ['\n']), isHeader l = false := by
  intro l hl
  obtain ⟨line, hline, hin⟩ := List.mem_flatMap.mp hl
  exact isHeader_of_noHeader (hr.preamble line hline) hin

theorem parse_of_absent {r : GroupRecord} (hr : r.Readable)
    (habsent : ∀ a ∈ r.attributes, a.isMembership = false) : parseAdminMembers r.print = ∅ := by
  have hnone := outside_of_others fun a ha => ⟨habsent a ha, hr.others a ha (habsent a ha)⟩
  have hfrom := fromHeader_append hnone []
  rw [List.append_nil] at hfrom
  rw [parseAdminMembers_eq, print, String.toList_ofList, r.lines_text,
    fromHeader_append (outside_of_preamble hr), hfrom]
  rfl

/-- The section goes from the header of the membership attribute to its end. -/
theorem parse_of_present {r : GroupRecord} (hr : r.Readable) {before after : List Attribute}
    {m : Attribute} (hsplit : r.attributes = before ++ m :: after) (hm : m.isMembership = true)
    (hbefore : ∀ a ∈ before, a.isMembership = false ∧ NoHeader a.text)
    (hafter : ∀ a ∈ after, a.isMembership = false ∧ NoHeader a.text)
    (hvalues : ∀ v ∈ m.values, v ≠ "" ∧ ∀ c ∈ v.toList, isWhitespace c = false ∧ c ≠ ':') :
    parseAdminMembers r.print = m.values.toFinset := by
  obtain ⟨behind, tail, hlines, htail, hlisted⟩ := lines_membership hvalues hm rfl
  have hlabel := behindLabel_header behind
  have hheader : isHeader (membershipLabel.toList ++ behind) = true := by
    rw [isHeader, hlabel]
    rfl
  have hgo : endsMembers (membershipLabel.toList ++ behind) = false := by
    rw [endsMembers, hheader]
    rfl
  have hfrom : fromHeader (lines r.text) = (membershipLabel.toList ++ behind) ::
      (tail ++ after.flatMap fun a => lines a.text) := by
    rw [r.lines_text, fromHeader_append (outside_of_preamble hr), hsplit, List.flatMap_append,
      fromHeader_append (outside_of_others hbefore), List.flatMap_cons, hlines, List.cons_append,
      fromHeader, List.dropWhile_cons, hheader]
    rfl
  rw [parseAdminMembers_eq, print, String.toList_ofList, hfrom, List.takeWhile_cons, hgo,
    if_pos (by rfl), List.takeWhile_append_of_pos fun l hl => by rw [htail l hl]; rfl,
    takeWhile_others hafter, List.append_nil, listedIn_cons, listed_of_header hlabel, hlisted]

end GroupRecord

open GroupRecord

/-- The members of a printed record are the values of its membership attribute. -/
theorem parseAdminMembers_print (r : GroupRecord) (hr : r.Readable) :
    parseAdminMembers r.print = r.members.toFinset ∧
      ((∀ a ∈ r.attributes, a.isMembership = false) → parseAdminMembers r.print = ∅) := by
  refine ⟨?_, parse_of_absent hr⟩
  have hothers : ∀ a ∈ r.attributes, ¬ a.isMembership = true →
      a.isMembership = false ∧ NoHeader a.text := by
    intro a ha hno
    exact ⟨Bool.eq_false_iff.mpr hno, hr.others a ha (Bool.eq_false_iff.mpr hno)⟩
  cases hfilter : r.attributes.filter Attribute.isMembership with
  | nil =>
    rw [parse_of_absent hr fun a ha =>
      Bool.eq_false_iff.mpr (List.filter_eq_nil_iff.mp hfilter a ha), members, hfilter]
    rfl
  | cons m ms =>
    have hone := hr.once
    rw [hfilter, List.length_cons] at hone
    have hms : ms = [] := List.eq_nil_of_length_eq_zero (by omega)
    subst hms
    have hvalues : r.members = m.values := by
      rw [members, hfilter, List.flatMap_cons, List.flatMap_nil, List.append_nil]
    obtain ⟨before, after, hsplit, hbefore, hm, hafter⟩ := List.filter_eq_cons_iff.mp hfilter
    rw [hvalues]
    refine parse_of_present hr hsplit hm (fun a ha => ?_) (fun a ha => ?_) (hvalues ▸ hr.values)
    · exact hothers a (hsplit ▸ List.mem_append_left _ ha) (hbefore a ha)
    · have hin : a ∈ r.attributes := hsplit ▸ List.mem_append_right _ (List.mem_cons_of_mem m ha)
      exact hothers a hin (List.filter_eq_nil_iff.mp hafter a ha)

/-- The admin group with an attribute on either side of the membership. -/
def adminGroup : GroupRecord where
  preamble := ["Preamble"]
  attributes :=
    [⟨"GeneratedUID", ["ignored"], .inline, by decide⟩,
      ⟨"GroupMembership", ["root", "alice"], .wrapped, by decide⟩,
      ⟨"Password", ["*"], .wrapped, by decide⟩]

theorem adminGroup_readable : adminGroup.Readable where
  once := by decide
  values := by
    have hall : (adminGroup.members.all fun v =>
        v != "" && v.toList.all fun c => !isWhitespace c && c != ':') = true := by decide
    simpa using hall
  preamble := by
    unfold NoHeader
    decide
  others := by
    unfold NoHeader
    decide

theorem parseAdminMembers_print_admin :
    parseAdminMembers adminGroup.print = {"root", "alice"} :=
  (parseAdminMembers_print adminGroup adminGroup_readable).1

/-- A user other than root is let in exactly when the printed record lists the name. -/
theorem allowed_iff_member {r : GroupRecord} (hr : r.Readable) {uid : UInt32} (huid : uid ≠ 0)
    (username stderr : String) :
    (operatorFromUid (.ok (some username)) (.ok ⟨true, r.print, stderr⟩) uid).allowed = true ↔
      username ∈ r.members := by
  have hname : resolveUsername uid (.ok (some username)) = .ok username := rfl
  have hdscl : adminMembers (.ok ⟨true, r.print, stderr⟩) = .ok (parseAdminMembers r.print) := rfl
  rw [allowed_iff huid hname, hdscl, (parseAdminMembers_print r hr).1]
  constructor
  · rintro ⟨admins, hadmins, hmem⟩
    cases hadmins
    exact List.mem_toFinset.mp hmem
  · exact fun hmem => ⟨_, rfl, List.mem_toFinset.mpr hmem⟩

end Daemon
end Konstantin
