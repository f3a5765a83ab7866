import Mathlib.Data.List.Basic
import Konstantin.Text.Numbers

/-!
# Lines and words

The lines of a text as `str::lines` gives them, the words of a line as
`split_whitespace` does, and a prefix looked for behind leading white space.
-/

namespace Konstantin
namespace Text

/-! ## Words -/

/-- `split_whitespace`. -/
def words (cs : List Char) : List (List Char) := (cs.splitOnP isWhitespace).filter (· ≠ [])

theorem words_nil : words [] = [] := rfl

theorem words_append_cons {c : Char} (hc : isWhitespace c = true) (cs ds : List Char) :
    words (cs ++ c :: ds) = words cs ++ words ds := by
  rw [words, List.splitOnP_append_cons cs ds hc, List.filter_append]
  rfl

theorem words_dropWhile (cs : List Char) : words (cs.dropWhile isWhitespace) = words cs := by
  induction cs with
  | nil => rfl
  | cons c cs ih =>
    rw [List.dropWhile_cons]
    split
    · rename_i hc
      rw [ih]
      exact (words_append_cons hc [] cs).symm
    · rfl

theorem words_dropWhile_reverse (cs : List Char) :
    words (cs.dropWhile isWhitespace).reverse = words cs.reverse := by
  induction cs with
  | nil => rfl
  | cons c cs ih =>
    rw [List.dropWhile_cons]
    split
    · rename_i hc
      rw [ih, List.reverse_cons, words_append_cons hc cs.reverse [], words_nil, List.append_nil]
    · rfl

/-- White space around a line does not change its words. -/
theorem words_trim (cs : List Char) : words (trim cs) = words cs := by
  rw [trim, words_dropWhile_reverse, List.reverse_reverse, words_dropWhile]

/-- A text without white space is one word. -/
theorem words_of_no_whitespace {cs : List Char} (hne : cs ≠ [])
    (h : ∀ c ∈ cs, isWhitespace c = false) : words cs = [cs] := by
  rw [words, List.splitOnP_eq_singleton h]
  simp [hne]

/-- Words with a blank before each. -/
theorem words_flatMap_blank {ws : List (List Char)}
    (h : ∀ w ∈ ws, w ≠ [] ∧ ∀ c ∈ w, isWhitespace c = false) :
    words (ws.flatMap fun w => ' ' :: w) = ws := by
  have hblank : isWhitespace ' ' = true := by decide
  induction ws with
  | nil => rfl
  | cons w ws ih =>
    have hw := h w List.mem_cons_self
    have hws := ih fun v hv => h v (List.mem_cons_of_mem w hv)
    have hfirst := words_append_cons hblank [] (w ++ ws.flatMap fun w => ' ' :: w)
    rw [List.flatMap_cons, List.cons_append]
    rw [List.nil_append, words_nil, List.nil_append] at hfirst
    rw [hfirst]
    cases ws with
    | nil => rw [List.flatMap_nil, List.append_nil, words_of_no_whitespace hw.1 hw.2]
    | cons v vs =>
      have hrest := words_append_cons hblank [] (v ++ vs.flatMap fun w => ' ' :: w)
      rw [List.nil_append, words_nil, List.nil_append, ← List.cons_append,
        ← List.flatMap_cons, hws] at hrest
      rw [List.flatMap_cons, List.cons_append, words_append_cons hblank w, ← hrest,
        words_of_no_whitespace hw.1 hw.2]
      rfl

/-! ## Words between blanks -/

section

variable {blanks : List Char} (hblanks : ∀ c ∈ blanks, isWhitespace c = true)

include hblanks

theorem words_blanks_append (cs : List Char) : words (blanks ++ cs) = words cs := by
  induction blanks with
  | nil => rfl
  | cons c blanks ih =>
    have hfirst := words_append_cons (hblanks c List.mem_cons_self) [] (blanks ++ cs)
    rw [List.nil_append, words_nil, List.nil_append] at hfirst
    rw [List.cons_append, hfirst]
    exact ih fun d hd => hblanks d (List.mem_cons_of_mem c hd)

/-- A word, and what follows it behind at least one blank. -/
theorem words_word_append {word : List Char} (hne : word ≠ [])
    (hword : ∀ c ∈ word, isWhitespace c = false) {cs : List Char}
    (hgap : blanks ≠ [] ∨ cs = []) : words (word ++ blanks ++ cs) = word :: words cs := by
  cases blanks with
  | nil =>
    have hcs : cs = [] := hgap.resolve_left fun h => h rfl
    rw [hcs, List.append_nil, List.append_nil, words_of_no_whitespace hne hword, words_nil]
  | cons c blanks =>
    have hrest : ∀ d ∈ blanks, isWhitespace d = true :=
      fun d hd => hblanks d (List.mem_cons_of_mem c hd)
    rw [List.append_assoc, List.cons_append, words_append_cons (hblanks c List.mem_cons_self),
      words_of_no_whitespace hne hword, words_blanks_append hrest]
    rfl

end

/-! ## Lines -/

/-- A line without the carriage return that ends it. -/
def withoutCr (cs : List Char) : List Char :=
  if cs.getLast? = some '\r' then cs.dropLast else cs

/-- `str::lines`.  What follows the last line feed is a line when it is not empty,
and keeps a carriage return. -/
def lines (cs : List Char) : List (List Char) :=
  let pieces := cs.splitOn '\n'
  pieces.dropLast.map withoutCr ++ pieces.getLast?.toList.filter (· ≠ [])

theorem lines_nil : lines [] = [] := rfl

/-- A line feed ends what stands before it, and what follows has lines of its own. -/
theorem lines_append_lf (cs ds : List Char) :
    lines (cs ++ '\n' :: ds) = (cs.splitOn '\n').map withoutCr ++ lines ds := by
  have hne : ds.splitOn '\n' ≠ [] := List.splitOn_ne_nil _ ds
  rw [lines, lines, List.splitOn_append_cons_self]
  rw [List.dropLast_append_of_ne_nil hne, List.getLast?_append, List.getLast?_eq_some_getLast hne,
    Option.some_or, List.map_append, List.append_assoc]

/-- A text of whole lines: what is put behind it has lines of its own. -/
def WholeLines (cs : List Char) : Prop := ∀ ds, lines (cs ++ ds) = lines cs ++ lines ds

theorem wholeLines_lf (cs : List Char) : WholeLines (cs ++ ['\n']) := by
  intro ds
  rw [List.append_assoc, List.singleton_append, lines_append_lf, lines_append_lf, lines_nil,
    List.append_nil]

theorem wholeLines_append {cs ds : List Char} (hcs : WholeLines cs) (hds : WholeLines ds) :
    WholeLines (cs ++ ds) := by
  intro es
  rw [List.append_assoc, hcs, hds, hcs, List.append_assoc]

theorem lines_flatMap {α : Type} {f : α → List Char} {xs : List α}
    (h : ∀ x ∈ xs, WholeLines (f x)) (ds : List Char) :
    lines (xs.flatMap f ++ ds) = (xs.flatMap fun x => lines (f x)) ++ lines ds := by
  induction xs with
  | nil => rfl
  | cons x xs ih =>
    rw [List.flatMap_cons, List.append_assoc, h x List.mem_cons_self,
      ih fun y hy => h y (List.mem_cons_of_mem x hy), List.flatMap_cons, List.append_assoc]

theorem wholeLines_flatMap {α : Type} {f : α → List Char} {xs : List α}
    (h : ∀ x ∈ xs, WholeLines (f x)) : WholeLines (xs.flatMap f) := by
  intro ds
  have hnil := lines_flatMap h []
  rw [List.append_nil, lines_nil, List.append_nil] at hnil
  rw [lines_flatMap h, hnil]

theorem lines_line {cs : List Char} (h : '\n' ∉ cs) (ds : List Char) :
    lines (cs ++ '\n' :: ds) = withoutCr cs :: lines ds := by
  rw [lines_append_lf, List.splitOn_eq_singleton h]
  rfl

theorem words_withoutCr (cs : List Char) : words (withoutCr cs) = words cs := by
  unfold withoutCr
  split
  · rename_i hlast
    obtain ⟨front, rfl⟩ := List.getLast?_eq_some_iff.mp hlast
    have hcr := words_append_cons (show isWhitespace '\r' = true by decide) front []
    rw [words_nil, List.append_nil] at hcr
    rw [List.dropLast_concat, hcr]
  · rfl

theorem withoutCr_of_not_mem {cs : List Char} (h : '\r' ∉ cs) : withoutCr cs = cs := by
  rw [withoutCr, if_neg]
  intro hlast
  exact h (List.mem_of_getLast? hlast)

/-- A line keeps what stands in it before something that is no carriage return. -/
theorem prefix_withoutCr {cs : List Char} {c : Char} (hc : c ≠ '\r') (ds : List Char) :
    cs ++ [c] <+: withoutCr (cs ++ c :: ds) := by
  unfold withoutCr
  split
  · rename_i hlast
    cases ds with
    | nil =>
      rw [List.getLast?_append, List.getLast?_singleton, Option.some_or] at hlast
      exact absurd (Option.some.inj hlast) hc
    | cons d ds =>
      refine ⟨(d :: ds).dropLast, ?_⟩
      rw [List.append_cons cs c (d :: ds),
        List.dropLast_append_of_ne_nil (List.cons_ne_nil d ds)]
  · exact ⟨ds, List.append_cons cs c ds |>.symm⟩

/-- What a text of lines begins with, up to a place in its first line, is in that line. -/
theorem lines_first {cs : List Char} {c : Char} (hcs : '\n' ∉ cs) (hlf : c ≠ '\n')
    (hcr : c ≠ '\r') (ds : List Char) :
    ∃ first rest, lines (cs ++ c :: ds) = first :: rest ∧ cs ++ [c] <+: first := by
  have hclear : '\n' ∉ cs ++ [c] := by
    intro hmem
    rcases List.mem_append.mp hmem with hin | hin
    · exact hcs hin
    · exact hlf (List.mem_singleton.mp hin).symm
  by_cases hmem : '\n' ∈ ds
  · obtain ⟨front, back, rfl, hfront⟩ := List.eq_append_cons_of_mem hmem
    refine ⟨withoutCr (cs ++ c :: front), lines back, ?_, prefix_withoutCr hcr front⟩
    rw [← List.cons_append, ← List.append_assoc, lines_line]
    rw [List.append_cons]
    exact fun hin => (List.mem_append.mp hin).elim hclear hfront
  · refine ⟨cs ++ c :: ds, [], ?_, ⟨ds, (List.append_cons cs c ds).symm⟩⟩
    have hno : '\n' ∉ cs ++ c :: ds := by
      rw [List.append_cons]
      exact fun hin => (List.mem_append.mp hin).elim hclear hmem
    rw [lines, List.splitOn_eq_singleton hno]
    simp

def trimStart (cs : List Char) : List Char := cs.dropWhile isWhitespace

/-- `line.trim_start().strip_prefix(label)`. -/
def behindLabel (label : String) (line : List Char) : Option (List Char) :=
  label.toList.isPrefixOf? (trimStart line)

theorem behindLabel_eq_some {label : String} {line behind : List Char} :
    behindLabel label line = some behind ↔ label.toList ++ behind = trimStart line :=
  List.isPrefixOf?_eq_some_iff_append_eq

theorem behindLabel_eq_none {label : String} {line : List Char} :
    behindLabel label line = none ↔ ¬ label.toList <+: trimStart line := by
  rw [Option.eq_none_iff_forall_ne_some]
  constructor
  · rintro h ⟨behind, hbehind⟩
    exact h behind (behindLabel_eq_some.mpr hbehind)
  · exact fun h behind hbehind => h ⟨behind, behindLabel_eq_some.mp hbehind⟩

theorem mem_dropWhile {p : Char → Bool} {c : Char} {cs : List Char} (hmem : c ∈ cs)
    (hc : p c = false) : c ∈ cs.dropWhile p := by
  induction cs with
  | nil => exact hmem
  | cons d cs ih =>
    rw [List.dropWhile_cons]
    split
    · rename_i hd
      rcases List.mem_cons.mp hmem with rfl | hrest
      · rw [hc] at hd
        exact absurd hd (by decide)
      · exact ih hrest
    · exact hmem

/-- A word with one blank behind it. -/
theorem trim_concat {cs : List Char} {c : Char} (hcs : ∀ d ∈ cs, isWhitespace d = false)
    (hc : isWhitespace c = true) : trim (cs ++ [c]) = cs := by
  have hword := trim_of_no_whitespace hcs
  cases cs with
  | nil => rw [trim, List.nil_append, List.dropWhile_cons_of_pos hc, List.dropWhile_nil]; rfl
  | cons d cs =>
    have hd : ¬ isWhitespace d = true := by
      rw [hcs d List.mem_cons_self]
      decide
    rw [trim, List.dropWhile_cons_of_neg hd] at hword
    rw [trim, List.cons_append, List.dropWhile_cons_of_neg hd, ← List.cons_append,
      List.reverse_append, List.reverse_singleton, List.singleton_append,
      List.dropWhile_cons_of_pos hc, hword]

theorem mem_trim {c : Char} {cs : List Char} (hmem : c ∈ cs) (hc : isWhitespace c = false) :
    c ∈ trim cs := by
  have hfront := mem_dropWhile hmem hc
  exact List.mem_reverse.mpr (mem_dropWhile (List.mem_reverse.mpr hfront) hc)

end Text
end Konstantin
