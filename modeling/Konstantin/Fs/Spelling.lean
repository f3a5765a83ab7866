import Konstantin.Fs.Path
import Konstantin.Text.Numbers

/-!
# Spellings of a path

What is displayed of a path that was made of a text makes the same path again.
-/

namespace Konstantin
namespace Fs
namespace Path

/-- A component that a piece of a text can be. -/
inductive Named : Component → Prop
  | normal (name : String) (hne : name.toList ≠ []) (hdot : name.toList ≠ ['.'])
      (hdots : name.toList ≠ ['.', '.']) (hclear : '/' ∉ name.toList) : Named (.normal name)
  | parentDir : Named .parentDir

/-- A path as a text gives it: a `.` is at the front of a relative path only, and a
path of no components is the empty one or ends in what its text ends in. -/
inductive Spelled : Path → Prop
  | plain (absolute : Bool) (cs : List Component) (ending : Ending) (h : ∀ c ∈ cs, Named c)
      (hnil : cs = [] → (absolute = true ↔ ending ≠ .plain)) : Spelled ⟨absolute, cs, ending⟩
  | dotted (cs : List Component) (ending : Ending) (h : ∀ c ∈ cs, Named c) :
      Spelled ⟨false, .curDir :: cs, ending⟩

theorem named_componentOf {piece : List Char} (hne : piece ≠ []) (hdot : piece ≠ ['.'])
    (hclear : '/' ∉ piece) : Named (componentOf piece) := by
  unfold componentOf
  split
  · exact .parentDir
  · rename_i hdots
    refine .normal _ ?_ ?_ ?_ ?_ <;> rwa [String.toList_ofList]

theorem notMem_of_mem_splitOn {text piece : List Char} (h : piece ∈ text.splitOn '/') :
    '/' ∉ piece := by
  intro hmem
  rw [List.splitOn_eq_splitOnP] at h
  have hclear := Text.clear_of_mem_splitOnP h '/' hmem
  simp at hclear

theorem endingOf_ne_plain {piece : List Char} (h : piece = [] ∨ piece = ['.']) :
    endingOf (some piece) ≠ .plain := by
  rcases h with rfl | rfl <;> decide

theorem spelled_parse (raw : String) : Spelled (parse raw) := by
  obtain ⟨first, rest, hpieces⟩ :=
    List.exists_cons_of_ne_nil (List.splitOn_ne_nil '/' raw.toList)
  have hkept : ∀ c ∈ ((first :: rest).filter fun p => p ≠ [] ∧ p ≠ ['.']).map componentOf,
      Named c := by
    intro c hc
    obtain ⟨piece, hpiece, rfl⟩ := List.mem_map.mp hc
    obtain ⟨hmem, hkeep⟩ := List.mem_filter.mp hpiece
    have hboth : piece ≠ [] ∧ piece ≠ ['.'] := of_decide_eq_true hkeep
    exact named_componentOf hboth.1 hboth.2 (notMem_of_mem_splitOn (hpieces ▸ hmem))
  unfold parse
  rw [hpieces]
  dsimp only
  split
  · rename_i hdot
    have habsolute : decide (1 < (first :: rest).length ∧ (first :: rest).head? = some []) =
        false := by simpa using hdot.1
    rw [habsolute]
    exact .dotted _ _ hkept
  · rename_i hdot
    refine .plain _ _ _ hkept fun hnil => ?_
    -- with nothing kept, every piece is empty or a dot
    have hdropped : ∀ piece ∈ first :: rest, piece = [] ∨ piece = ['.'] := by
      intro piece hpiece
      have hnot := List.filter_eq_nil_iff.mp (List.map_eq_nil_iff.mp hnil) piece hpiece
      by_cases hempty : piece = []
      · exact Or.inl hempty
      · exact Or.inr (by simpa [hempty] using hnot)
    rcases List.eq_nil_or_concat rest with rfl | ⟨init, last, rfl⟩
    · simp [endingOf]
    · rw [List.concat_eq_append] at hdot hdropped ⊢
      rw [List.tail_cons, List.getLast?_concat]
      have hlast := endingOf_ne_plain (hdropped last (by simp))
      have hfirst : first = [] := by
        rcases hdropped first List.mem_cons_self with hempty | hfront
        · exact hempty
        · simp [hfront] at hdot
      simp [hlast, hfirst]

/-! ## Displayed components -/

theorem Named.display {c : Component} (h : Named c) :
    c.display.toList ≠ [] ∧ c.display.toList ≠ ['.'] ∧ '/' ∉ c.display.toList ∧
      componentOf c.display.toList = c := by
  cases h with
  | normal name hne hdot hdots hclear =>
    refine ⟨hne, hdot, hclear, ?_⟩
    show componentOf name.toList = _
    rw [componentOf, if_neg hdots, if_neg hdot, String.ofList_toList]
  | parentDir => exact ⟨by decide, by decide, by decide, by decide⟩

/-- The pieces of the text of a path behind its root. -/
def pieces (cs : List Component) (ending : Ending) : List (List Char) :=
  (cs.map Component.display ++ ending.piece.toList).map String.toList

theorem pieces_cons (c : Component) (cs : List Component) (ending : Ending) :
    pieces (c :: cs) ending = c.display.toList :: pieces cs ending := rfl

/-- The piece of an ending is not kept. -/
theorem kept_ending (ending : Ending) :
    (pieces [] ending).filter (fun p => p ≠ [] ∧ p ≠ ['.']) = [] := by
  cases ending <;> decide

theorem kept_display {cs : List Component} (h : ∀ c ∈ cs, Named c) (ending : Ending) :
    ((pieces cs ending).filter fun p => p ≠ [] ∧ p ≠ ['.']).map componentOf = cs := by
  induction cs with
  | nil => exact congrArg (List.map componentOf) (kept_ending ending)
  | cons c cs ih =>
    obtain ⟨hne, hdot, -, hback⟩ := (h c List.mem_cons_self).display
    have hkeep : decide (c.display.toList ≠ [] ∧ c.display.toList ≠ ['.']) = true :=
      decide_eq_true ⟨hne, hdot⟩
    rw [pieces_cons, List.filter_cons, if_pos hkeep, List.map_cons, hback,
      ih fun d hd => h d (List.mem_cons_of_mem c hd)]

theorem endingOf_named {c : Component} (h : Named c) :
    endingOf (some c.display.toList) = .plain := by
  obtain ⟨hne, hdot, -, -⟩ := h.display
  unfold endingOf
  split
  · rename_i hnil
    exact absurd (Option.some.inj hnil) hne
  · rename_i hone
    exact absurd (Option.some.inj hone) hdot
  · rfl

/-- The last piece tells the ending. -/
theorem endingOf_pieces {cs : List Component} (h : ∀ c ∈ cs, Named c) (ending : Ending) :
    endingOf (pieces cs ending).getLast? = ending := by
  cases ending with
  | plain =>
    have hpieces : pieces cs .plain = cs.map fun c => c.display.toList := by
      simp [pieces, Ending.piece]
    rw [hpieces]
    rcases List.eq_nil_or_concat cs with rfl | ⟨init, c, rfl⟩
    · rfl
    · rw [List.concat_eq_append] at h ⊢
      rw [List.map_append, List.map_singleton, List.getLast?_concat]
      exact endingOf_named (h c (by simp))
  | slash =>
    simp [pieces, Ending.piece, endingOf]
  | dot =>
    simp [pieces, Ending.piece, endingOf]

theorem notMem_pieces {cs : List Component} (h : ∀ c ∈ cs, Named c) (ending : Ending) :
    ∀ piece ∈ pieces cs ending, '/' ∉ piece := by
  induction cs with
  | nil => cases ending <;> decide
  | cons c cs ih =>
    rw [pieces_cons]
    intro piece hpiece
    rcases List.mem_cons.mp hpiece with rfl | hrest
    · exact (h c List.mem_cons_self).display.2.2.1
    · exact ih (fun d hd => h d (List.mem_cons_of_mem c hd)) piece hrest

theorem toList_display (absolute : Bool) (cs : List Component) (ending : Ending) :
    (display ⟨absolute, cs, ending⟩).toList =
      (if absolute then ['/'] else []) ++ ['/'].intercalate (pieces cs ending) := by
  have hslash : "/".toList = ['/'] := rfl
  rw [display, String.toList_append, String.toList_intercalate, hslash]
  cases absolute with
  | true => exact congrArg (· ++ _) hslash
  | false => rfl

theorem splitOn_display_absolute {cs : List Component} {ending : Ending}
    (h : ∀ c ∈ cs, Named c) (hne : pieces cs ending ≠ []) :
    (display ⟨true, cs, ending⟩).toList.splitOn '/' = [] :: pieces cs ending := by
  rw [toList_display, if_pos rfl]
  show ([] ++ '/' :: ['/'].intercalate (pieces cs ending)).splitOn '/' = _
  rw [List.splitOn_append_cons_self_of_not_mem List.not_mem_nil,
    List.splitOn_intercalate '/' (notMem_pieces h ending) hne]

theorem splitOn_display_relative {cs : List Component} {ending : Ending}
    (h : ∀ piece ∈ pieces cs ending, '/' ∉ piece) (hne : pieces cs ending ≠ []) :
    (display ⟨false, cs, ending⟩).toList.splitOn '/' = pieces cs ending := by
  rw [toList_display]
  show (['/'].intercalate (pieces cs ending)).splitOn '/' = _
  rw [List.splitOn_intercalate '/' h hne]

theorem parse_display {p : Path} (h : Spelled p) : parse p.display = p := by
  cases h with
  | plain absolute cs ending h hnil =>
    have hkept := kept_display h ending
    cases absolute with
    | true =>
      have hne : pieces cs ending ≠ [] := by
        intro hempty
        obtain ⟨hcs, hending⟩ : cs = [] ∧ ending.piece = none := by
          simpa [pieces] using hempty
        have hplain := (hnil hcs).mp rfl
        cases ending with
        | plain => exact hplain rfl
        | _ => cases hending
      have hending := endingOf_pieces h ending
      have hlong : 0 < (pieces cs ending).length := List.length_pos_iff.mpr hne
      rw [parse, splitOn_display_absolute h hne]
      simpa [hending, hlong] using hkept
    | false =>
      cases cs with
      | nil =>
        have hplain : ending = .plain := by simpa using hnil rfl
        subst hplain
        decide
      | cons c cs =>
        obtain ⟨hpiece, hdot, -, -⟩ := (h c List.mem_cons_self).display
        have hending := endingOf_pieces (fun d hd => h d (List.mem_cons_of_mem c hd)) ending
        rw [parse, splitOn_display_relative (notMem_pieces h ending) (by simp [pieces_cons])]
        rw [pieces_cons] at hkept ⊢
        simpa [hpiece, hdot, hending] using hkept
  | dotted cs ending h =>
    have hclear : ∀ piece ∈ pieces (.curDir :: cs) ending, '/' ∉ piece := by
      rw [pieces_cons]
      intro piece hpiece
      rcases List.mem_cons.mp hpiece with rfl | hrest
      · decide
      · exact notMem_pieces h ending piece hrest
    have hfront : Component.curDir.display.toList = ['.'] := rfl
    have hending := endingOf_pieces h ending
    rw [parse, splitOn_display_relative hclear (by simp [pieces_cons]), pieces_cons, hfront]
    simpa [hending] using kept_display h ending

end Path
end Fs
end Konstantin
