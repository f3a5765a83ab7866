/-!
# Paths

Paths as the Rust standard library sees them, and the places they name.

A `Path` is the value of `Path::components` with the way its text ends, so that two
spellings which differ in repeated separators or in a `.` in the middle are one
path.  Rust compares paths by their components (`same`), but its calls hand on the
text, and a path that ends in `/` or `/.` names nothing but a directory.
`resolve` gives the place a path names on a volume without symbolic links.
Relative paths start at the root, which is the working directory launchd gives a
daemon.
-/

namespace Konstantin
namespace Fs

/-- A place in the directory tree, from the root. -/
abbrev Loc := List String

inductive Component where
  | normal (name : String)
  | parentDir
  | curDir
  deriving DecidableEq

def Component.display : Component → String
  | .normal name => name
  | .parentDir => ".."
  | .curDir => "."

/-- What follows the last component in the text of a path: nothing, `/` or `/.`. -/
inductive Ending where
  | plain
  | slash
  | dot
  deriving DecidableEq

/-- The piece that an ending adds behind the components. -/
def Ending.piece : Ending → Option String
  | .plain => none
  | .slash => some ""
  | .dot => some "."

structure Path where
  absolute : Bool
  components : List Component
  ending : Ending
  deriving DecidableEq

namespace Path

def componentOf (piece : List Char) : Component :=
  if piece = ['.', '.'] then .parentDir
  else if piece = ['.'] then .curDir
  else .normal (String.ofList piece)

/-- The ending of a text whose last piece behind its first one is this. -/
def endingOf : Option (List Char) → Ending
  | some [] => .slash
  | some ['.'] => .dot
  | _ => .plain

/-- `Path::new`.  A `.` survives only at the front of a relative path. -/
def parse (raw : String) : Path :=
  let pieces := raw.toList.splitOn '/'
  let absolute := decide (1 < pieces.length ∧ pieces.head? = some [])
  let kept := (pieces.filter fun p => p ≠ [] ∧ p ≠ ['.']).map componentOf
  { absolute := absolute
    components := if ¬ absolute ∧ pieces.head? = some ['.'] then .curDir :: kept else kept
    ending := endingOf pieces.tail.getLast? }

/-- `==` of paths. -/
def same (p q : Path) : Bool := p.absolute == q.absolute && p.components == q.components

/-- `Path::display`, for a path without redundant separators. -/
def display (p : Path) : String :=
  (if p.absolute then "/" else "") ++
    "/".intercalate (p.components.map Component.display ++ p.ending.piece.toList)

def isEmpty (p : Path) : Bool := !p.absolute && p.components.isEmpty

def parent (p : Path) : Option Path :=
  if p.components = [] then none
  else some { p with components := p.components.dropLast, ending := .plain }

/-- `Path::file_name`: the last component when it is a name. -/
def fileName (p : Path) : Option String :=
  match p.components.getLast? with
  | some (.normal name) => some name
  | _ => none

/-- The stem and the extension of a file name, split at the last dot.  A name
whose only dot is its first character has no extension. -/
def splitAtDot (name : String) : String × Option String :=
  match name.toList.reverse.dropWhile (· ≠ '.') with
  | _ :: b :: before =>
    (String.ofList (b :: before).reverse,
      some (String.ofList (name.toList.reverse.takeWhile (· ≠ '.')).reverse))
  | _ => (name, none)

def extension (p : Path) : Option String := p.fileName.bind fun n => (splitAtDot n).2

/-- `Path::with_extension`, for a nonempty extension. -/
def withExtension (p : Path) (ext : String) : Path :=
  match p.fileName with
  | none => p
  | some n =>
    { p with
      components := p.components.dropLast ++ [.normal ((splitAtDot n).1 ++ "." ++ ext)]
      ending := .plain }

/-- The path with `.tmp` pushed to the end of its text. -/
def pushTmp (p : Path) : Path :=
  match p.ending.piece with
  | none =>
    { p with
      components := p.components.dropLast ++
        [.normal ((p.components.getLast?.elim "" Component.display) ++ ".tmp")] }
  | some piece =>
    { p with components := p.components ++ [.normal (piece ++ ".tmp")], ending := .plain }

def stepTo (loc : Loc) : Component → Loc
  | .normal name => loc ++ [name]
  | .parentDir => loc.dropLast
  | .curDir => loc

def resolve (p : Path) : Loc := p.components.foldl stepTo []

/-- The places passed on the way, the last one included. -/
def trail (p : Path) : List Loc := (p.components.scanl stepTo []).tail

/-! ## The name of a temporary file beside a path -/

theorem splitAtDot_some {name stem ext : String} (h : splitAtDot name = (stem, some ext)) :
    stem ++ "." ++ ext = name := by
  unfold splitAtDot at h
  split at h
  · rename_i dot b before hrev
    simp only [Prod.mk.injEq, Option.some.injEq] at h
    obtain ⟨rfl, rfl⟩ := h
    have hdot := List.head?_dropWhile_not (fun c => decide (c ≠ '.')) name.toList.reverse
    have hsplit : _ ++ _ = name.toList.reverse :=
      List.takeWhile_append_dropWhile (p := fun c => decide (c ≠ '.'))
    rw [hrev] at hdot hsplit
    have hdot : dot = '.' := by simpa using hdot
    subst hdot
    have hname := congrArg List.reverse hsplit
    rw [List.reverse_reverse] at hname
    rw [← String.toList_inj]
    refine Eq.trans ?_ hname
    simp
  · simp at h

theorem splitAtDot_none {name stem : String} (h : splitAtDot name = (stem, none)) :
    stem = name := by
  unfold splitAtDot at h
  split at h
  · simp at h
  · exact ((Prod.mk.injEq ..).mp h).1.symm

/-- A file name given an extension that begins with its own, or with a default
one when it has none, is the name with more characters behind it. -/
theorem stem_append_eq (name default : String) {more : String} (hmore : more ≠ "") :
    ∃ suffix, suffix ≠ "" ∧
      (splitAtDot name).1 ++ "." ++ ((splitAtDot name).2.getD default ++ more) =
        name ++ suffix := by
  cases h : splitAtDot name with
  | mk stem ext =>
    cases ext with
    | none =>
      refine ⟨"." ++ (default ++ more), ?_, ?_⟩
      · simp [← String.toList_inj]
      · rw [splitAtDot_none h, Option.getD_none, String.append_assoc]
    | some ext =>
      refine ⟨more, hmore, ?_⟩
      simp only [Option.getD_some, ← splitAtDot_some h, String.append_assoc]

/-! ## Where a path leads -/

theorem components_ne_nil_of_fileName {p : Path} {name : String} (h : p.fileName = some name) :
    ∃ init, p.components = init ++ [.normal name] := by
  unfold fileName at h
  split at h
  · rename_i last hlast
    cases h
    exact List.getLast?_eq_some_iff.mp hlast
  · cases h

theorem resolve_append (absolute : Bool) (init : List Component) (c : Component)
    (ending ending' : Ending) :
    resolve ⟨absolute, init ++ [c], ending⟩ = stepTo (resolve ⟨absolute, init, ending'⟩) c := by
  simp [resolve]

theorem resolve_names (absolute : Bool) (names : List String) (ending : Ending) :
    resolve ⟨absolute, names.map Component.normal, ending⟩ = names := by
  have hwalk : ∀ (names : List String) (start : Loc),
      (names.map Component.normal).foldl stepTo start = start ++ names := by
    intro names
    induction names with
    | nil => exact fun start => (List.append_nil start).symm
    | cons name names ih =>
      intro start
      rw [List.map_cons, List.foldl_cons, ih, stepTo, List.append_assoc]
      rfl
  exact hwalk names []

/-- A name behind a name is another name, and one behind anything else goes deeper. -/
theorem resolve_pushed_ne (absolute : Bool) (components : List Component) (ending : Ending) :
    resolve ⟨absolute, components.dropLast ++
      [.normal ((components.getLast?.elim "" Component.display) ++ ".tmp")], ending⟩ ≠
        resolve ⟨absolute, components, ending⟩ := by
  have htmp := resolve_append absolute components.dropLast
    (.normal ((components.getLast?.elim "" Component.display) ++ ".tmp")) ending ending
  intro h
  rcases List.eq_nil_or_concat components with rfl | ⟨init, c, rfl⟩
  · have hlen := congrArg List.length h
    simp [resolve, stepTo] at hlen
  · have hlast := resolve_append absolute init c ending ending
    rw [htmp] at h
    simp only [List.concat_eq_append, List.dropLast_concat, List.getLast?_append,
      List.getLast?_singleton, Option.some_or, Option.elim_some] at h hlast
    rw [hlast] at h
    cases c with
    | normal name =>
      have hname := List.append_cancel_left h
      simp [Component.display, ← String.toList_inj] at hname
    | parentDir =>
      have hlen := congrArg List.length h
      simp [stepTo] at hlen
      omega
    | curDir =>
      have hlen := congrArg List.length h
      simp [stepTo] at hlen

theorem resolve_pushTmp_ne (p : Path) : p.pushTmp.resolve ≠ p.resolve := by
  obtain ⟨absolute, components, ending⟩ := p
  unfold pushTmp
  cases hpiece : ending.piece with
  | none => exact resolve_pushed_ne absolute components ending
  | some piece =>
    intro h
    have hbelow := resolve_append absolute components (.normal (piece ++ ".tmp")) .plain ending
    have hlen := congrArg List.length (hbelow.symm.trans h)
    simp [stepTo] at hlen

end Path

end Fs
end Konstantin
