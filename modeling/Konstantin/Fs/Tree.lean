import Konstantin.Fs.Path

/-!
# A file system as a state

`FileSystem` is a tree of files and directories: whatever lies below a place
makes that place a directory.  The operations are those of `std::fs` on a volume
whose calls fail only for what the tree itself holds.  An operation that fails
has changed nothing, except `createDirAll`, which keeps the directories it made
before it met a file.

Each operation has one lemma that gives every node of the tree it returns.
-/

namespace Konstantin
namespace Fs

/-- What a file holds, as far as `read_to_string` can tell. -/
inductive Content where
  | text (s : String)
  | notUtf8 (bytes : List UInt8)
  deriving DecidableEq

inductive Node where
  | file (content : Content) (mode : Nat)
  | dir (mode : Nat)
  deriving DecidableEq

inductive IoError where
  | notFound
  | alreadyExists
  | isADirectory
  | notADirectory
  | invalidData
  deriving DecidableEq

def Node.isDir : Option Node → Bool
  | some (.dir _) => true
  | _ => false

def Node.content : Option Node → Option Content
  | some (.file c _) => some c
  | _ => none

structure FileSystem where
  node : Loc → Option Node
  root : Node.isDir (node []) = true
  closed : ∀ (l : Loc) (name : String), node (l ++ [name]) ≠ none → Node.isDir (node l) = true

namespace FileSystem

def isDir (fs : FileSystem) (l : Loc) : Bool := Node.isDir (fs.node l)

/-- `Path::exists`. -/
def pathExists (fs : FileSystem) (l : Loc) : Bool := (fs.node l).isSome

def readToString (fs : FileSystem) (l : Loc) : Except IoError String :=
  match fs.node l with
  | none => .error .notFound
  | some (.dir _) => .error .isADirectory
  | some (.file (.notUtf8 _) _) => .error .invalidData
  | some (.file (.text s) _) => .ok s

theorem isDir_dropLast {fs : FileSystem} {l : Loc} (h : fs.node l ≠ none) :
    l = [] ∨ fs.isDir l.dropLast = true := by
  rcases List.eq_nil_or_concat l with rfl | ⟨init, name, rfl⟩
  · exact Or.inl rfl
  · rw [List.concat_eq_append] at h ⊢
    rw [List.dropLast_concat]
    exact Or.inr (fs.closed init name h)

def empty : FileSystem where
  node l := if l = [] then some (.dir 0o755) else none
  root := rfl
  closed _ _ h := absurd (if_neg (by simp)) h

/-- The tree with one node replaced.  A directory may only be replaced by a
directory, and a node needs a directory above it. -/
def replace (fs : FileSystem) (l : Loc) (n : Option Node)
    (hdir : fs.isDir l = true → Node.isDir n = true)
    (hparent : n ≠ none → l = [] ∨ fs.isDir l.dropLast = true) : FileSystem where
  node k := if k = l then n else fs.node k
  root := by
    split
    · rename_i h
      exact hdir (h ▸ fs.root)
    · exact fs.root
  closed k name h := by
    split at h
    · rename_i hk
      subst hk
      rcases hparent h with habs | hp
      · simp at habs
      · rw [List.dropLast_concat] at hp
        rw [if_neg (by simp)]
        exact hp
    · have hold := fs.closed k name h
      split
      · rename_i hkl
        exact hdir (hkl ▸ hold)
      · exact hold

/-- The tree with a file moved from `src` to `dst`. -/
def move (fs : FileSystem) (src dst : Loc) (c : Content) (mode : Nat)
    (hsrc : fs.isDir src = false) (hdst : fs.isDir dst = false)
    (hparent : fs.isDir dst.dropLast = true) : FileSystem where
  node k := if k = dst then some (.file c mode) else if k = src then none else fs.node k
  root := by
    rw [if_neg, if_neg]
    · exact fs.root
    · rintro rfl
      exact Bool.false_ne_true (hsrc.symm.trans fs.root)
    · rintro rfl
      exact Bool.false_ne_true (hdst.symm.trans fs.root)
  closed k name h := by
    -- whatever is below `k` now, `k` was a directory before the move
    have hold : fs.isDir k = true := by
      split at h
      · rename_i hk
        rw [← hk, List.dropLast_concat] at hparent
        exact hparent
      · split at h
        · exact absurd rfl h
        · exact fs.closed k name h
    rw [if_neg, if_neg]
    · exact hold
    · rintro rfl
      exact Bool.false_ne_true (hsrc.symm.trans hold)
    · rintro rfl
      exact Bool.false_ne_true (hdst.symm.trans hold)

theorem isDir_file {fs : FileSystem} {l : Loc} {c : Content} {mode : Nat}
    (h : fs.node l = some (.file c mode)) : fs.isDir l = false := by
  simp [isDir, h, Node.isDir]

def parentError (fs : FileSystem) (l : Loc) : IoError :=
  if fs.pathExists l.dropLast then .notADirectory else .notFound

/-- The mode a written file has: the one it had, or the mode of a new file. -/
def modeOfWritten (fs : FileSystem) (l : Loc) : Nat :=
  match fs.node l with
  | some (.file _ mode) => mode
  | _ => 0o644

def write (fs : FileSystem) (l : Loc) (s : String) : Except IoError FileSystem :=
  if hd : fs.isDir l = true then .error .isADirectory
  else if hp : fs.isDir l.dropLast = true then
    .ok (fs.replace l (some (.file (.text s) (fs.modeOfWritten l)))
      (fun h => absurd h hd) (fun _ => Or.inr hp))
  else .error (fs.parentError l)

def setPermissions (fs : FileSystem) (l : Loc) (mode : Nat) : Except IoError FileSystem :=
  match h : fs.node l with
  | none => .error .notFound
  | some (.file c _) =>
    .ok (fs.replace l (some (.file c mode))
      (fun hd => absurd hd (by rw [isDir_file h]; decide))
      (fun _ => isDir_dropLast (by simp [h])))
  | some (.dir _) =>
    .ok (fs.replace l (some (.dir mode)) (fun _ => rfl)
      (fun _ => isDir_dropLast (by simp [h])))

def removeFile (fs : FileSystem) (l : Loc) : Except IoError FileSystem :=
  match h : fs.node l with
  | none => .error .notFound
  | some (.dir _) => .error .isADirectory
  | some (.file ..) =>
    .ok (fs.replace l none
      (fun hd => absurd hd (by rw [isDir_file h]; decide)) (fun hn => absurd rfl hn))

/-- `fs::rename` of a file. -/
def rename (fs : FileSystem) (src dst : Loc) : Except IoError FileSystem :=
  match h : fs.node src with
  | none => .error .notFound
  | some (.dir _) => .error .isADirectory
  | some (.file c mode) =>
    if hd : fs.isDir dst = false then
      if hp : fs.isDir dst.dropLast = true then .ok (fs.move src dst c mode (isDir_file h) hd hp)
      else .error (fs.parentError dst)
    else .error .isADirectory

/-- `fs::create_dir`, accepting a directory that is there already. -/
def makeDir (fs : FileSystem) (l : Loc) : Except IoError FileSystem :=
  match fs.node l with
  | some (.dir _) => .ok fs
  | some (.file ..) => .error .alreadyExists
  | none =>
    if hp : fs.isDir l.dropLast = true then
      .ok (fs.replace l (some (.dir 0o755)) (fun _ => rfl) (fun _ => Or.inr hp))
    else .error (fs.parentError l)

/-- `fs::create_dir_all`, given the places along the path. -/
def createDirAll : FileSystem → List Loc → Except IoError Unit × FileSystem
  | fs, [] => (.ok (), fs)
  | fs, l :: ls =>
    match fs.makeDir l with
    | .error e => (.error e, fs)
    | .ok fs' => fs'.createDirAll ls

def removeDirAll (fs : FileSystem) (l : Loc) : Except IoError FileSystem :=
  match fs.node l with
  | none => .error .notFound
  | some (.file ..) => .error .notADirectory
  | some (.dir _) =>
    if hl : l = [] then .error .isADirectory
    else .ok
      { node := fun k => if l <+: k then none else fs.node k
        root := by
          rw [if_neg (fun h => hl (List.prefix_nil.mp h))]
          exact fs.root
        closed := by
          intro k name h
          split at h
          · exact absurd rfl h
          · rename_i hk
            rw [if_neg (fun hp => hk (hp.trans (List.prefix_append _ _)))]
            exact fs.closed k name h }

/-! ## What each operation leaves behind -/

theorem write_node {fs fs' : FileSystem} {l : Loc} {s : String} (h : fs.write l s = .ok fs')
    (k : Loc) :
    fs'.node k = if k = l then some (.file (.text s) (fs.modeOfWritten l)) else fs.node k := by
  unfold write at h
  split at h
  · cases h
  · split at h
    · cases h
      rfl
    · cases h

theorem setPermissions_node {fs fs' : FileSystem} {l : Loc} {mode : Nat}
    (h : fs.setPermissions l mode = .ok fs') {k : Loc} (hk : k ≠ l) : fs'.node k = fs.node k := by
  unfold setPermissions at h
  split at h
  · cases h
  · cases h
    exact if_neg hk
  · cases h
    exact if_neg hk

theorem setPermissions_file {fs fs' : FileSystem} {l : Loc} {c : Content} {old mode : Nat}
    (hl : fs.node l = some (.file c old)) (h : fs.setPermissions l mode = .ok fs') :
    fs'.node l = some (.file c mode) := by
  unfold setPermissions at h
  split at h
  · cases h
  · rename_i heq
    cases h
    rw [hl] at heq
    cases heq
    exact if_pos rfl
  · rename_i heq
    rw [hl] at heq
    cases heq

theorem setPermissions_none {fs : FileSystem} {l : Loc} (h : fs.node l = none) (mode : Nat) :
    fs.setPermissions l mode = .error .notFound := by
  unfold setPermissions
  split
  · rfl
  · rename_i hl
    rw [h] at hl
    cases hl
  · rename_i hl
    rw [h] at hl
    cases hl

theorem rename_none {fs : FileSystem} {src : Loc} (h : fs.node src = none) (dst : Loc) :
    fs.rename src dst = .error .notFound := by
  unfold rename
  split
  · rfl
  · rename_i hsrc
    rw [h] at hsrc
    cases hsrc
  · rename_i hsrc
    rw [h] at hsrc
    cases hsrc

theorem removeFile_node {fs fs' : FileSystem} {l : Loc} (h : fs.removeFile l = .ok fs') (k : Loc) :
    fs'.node k = if k = l then none else fs.node k := by
  unfold removeFile at h
  split at h
  · cases h
  · cases h
  · cases h
    rfl

theorem rename_node {fs fs' : FileSystem} {src dst : Loc} (h : fs.rename src dst = .ok fs')
    (k : Loc) :
    fs'.node k = if k = dst then fs.node src else if k = src then none else fs.node k := by
  unfold rename at h
  split at h
  · cases h
  · cases h
  · rename_i heq
    split at h
    · split at h
      · cases h
        simp only [heq]
        rfl
      · cases h
    · cases h

theorem rename_source {fs fs' : FileSystem} {src dst : Loc} (h : fs.rename src dst = .ok fs') :
    fs.isDir dst = false ∧ ∃ c mode, fs.node src = some (.file c mode) := by
  unfold rename at h
  split at h
  · cases h
  · cases h
  · rename_i c mode hsrc
    split at h
    · rename_i hdst
      exact ⟨hdst, c, mode, hsrc⟩
    · cases h

theorem rename_target {fs fs' : FileSystem} {src dst : Loc} (h : fs.rename src dst = .ok fs') :
    fs.isDir dst.dropLast = true := by
  unfold rename at h
  split at h
  · cases h
  · cases h
  · split at h
    · split at h
      · assumption
      · cases h
    · cases h

theorem write_target {fs fs' : FileSystem} {l : Loc} {s : String} (h : fs.write l s = .ok fs') :
    fs.isDir l = false ∧ fs.isDir l.dropLast = true := by
  unfold write at h
  split at h
  · cases h
  · rename_i hfree
    split at h
    · rename_i hdir
      exact ⟨by simpa using hfree, hdir⟩
    · cases h

/-- A file whose new directory is there fails to be renamed only onto a directory. -/
theorem rename_error {fs : FileSystem} {src dst : Loc} {c : Content} {mode : Nat} {e : IoError}
    (hsrc : fs.node src = some (.file c mode)) (hp : fs.isDir dst.dropLast = true)
    (h : fs.rename src dst = .error e) : fs.isDir dst = true := by
  unfold rename at h
  split at h
  · rename_i heq
    rw [hsrc] at heq
    cases heq
  · rename_i heq
    rw [hsrc] at heq
    cases heq
  · split at h
    · cases h
    · rename_i hd
      simpa using hd

theorem makeDir_node {fs fs' : FileSystem} {l : Loc} (h : fs.makeDir l = .ok fs') (k : Loc) :
    fs'.node k = fs.node k ∨ (k = l ∧ fs.node k = none ∧ Node.isDir (fs'.node k) = true) := by
  unfold makeDir at h
  split at h
  · cases h
    exact Or.inl rfl
  · cases h
  · rename_i heq
    split at h
    · cases h
      by_cases hk : k = l
      · subst hk
        exact Or.inr ⟨rfl, heq, by simp [replace, Node.isDir]⟩
      · exact Or.inl (if_neg hk)
    · cases h

/-- Making directories adds directories along the way and touches nothing else. -/
theorem createDirAll_node (ls : List Loc) (fs : FileSystem) (k : Loc) :
    (fs.createDirAll ls).2.node k = fs.node k ∨
      (k ∈ ls ∧ fs.node k = none ∧ Node.isDir ((fs.createDirAll ls).2.node k) = true) := by
  induction ls generalizing fs with
  | nil => exact Or.inl rfl
  | cons l ls ih =>
    cases h : fs.makeDir l with
    | error e =>
      left
      simp only [createDirAll, h]
    | ok fs' =>
      simp only [createDirAll, h]
      rcases makeDir_node h k with hk | ⟨rfl, hnone, hdir⟩
      · rcases ih fs' with hsame | ⟨hmem, hnone, hdir⟩
        · exact Or.inl (hsame.trans hk)
        · exact Or.inr ⟨List.mem_cons_of_mem _ hmem, hk ▸ hnone, hdir⟩
      · refine Or.inr ⟨List.mem_cons_self, hnone, ?_⟩
        rcases ih fs' with hsame | ⟨_, hn, _⟩
        · rw [hsame]
          exact hdir
        · rw [hn] at hdir
          cases hdir

theorem createDirAll_some {fs : FileSystem} {k : Loc} {n : Node} (h : fs.node k = some n)
    (ls : List Loc) : (fs.createDirAll ls).2.node k = some n := by
  rcases createDirAll_node ls fs k with hk | ⟨_, hnone, _⟩
  · rw [hk, h]
  · rw [h] at hnone
    cases hnone

/-! ## What files hold -/

theorem exists_file_of_content {n : Option Node} {c : Content} (h : Node.content n = some c) :
    ∃ mode, n = some (.file c mode) := by
  unfold Node.content at h
  split at h
  · rename_i mode
    cases h
    exact ⟨mode, rfl⟩
  · cases h

theorem content_of_isDir {n : Option Node} (h : Node.isDir n = true) : Node.content n = none := by
  unfold Node.isDir at h
  split at h
  · rfl
  · cases h

theorem content_createDirAll (fs : FileSystem) (ls : List Loc) (k : Loc) :
    Node.content ((fs.createDirAll ls).2.node k) = Node.content (fs.node k) := by
  rcases createDirAll_node ls fs k with hsame | ⟨-, hnone, hdir⟩
  · rw [hsame]
  · rw [content_of_isDir hdir, hnone]
    rfl

theorem content_setPermissions {fs fs' : FileSystem} {l : Loc} {mode : Nat}
    (h : fs.setPermissions l mode = .ok fs') (k : Loc) :
    Node.content (fs'.node k) = Node.content (fs.node k) := by
  by_cases hk : k = l
  · subst hk
    unfold setPermissions at h
    split at h
    · cases h
    · rename_i hnode
      cases h
      have hold := congrArg Node.content hnode
      exact (congrArg Node.content (if_pos rfl)).trans hold.symm
    · rename_i hnode
      cases h
      have hold := congrArg Node.content hnode
      exact (congrArg Node.content (if_pos rfl)).trans hold.symm
  · rw [setPermissions_node h hk]

/-! ## Directories stay -/

theorem isDir_write {fs fs' : FileSystem} {l : Loc} {s : String} (h : fs.write l s = .ok fs')
    (k : Loc) : fs'.isDir k = fs.isDir k := by
  have hl : fs.isDir l = false := by
    unfold write at h
    split at h
    · cases h
    · rename_i hd
      simpa using hd
  by_cases hk : k = l
  · rw [hk, isDir, write_node h, if_pos rfl, hl]
    rfl
  · rw [isDir, write_node h, if_neg hk, isDir]

theorem isDir_setPermissions {fs fs' : FileSystem} {l : Loc} {mode : Nat}
    (h : fs.setPermissions l mode = .ok fs') (k : Loc) : fs'.isDir k = fs.isDir k := by
  unfold setPermissions at h
  split at h
  · cases h
  · rename_i hl
    cases h
    by_cases hk : k = l
    · rw [hk, isDir_file hl]
      exact congrArg Node.isDir (if_pos rfl)
    · exact congrArg Node.isDir (if_neg hk)
  · rename_i hl
    cases h
    by_cases hk : k = l
    · have hdir : fs.isDir l = true := by rw [isDir, hl, Node.isDir]
      rw [hk, hdir]
      exact congrArg Node.isDir (if_pos rfl)
    · exact congrArg Node.isDir (if_neg hk)

theorem isDir_removeFile {fs fs' : FileSystem} {l : Loc} (h : fs.removeFile l = .ok fs')
    (k : Loc) : fs'.isDir k = fs.isDir k := by
  have hnode := removeFile_node h k
  unfold removeFile at h
  split at h
  · cases h
  · cases h
  · rename_i hl
    by_cases hk : k = l
    · rw [hk, isDir_file hl, isDir, ← hk, hnode, if_pos hk]
      rfl
    · rw [isDir, hnode, if_neg hk, isDir]

/-- A removed directory is gone with all below it, and nothing becomes a directory. -/
theorem removeDirAll_isDir {fs fs' : FileSystem} {l : Loc} (h : fs.removeDirAll l = .ok fs') :
    fs'.isDir l = false ∧ ∀ k, fs'.isDir k = true → fs.isDir k = true := by
  unfold removeDirAll at h
  split at h
  · cases h
  · cases h
  · split at h
    · cases h
    · cases h
      refine ⟨congrArg Node.isDir (if_pos List.prefix_rfl), fun k hk => ?_⟩
      by_cases hl : l <+: k
      · simp only [isDir, if_pos hl] at hk
        cases hk
      · simp only [isDir, if_neg hl] at hk
        exact hk

theorem isDir_rename {fs fs' : FileSystem} {src dst : Loc} (h : fs.rename src dst = .ok fs')
    (k : Loc) : fs'.isDir k = fs.isDir k := by
  have hnode := rename_node h k
  unfold rename at h
  split at h
  · cases h
  · cases h
  · rename_i c mode hsrc
    split at h
    · rename_i hdst
      by_cases hkd : k = dst
      · rw [isDir, hnode, if_pos hkd, hsrc, hkd, hdst]
        rfl
      · by_cases hks : k = src
        · rw [isDir, hnode, if_neg hkd, if_pos hks, hks, isDir_file hsrc]
          rfl
        · rw [isDir, hnode, if_neg hkd, if_neg hks, isDir]
    · cases h

theorem isDir_createDirAll {fs : FileSystem} {k : Loc} (h : fs.isDir k = true) (ls : List Loc) :
    (fs.createDirAll ls).2.isDir k = true := by
  cases hn : fs.node k with
  | none =>
    rw [isDir, hn] at h
    cases h
  | some n =>
    rw [isDir, createDirAll_some hn]
    rwa [isDir, hn] at h

theorem makeDir_cases {fs fs' : FileSystem} {l : Loc} (h : fs.makeDir l = .ok fs') :
    (fs.isDir l = true ∧ fs' = fs) ∨
      (fs.node l = none ∧ fs.isDir l.dropLast = true ∧
        ∀ k, fs'.node k = if k = l then some (.dir 0o755) else fs.node k) := by
  unfold makeDir at h
  split at h
  · rename_i hl
    cases h
    exact Or.inl ⟨by rw [isDir, hl, Node.isDir], rfl⟩
  · cases h
  · rename_i hnone
    split at h
    · rename_i hparent
      cases h
      exact Or.inr ⟨hnone, hparent, fun _ => rfl⟩
    · cases h

theorem makeDir_of_isDir {fs : FileSystem} {l : Loc} (h : fs.isDir l = true) :
    fs.makeDir l = .ok fs := by
  unfold makeDir
  split
  · rfl
  · rename_i hl
    rw [isDir_file hl] at h
    cases h
  · rename_i hl
    rw [isDir, hl] at h
    cases h

theorem makeDir_of_none {fs : FileSystem} {l : Loc} (h : fs.node l = none)
    (hparent : fs.isDir l.dropLast = true) :
    ∃ fs', fs.makeDir l = .ok fs' ∧
      ∀ k, fs'.node k = if k = l then some (.dir 0o755) else fs.node k := by
  unfold makeDir
  split
  · rename_i hl
    rw [h] at hl
    cases hl
  · rename_i hl
    rw [h] at hl
    cases hl
  · rw [dif_pos hparent]
    exact ⟨_, rfl, fun _ => rfl⟩

/-- Once all directories on the way are made, they are there. -/
theorem isDir_of_createDirAll {fs : FileSystem} {ls : List Loc}
    (h : (fs.createDirAll ls).1 = .ok ()) : ∀ k ∈ ls, (fs.createDirAll ls).2.isDir k = true := by
  induction ls generalizing fs with
  | nil => exact fun k hk => absurd hk List.not_mem_nil
  | cons l ls ih =>
    rw [createDirAll] at h ⊢
    cases hmake : fs.makeDir l with
    | error e =>
      rw [hmake] at h
      cases h
    | ok fs' =>
      rw [hmake] at h
      intro k hk
      rcases List.mem_cons.mp hk with rfl | hrest
      · refine isDir_createDirAll ?_ ls
        rcases makeDir_cases hmake with ⟨hdir, rfl⟩ | ⟨-, -, hnode⟩
        · exact hdir
        · rw [isDir, hnode, if_pos rfl, Node.isDir]
      · exact ih h k hrest

theorem createDirAll_of_isDir {fs : FileSystem} {ls : List Loc}
    (h : ∀ k ∈ ls, fs.isDir k = true) : fs.createDirAll ls = (.ok (), fs) := by
  induction ls with
  | nil => rfl
  | cons l ls ih =>
    rw [createDirAll, makeDir_of_isDir (h l List.mem_cons_self)]
    exact ih fun k hk => h k (List.mem_cons_of_mem _ hk)

/-- Whether the directories can be made depends on the directories and on what
stands on the way. -/
theorem createDirAll_congr {fs fs' : FileSystem} {ls : List Loc}
    (hdirs : ∀ k, fs'.isDir k = fs.isDir k) (hnode : ∀ k ∈ ls, fs'.node k = fs.node k)
    (h : (fs.createDirAll ls).1 = .ok ()) : (fs'.createDirAll ls).1 = .ok () := by
  induction ls generalizing fs fs' with
  | nil => rfl
  | cons l ls ih =>
    have hl := hnode l List.mem_cons_self
    have hrest : ∀ k ∈ ls, fs'.node k = fs.node k :=
      fun k hk => hnode k (List.mem_cons_of_mem _ hk)
    cases hmake : fs.makeDir l with
    | error e =>
      rw [createDirAll, hmake] at h
      cases h
    | ok t =>
      rw [createDirAll, hmake] at h
      have hmake' : ∃ t', fs'.makeDir l = .ok t' ∧ (∀ k, t'.isDir k = t.isDir k) ∧
          ∀ k ∈ ls, t'.node k = t.node k := by
        rcases makeDir_cases hmake with ⟨hdir, rfl⟩ | ⟨hnone, hparent, hmade⟩
        · exact ⟨fs', makeDir_of_isDir ((hdirs l).trans hdir), hdirs, hrest⟩
        · obtain ⟨t', ht', hmade'⟩ :=
            makeDir_of_none (hl.trans hnone) ((hdirs _).trans hparent)
          refine ⟨t', ht', fun k => ?_, fun k hk => ?_⟩
          · rw [isDir, isDir, hmade', hmade]
            by_cases hkl : k = l
            · rw [if_pos hkl, if_pos hkl]
            · rw [if_neg hkl, if_neg hkl]
              exact hdirs k
          · rw [hmade', hmade, hrest k hk]
      obtain ⟨t', ht', hdirs', hnode'⟩ := hmake'
      rw [createDirAll, ht']
      exact ih hdirs' hnode' h

theorem isDir_createDirAll_eq {fs : FileSystem} {ls : List Loc}
    (h : (fs.createDirAll ls).1 = .ok ()) (k : Loc) :
    (fs.createDirAll ls).2.isDir k = (fs.isDir k || decide (k ∈ ls)) := by
  by_cases hk : k ∈ ls
  · rw [isDir_of_createDirAll h k hk, decide_eq_true hk, Bool.or_true]
  · rw [decide_eq_false hk, Bool.or_false]
    rcases createDirAll_node ls fs k with hsame | ⟨hmem, -, -⟩
    · rw [isDir, hsame, isDir]
    · exact absurd hmem hk

/-! ## Paths -/

/-- The place behind a component, in a directory. -/
def enter (fs : FileSystem) (l : Loc) (c : Component) : Except IoError Loc :=
  if fs.isDir l then .ok (Path.stepTo l c)
  else .error (if fs.pathExists l then .notADirectory else .notFound)

/-- The place a path leads to.  Every component but the last has to be a directory, and
the last one as well when the path ends in a separator or a dot. -/
def find (fs : FileSystem) (p : Path) : Except IoError Loc :=
  (p.components.foldlM fs.enter []).bind fun l =>
    if p.ending = .plain then .ok l else fs.enter l .curDir

def atPath {α : Type} (fs : FileSystem) (p : Path) (op : FileSystem → Loc → Except IoError α) :
    Except IoError α :=
  (fs.find p).bind (op fs)

/-- `Path::exists`. -/
def pathFound (fs : FileSystem) (p : Path) : Bool :=
  match fs.find p with
  | .ok l => fs.pathExists l
  | .error _ => false

theorem enter_eq_ok {fs : FileSystem} {l k : Loc} {c : Component} (h : fs.enter l c = .ok k) :
    fs.isDir l = true ∧ k = Path.stepTo l c := by
  unfold enter at h
  split at h
  · rename_i hdir
    cases h
    exact ⟨hdir, rfl⟩
  · cases h

theorem enter_of_isDir {fs : FileSystem} {l : Loc} (h : fs.isDir l = true) (c : Component) :
    fs.enter l c = .ok (Path.stepTo l c) := if_pos h

/-- A walk goes the same way in a tree that has the directories of another. -/
theorem foldlM_enter {fs fs' : FileSystem}
    (hmono : ∀ k, fs.isDir k = true → fs'.isDir k = true) (cs : List Component) (start : Loc)
    {l : Loc} (h : cs.foldlM fs.enter start = .ok l) :
    l = cs.foldl Path.stepTo start ∧ cs.foldlM fs'.enter start = .ok l := by
  induction cs generalizing start with
  | nil =>
    cases h
    exact ⟨rfl, rfl⟩
  | cons c cs ih =>
    rw [List.foldlM_cons] at h ⊢
    cases henter : fs.enter start c with
    | error e =>
      rw [henter] at h
      cases h
    | ok k =>
      rw [henter] at h
      obtain ⟨hdir, rfl⟩ := enter_eq_ok henter
      rw [enter_of_isDir (hmono start hdir)]
      exact ih _ h

/-- A path that leads somewhere walks there, to a directory if it does not end plainly. -/
theorem find_eq_ok_iff {fs : FileSystem} {p : Path} {l : Loc} :
    fs.find p = .ok l ↔ p.components.foldlM fs.enter [] = .ok l ∧
      (p.ending = .plain ∨ fs.isDir l = true) := by
  unfold find
  cases hwalk : p.components.foldlM fs.enter [] with
  | error e => exact ⟨fun h => (by cases h), fun h => by cases h.1⟩
  | ok k =>
    rw [Except.bind]
    by_cases hplain : p.ending = .plain
    · rw [if_pos hplain]
      exact ⟨fun h => ⟨h, Or.inl hplain⟩, fun h => h.1⟩
    · rw [if_neg hplain]
      constructor
      · intro h
        obtain ⟨hdir, rfl⟩ := enter_eq_ok h
        exact ⟨rfl, Or.inr hdir⟩
      · rintro ⟨h, hend⟩
        cases h
        exact enter_of_isDir (hend.resolve_left hplain) .curDir

theorem find_eq_ok {fs : FileSystem} {p : Path} {l : Loc} (h : fs.find p = .ok l) :
    l = p.resolve := (foldlM_enter (fun _ hk => hk) p.components [] (find_eq_ok_iff.mp h).1).1

theorem find_mono {fs fs' : FileSystem} (hmono : ∀ k, fs.isDir k = true → fs'.isDir k = true)
    {p : Path} {l : Loc} (h : fs.find p = .ok l) : fs'.find p = .ok l := by
  obtain ⟨hwalk, hend⟩ := find_eq_ok_iff.mp h
  exact find_eq_ok_iff.mpr
    ⟨(foldlM_enter hmono p.components [] hwalk).2, hend.imp_right (hmono l)⟩

/-- A path that does not end plainly leads to a directory. -/
theorem ending_of_find {fs : FileSystem} {p : Path} {l : Loc} (h : fs.find p = .ok l)
    (hl : fs.isDir l = false) : p.ending = .plain := by
  refine (find_eq_ok_iff.mp h).2.resolve_right fun hdir => ?_
  rw [hl] at hdir
  cases hdir

theorem atPath_eq_ok {α : Type} {fs : FileSystem} {p : Path}
    {op : FileSystem → Loc → Except IoError α} {a : α} (h : fs.atPath p op = .ok a) :
    fs.find p = .ok p.resolve ∧ op fs p.resolve = .ok a := by
  unfold atPath at h
  cases hf : fs.find p with
  | error e =>
    rw [hf] at h
    cases h
  | ok l =>
    rw [hf] at h
    have hl := find_eq_ok hf
    subst hl
    exact ⟨rfl, h⟩

theorem pathFound_of_find {fs : FileSystem} {p : Path} (h : fs.find p = .ok p.resolve) :
    fs.pathFound p = fs.pathExists p.resolve := by
  rw [pathFound, h]

theorem find_of_pathFound {fs : FileSystem} {p : Path} (h : fs.pathFound p = true) :
    fs.find p = .ok p.resolve := by
  unfold pathFound at h
  cases hfind : fs.find p with
  | ok l => rw [find_eq_ok hfind]
  | error e =>
    rw [hfind] at h
    cases h

theorem pathFound_of_none {fs : FileSystem} {p : Path} (h : fs.node p.resolve = none) :
    fs.pathFound p = false := by
  unfold pathFound
  cases hf : fs.find p with
  | error e => rfl
  | ok l =>
    show fs.pathExists l = false
    rw [find_eq_ok hf, pathExists, h]
    rfl

/-- What a path finds depends on the directories and on its own place. -/
theorem pathFound_congr {fs fs' : FileSystem} {p : Path} (hdirs : ∀ k, fs'.isDir k = fs.isDir k)
    (hnode : fs'.node p.resolve = fs.node p.resolve) : fs'.pathFound p = fs.pathFound p := by
  cases hf : fs.find p with
  | ok l =>
    have hl := find_eq_ok hf
    subst hl
    have hf' : fs'.find p = .ok p.resolve := find_mono (fun k hk => (hdirs k).trans hk) hf
    rw [pathFound_of_find hf, pathFound_of_find hf', pathExists, pathExists, hnode]
  | error e =>
    have hnone : ∀ l, fs'.find p ≠ .ok l := by
      intro l hl
      have hmono : ∀ k, fs'.isDir k = true → fs.isDir k = true :=
        fun k hk => (hdirs k).symm.trans hk
      have hback := find_mono hmono hl
      rw [hf] at hback
      cases hback
    unfold pathFound
    rw [hf]
    cases hf' : fs'.find p with
    | error e => rfl
    | ok l => exact absurd hf' (hnone l)

theorem isDir_of_append {fs : FileSystem} {l k : Loc} (h : fs.isDir (l ++ k) = true) :
    fs.isDir l = true := by
  induction k generalizing l with
  | nil => rwa [List.append_nil] at h
  | cons name k ih =>
    rw [← List.singleton_append, ← List.append_assoc] at h
    have hbelow := ih h
    refine fs.closed l name fun hnone => ?_
    rw [isDir, hnone] at hbelow
    cases hbelow

theorem foldlM_enter_names {fs : FileSystem} (names : List String) (start : Loc)
    (h : fs.isDir (start ++ names) = true) :
    (names.map Component.normal).foldlM fs.enter start = .ok (start ++ names) := by
  induction names generalizing start with
  | nil =>
    rw [List.append_nil]
    rfl
  | cons name names ih =>
    rw [List.map_cons, List.foldlM_cons, enter_of_isDir (isDir_of_append h)]
    have hassoc : start ++ name :: names = start ++ [name] ++ names := by simp
    rw [hassoc] at h ⊢
    exact ih (start ++ [name]) h

/-- A directory is found by the path of its name. -/
theorem find_of_isDir {fs : FileSystem} (absolute : Bool) {names : List String} (ending : Ending)
    (h : fs.isDir names = true) :
    fs.find ⟨absolute, names.map Component.normal, ending⟩ = .ok names :=
  find_eq_ok_iff.mpr ⟨foldlM_enter_names names [] h, Or.inr h⟩

/-- What is there is found by the path of its name. -/
theorem find_of_node {fs : FileSystem} (absolute : Bool) {names : List String}
    (h : fs.node names ≠ none) :
    fs.find ⟨absolute, names.map Component.normal, .plain⟩ = .ok names := by
  refine find_eq_ok_iff.mpr ⟨?_, Or.inl rfl⟩
  rcases List.eq_nil_or_concat names with rfl | ⟨init, name, rfl⟩
  · rfl
  · rw [List.concat_eq_append] at h ⊢
    have hdir : fs.isDir init = true := fs.closed init name h
    have habove : (init.map Component.normal).foldlM fs.enter [] = .ok init :=
      foldlM_enter_names init [] hdir
    show ((init ++ [name]).map Component.normal).foldlM fs.enter [] = _
    rw [List.map_append, List.foldlM_append, habove]
    show [Component.normal name].foldlM fs.enter init = _
    rw [List.foldlM_cons, enter_of_isDir hdir]
    rfl

theorem foldlM_enter_passed {fs : FileSystem} (cs : List Component) (c : Component) (start : Loc)
    {l : Loc} (h : (cs ++ [c]).foldlM fs.enter start = .ok l) :
    (∀ k ∈ cs.scanl Path.stepTo start, fs.isDir k = true) ∧
      l = Path.stepTo (cs.foldl Path.stepTo start) c := by
  induction cs generalizing start with
  | nil =>
    rw [List.nil_append, List.foldlM_cons] at h
    cases henter : fs.enter start c with
    | error e =>
      rw [henter] at h
      cases h
    | ok k =>
      rw [henter] at h
      obtain ⟨hdir, rfl⟩ := enter_eq_ok henter
      cases h
      exact ⟨by simpa using hdir, rfl⟩
  | cons b cs ih =>
    rw [List.cons_append, List.foldlM_cons] at h
    cases henter : fs.enter start b with
    | error e =>
      rw [henter] at h
      cases h
    | ok k =>
      rw [henter] at h
      obtain ⟨hdir, rfl⟩ := enter_eq_ok henter
      obtain ⟨hdirs, hl⟩ := ih _ h
      refine ⟨fun k hk => ?_, hl⟩
      rw [List.scanl_cons] at hk
      rcases List.mem_cons.mp hk with rfl | hrest
      · exact hdir
      · exact hdirs k hrest

/-- The directories above a path that leads somewhere are there. -/
theorem isDir_of_mem_trail {fs : FileSystem} {p q : Path} {l : Loc} (h : fs.find p = .ok l)
    (hq : p.parent = some q) : ∀ k ∈ q.trail, fs.isDir k = true := by
  obtain ⟨absolute, components, ending⟩ := p
  rcases List.eq_nil_or_concat components with rfl | ⟨init, c, rfl⟩
  · simp [Path.parent] at hq
  · rw [List.concat_eq_append] at hq h
    have hparent : q = ⟨absolute, init, .plain⟩ := by
      simp only [Path.parent, List.append_eq_nil_iff, List.cons_ne_nil, and_false, if_false,
        List.dropLast_concat, Option.some.injEq] at hq
      exact hq.symm
    intro k hk
    rw [hparent] at hk
    exact (foldlM_enter_passed init c [] (find_eq_ok_iff.mp h).1).1 k (List.mem_of_mem_tail hk)

/-- A directory is reached by the path whose places are directories. -/
theorem isDir_resolve {fs : FileSystem} {q : Path} (h : ∀ k ∈ q.trail, fs.isDir k = true) :
    fs.isDir q.resolve = true := by
  obtain ⟨absolute, components, ending⟩ := q
  rcases List.eq_nil_or_concat components with rfl | ⟨init, c, rfl⟩
  · exact fs.root
  · refine h _ ?_
    have hne : init.scanl Path.stepTo [] ≠ [] := List.scanl_ne_nil
    rw [List.concat_eq_append, Path.trail, Path.resolve, List.scanl_append,
      List.tail_append_of_ne_nil hne]
    simp

theorem foldlM_enter_reached {fs : FileSystem} (cs : List Component) (start : Loc)
    (hstart : fs.isDir start = true)
    (h : ∀ k ∈ (cs.scanl Path.stepTo start).tail, fs.isDir k = true) :
    cs.foldlM fs.enter start = .ok (cs.foldl Path.stepTo start) := by
  induction cs generalizing start with
  | nil => rfl
  | cons c cs ih =>
    rw [List.scanl_cons, List.tail_cons] at h
    rw [List.foldlM_cons, enter_of_isDir hstart, List.foldl_cons]
    refine ih _ (h _ ?_) fun k hk => h k (List.mem_of_mem_tail hk)
    cases cs with
    | nil => simp
    | cons b cs => simp [List.scanl_cons]

/-- Over directories a plain path leads to its place. -/
theorem find_of_reached {fs : FileSystem} {p q : Path} (hplain : p.ending = .plain)
    (hq : p.parent = some q) (h : ∀ k ∈ q.trail, fs.isDir k = true) :
    fs.find p = .ok p.resolve := by
  obtain ⟨absolute, components, ending⟩ := p
  rcases List.eq_nil_or_concat components with rfl | ⟨init, c, rfl⟩
  · simp [Path.parent] at hq
  · rw [List.concat_eq_append] at hq ⊢
    have hparent : q = ⟨absolute, init, .plain⟩ := by
      simp only [Path.parent, List.append_eq_nil_iff, List.cons_ne_nil, and_false, if_false,
        List.dropLast_concat, Option.some.injEq] at hq
      exact hq.symm
    subst hparent
    have hwalk := foldlM_enter_reached init [] fs.root h
    have hlast : fs.isDir (init.foldl Path.stepTo []) = true := isDir_resolve h
    refine find_eq_ok_iff.mpr ⟨?_, Or.inl hplain⟩
    show (init ++ [c]).foldlM fs.enter [] = _
    rw [List.foldlM_append, hwalk]
    show [c].foldlM fs.enter (init.foldl Path.stepTo []) = _
    rw [List.foldlM_cons, enter_of_isDir hlast, Path.resolve_append absolute init c ending .plain]
    rfl

theorem isDir_stepTo_dropLast {fs : FileSystem} {l : Loc} {c : Component}
    (hdir : fs.isDir l = true) (hnone : fs.node (Path.stepTo l c) = none) :
    fs.isDir (Path.stepTo l c).dropLast = true := by
  have hthere : fs.node l ≠ none := by
    intro hl
    rw [isDir, hl] at hdir
    cases hdir
  cases c with
  | normal name =>
    rw [Path.stepTo, List.dropLast_concat]
    exact hdir
  | parentDir =>
    -- the place above a directory is there
    have habove : fs.isDir l.dropLast = true := by
      rcases isDir_dropLast hthere with rfl | habove
      · exact fs.root
      · exact habove
    rw [isDir, show fs.node l.dropLast = none from hnone] at habove
    cases habove
  | curDir => exact absurd hnone hthere

/-- The directories along a walk can be made when no file stands on it. -/
theorem createDirAll_walk {fs : FileSystem} (cs : List Component) (start : Loc)
    (hstart : fs.isDir start = true)
    (h : ∀ k ∈ (cs.scanl Path.stepTo start).tail, fs.node k ≠ none → fs.isDir k = true) :
    (fs.createDirAll (cs.scanl Path.stepTo start).tail).1 = .ok () := by
  induction cs generalizing fs start with
  | nil => rfl
  | cons c cs ih =>
    have hplaces : ((c :: cs).scanl Path.stepTo start).tail =
        Path.stepTo start c :: (cs.scanl Path.stepTo (Path.stepTo start c)).tail := by
      cases cs <;> simp [List.scanl_cons]
    rw [hplaces] at h ⊢
    have hrest := fun k hk => h k (List.mem_cons_of_mem _ hk)
    rw [createDirAll]
    by_cases hnone : fs.node (Path.stepTo start c) = none
    · obtain ⟨fs', hmake, hnode⟩ := makeDir_of_none hnone (isDir_stepTo_dropLast hstart hnone)
      rw [hmake]
      refine ih _ ?_ fun k hk hthere => ?_
      · rw [isDir, hnode, if_pos rfl, Node.isDir]
      · by_cases hkl : k = Path.stepTo start c
        · rw [isDir, hnode, if_pos hkl, Node.isDir]
        · rw [hnode, if_neg hkl] at hthere
          rw [isDir, hnode, if_neg hkl]
          exact hrest k hk hthere
    · have hdir := h _ List.mem_cons_self hnone
      rw [makeDir_of_isDir hdir]
      exact ih _ hdir hrest

/-- The directories above a path can be made exactly when no file stands on the way. -/
theorem createDirAll_trail_iff (fs : FileSystem) (q : Path) :
    (fs.createDirAll q.trail).1 = .ok () ↔
      ∀ k ∈ q.trail, fs.node k ≠ none → fs.isDir k = true := by
  constructor
  · intro h k hk hthere
    have hmade := isDir_of_createDirAll h k hk
    rcases createDirAll_node q.trail fs k with hsame | ⟨-, hnone, -⟩
    · rwa [isDir, hsame] at hmade
    · exact absurd hnone hthere
  · exact createDirAll_walk q.components [] fs.root

theorem node_eq_none_of_not_isDir {fs : FileSystem} {k : Loc}
    (h : fs.node k ≠ none → fs.isDir k = true) (hd : ¬fs.isDir k = true) : fs.node k = none := by
  cases hn : fs.node k with
  | none => rfl
  | some n => exact absurd (h (by simp [hn])) hd

theorem foldlM_enter_broken {fs : FileSystem} (cs : List Component) (c : Component) (start : Loc)
    (h : ∀ k ∈ cs.scanl Path.stepTo start, fs.node k ≠ none → fs.isDir k = true) :
    (∃ l, (cs ++ [c]).foldlM fs.enter start = .ok l) ∨
      (cs ++ [c]).foldlM fs.enter start = .error .notFound := by
  induction cs generalizing start with
  | nil =>
    rw [List.nil_append, List.foldlM_cons]
    by_cases hd : fs.isDir start = true
    · rw [enter_of_isDir hd]
      exact Or.inl ⟨_, rfl⟩
    · rw [enter, if_neg hd, pathExists, node_eq_none_of_not_isDir (h start (by simp)) hd]
      exact Or.inr rfl
  | cons b cs ih =>
    rw [List.scanl_cons] at h
    rw [List.cons_append, List.foldlM_cons]
    by_cases hd : fs.isDir start = true
    · rw [enter_of_isDir hd]
      exact ih _ fun k hk => h k (List.mem_cons_of_mem _ hk)
    · rw [enter, if_neg hd, pathExists,
        node_eq_none_of_not_isDir (h start List.mem_cons_self) hd]
      exact Or.inr rfl

/-- A way on which no file stands leads to its end or breaks off. -/
theorem find_notFound {fs : FileSystem} {p q : Path} (hplain : p.ending = .plain)
    (hq : p.parent = some q) (h : ∀ k ∈ q.trail, fs.node k ≠ none → fs.isDir k = true) :
    fs.find p = .ok p.resolve ∨ fs.find p = .error .notFound := by
  obtain ⟨absolute, components, ending⟩ := p
  rcases List.eq_nil_or_concat components with rfl | ⟨init, c, rfl⟩
  · simp [Path.parent] at hq
  · rw [List.concat_eq_append] at hq ⊢
    have hparent : q = ⟨absolute, init, .plain⟩ := by
      simp only [Path.parent, List.append_eq_nil_iff, List.cons_ne_nil, and_false, if_false,
        List.dropLast_concat, Option.some.injEq] at hq
      exact hq.symm
    have hplaces : ∀ k ∈ init.scanl Path.stepTo [], fs.node k ≠ none → fs.isDir k = true := by
      intro k hk hthere
      rw [hparent, Path.trail] at h
      cases init with
      | nil =>
        rw [List.scanl_nil, List.mem_singleton] at hk
        rw [hk]
        exact fs.root
      | cons b cs =>
        rw [List.scanl_cons] at hk h
        rcases List.mem_cons.mp hk with rfl | hrest
        · exact fs.root
        · exact h k hrest hthere
    rcases foldlM_enter_broken init c [] hplaces with ⟨l, hl⟩ | herror
    · have hfind : fs.find ⟨absolute, init ++ [c], ending⟩ = .ok l :=
        find_eq_ok_iff.mpr ⟨hl, Or.inl hplain⟩
      exact Or.inl (hfind.trans (congrArg Except.ok (find_eq_ok hfind)))
    · refine Or.inr ?_
      rw [find, herror]
      rfl

theorem isDir_of_fileName_none {fs : FileSystem} {p : Path} {l : Loc} (h : fs.find p = .ok l)
    (hp : p.fileName = none) : fs.isDir l = true := by
  have hwalk := (find_eq_ok_iff.mp h).1
  obtain ⟨absolute, components, ending⟩ := p
  rcases List.eq_nil_or_concat components with rfl | ⟨init, c, rfl⟩
  · cases hwalk
    exact fs.root
  · rw [List.concat_eq_append] at hp hwalk
    obtain ⟨hdirs, rfl⟩ := foldlM_enter_passed init c [] hwalk
    have hlast : fs.isDir (init.foldl Path.stepTo []) = true := by
      refine hdirs _ ?_
      have hne : init.scanl Path.stepTo [] ≠ [] := List.scanl_ne_nil
      rw [← List.getLast_scanl hne]
      exact List.getLast_mem hne
    cases c with
    | normal name => simp [Path.fileName] at hp
    | curDir => exact hlast
    | parentDir =>
      have hthere : fs.node (init.foldl Path.stepTo []) ≠ none := by
        intro hnone
        rw [isDir, hnone] at hlast
        cases hlast
      rcases isDir_dropLast hthere with hroot | hparent
      · rw [hroot]
        exact fs.root
      · exact hparent

end FileSystem

end Fs
end Konstantin
