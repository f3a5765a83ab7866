import Konstantin.Daemon.AtomicWrite

/-!
# The tree on which a write passes

The calls of the model fail only for what the tree holds.  `Room` is what the calls
of an atomic write need of the tree on which it begins, and `Clear` says the same of
the tree itself: which files and directories stand in the way.
-/

namespace Konstantin
namespace Daemon

open Fs Effect

/-- What a write that is alone needs of the tree it begins on. -/
structure Room (tmp path : Path) (fs : FileSystem) : Prop where
  made : (fs.createDirAll (above path)).1 = .ok ()
  found : (fs.createDirAll (above path)).2.find path = .ok path.resolve
  foundTmp : (fs.createDirAll (above path)).2.find tmp = .ok tmp.resolve
  free : (fs.createDirAll (above path)).2.isDir path.resolve = false
  freeTmp : (fs.createDirAll (above path)).2.isDir tmp.resolve = false
  dir : (fs.createDirAll (above path)).2.isDir path.resolve.dropLast = true
  dirTmp : (fs.createDirAll (above path)).2.isDir tmp.resolve.dropLast = true

/-- The directories above the path are there. -/
def Reached (path : Path) (fs : FileSystem) : Prop := ∀ k ∈ above path, fs.isDir k = true

namespace Room

variable {tmp path : Path} {fs fs' : FileSystem}

theorem not_above (h : Room tmp path fs) : path.resolve ∉ above path := by
  intro hmem
  have hdir := FileSystem.isDir_of_createDirAll h.made _ hmem
  rw [h.free] at hdir
  cases hdir

theorem tmp_not_above (h : Room tmp path fs) : tmp.resolve ∉ above path := by
  intro hmem
  have hdir := FileSystem.isDir_of_createDirAll h.made _ hmem
  rw [h.freeTmp] at hdir
  cases hdir

/-- A call that changes only the marker and the temporary, and no directory. -/
theorem keep (h : Room tmp path fs) (hdirs : ∀ k, fs'.isDir k = fs.isDir k)
    (hnode : ∀ k, k ≠ tmp.resolve → k ≠ path.resolve → fs'.node k = fs.node k) :
    Room tmp path fs' := by
  have habove : ∀ k ∈ above path, fs'.node k = fs.node k := by
    intro k hk
    refine hnode k ?_ ?_
    · rintro rfl
      exact h.tmp_not_above hk
    · rintro rfl
      exact h.not_above hk
  have hmade := FileSystem.createDirAll_congr hdirs habove h.made
  have hsame : ∀ k, (fs'.createDirAll (above path)).2.isDir k =
      (fs.createDirAll (above path)).2.isDir k := by
    intro k
    rw [FileSystem.isDir_createDirAll_eq hmade, FileSystem.isDir_createDirAll_eq h.made, hdirs]
  have hmono : ∀ k, (fs.createDirAll (above path)).2.isDir k = true →
      (fs'.createDirAll (above path)).2.isDir k = true := fun k hk => (hsame k).trans hk
  exact ⟨hmade, FileSystem.find_mono hmono h.found, FileSystem.find_mono hmono h.foundTmp,
    (hsame _).trans h.free, (hsame _).trans h.freeTmp, (hsame _).trans h.dir,
    (hsame _).trans h.dirTmp⟩

theorem reached (h : Room tmp path fs) : Reached path (fs.createDirAll (above path)).2 :=
  FileSystem.isDir_of_createDirAll h.made

theorem create (h : Room tmp path fs) : Room tmp path (fs.createDirAll (above path)).2 := by
  have hsame := FileSystem.createDirAll_of_isDir h.reached
  obtain ⟨-, hfound, hfoundTmp, hfree, hfreeTmp, hdir, hdirTmp⟩ := h
  constructor <;> rw [hsame] <;> assumption

/-- No directory stands at the path, made or not. -/
theorem free_now (h : Room tmp path fs) : fs.isDir path.resolve = false := by
  cases hdir : fs.isDir path.resolve with
  | false => rfl
  | true =>
    have hlater := FileSystem.isDir_createDirAll hdir (above path)
    rw [h.free] at hlater
    cases hlater

theorem created_node (h : Room tmp path fs) :
    (fs.createDirAll (above path)).2.node path.resolve = fs.node path.resolve :=
  createDirAll_same (Or.inl h.not_above)

theorem created_nodeTmp (h : Room tmp path fs) :
    (fs.createDirAll (above path)).2.node tmp.resolve = fs.node tmp.resolve :=
  createDirAll_same (Or.inl h.tmp_not_above)

theorem find_or (h : Room tmp path fs) :
    fs.find path = .ok path.resolve ∨ fs.find path = .error .notFound := by
  cases hparent : path.parent with
  | none =>
    have hmade : (fs.createDirAll (above path)).2 = fs := by
      rw [above, hparent]
      rfl
    exact Or.inl (hmade ▸ h.found)
  | some parent =>
    have hplain := FileSystem.ending_of_find h.found h.free
    refine FileSystem.find_notFound hplain hparent fun k hk hthere => ?_
    have hmem : k ∈ above path := by
      rw [above, hparent]
      exact hk
    have hlater := FileSystem.isDir_of_createDirAll h.made k hmem
    rwa [FileSystem.isDir, createDirAll_same (Or.inr hthere)] at hlater

section

variable (h : Room tmp path fs) (hreached : Reached path fs)

include h hreached

theorem now : fs.find path = .ok path.resolve ∧ fs.find tmp = .ok tmp.resolve ∧
    fs.isDir tmp.resolve = false ∧ fs.isDir path.resolve.dropLast = true ∧
      fs.isDir tmp.resolve.dropLast = true := by
  have hsame := FileSystem.createDirAll_of_isDir hreached
  have hfound := h.found
  have hfoundTmp := h.foundTmp
  have hfree := h.freeTmp
  have hdir := h.dir
  have hdirTmp := h.dirTmp
  rw [hsame] at hfound hfoundTmp hfree hdir hdirTmp
  exact ⟨hfound, hfoundTmp, hfree, hdir, hdirTmp⟩

theorem write_ok (text : String) :
    ∃ fs', fs.atPath tmp (fun fs l => fs.write l text) = .ok fs' := by
  obtain ⟨-, hfind, hfree, -, hdir⟩ := h.now hreached
  rw [FileSystem.atPath, hfind]
  show ∃ fs', fs.write tmp.resolve text = .ok fs'
  unfold FileSystem.write
  rw [dif_neg (by rw [hfree]; exact Bool.false_ne_true), dif_pos hdir]
  exact ⟨_, rfl⟩

theorem rename_ok {content : Content} {mode : Nat}
    (hsrc : fs.node tmp.resolve = some (.file content mode)) :
    ∃ fs', fs.atPath tmp (fun fs src => fs.atPath path fun fs dst => fs.rename src dst) =
      .ok fs' := by
  obtain ⟨hfind, hfindTmp, -, hdir, -⟩ := h.now hreached
  rw [FileSystem.atPath, hfindTmp]
  show ∃ fs', fs.atPath path (fun fs dst => fs.rename tmp.resolve dst) = .ok fs'
  rw [FileSystem.atPath, hfind]
  show ∃ fs', fs.rename tmp.resolve path.resolve = .ok fs'
  cases hrename : fs.rename tmp.resolve path.resolve with
  | ok fs' => exact ⟨fs', rfl⟩
  | error e =>
    have hdst := FileSystem.rename_error hsrc hdir hrename
    rw [h.free_now] at hdst
    cases hdst

end

theorem remove_ok (h : Room tmp path fs) :
    ∃ fs', ifExists fs (fs.atPath path FileSystem.removeFile) = .ok fs' := by
  rcases h.find_or with hfind | hfind
  · rw [FileSystem.atPath, hfind]
    show ∃ fs', ifExists fs (fs.removeFile path.resolve) = .ok fs'
    unfold FileSystem.removeFile
    split
    · exact ⟨fs, rfl⟩
    · rename_i hdir
      have hfree := h.free_now
      rw [FileSystem.isDir, hdir] at hfree
      cases hfree
    · exact ⟨_, rfl⟩
  · rw [FileSystem.atPath, hfind]
    exact ⟨fs, rfl⟩

/-- A write that passes has found what it needs. -/
theorem of_writeThrough {text : String} (hmade : (fs.createDirAll (above path)).1 = .ok ())
    (h : ((writeThrough tmp path text).outcome (fs.createDirAll (above path)).2).1 = .ok ()) :
    Room tmp path fs := by
  obtain ⟨u₂, fs₂, hwrite, h⟩ := Fallible.bind_ok h
  obtain ⟨u₃, fs₃, hchmod, h⟩ := Fallible.bind_ok h
  obtain ⟨u₄, fs₄, hrename, -⟩ := Fallible.bind_ok h
  have hstaged := staged_write (Fallible.change_ok hwrite)
  obtain ⟨hfoundTmp, hwrite⟩ := FileSystem.atPath_eq_ok (Fallible.change_ok hwrite)
  have hchmod := (FileSystem.atPath_eq_ok (Fallible.change_ok hchmod)).2
  have hdirs : ∀ k, fs₃.isDir k = (fs.createDirAll (above path)).2.isDir k :=
    fun k => (FileSystem.isDir_setPermissions hchmod k).trans (hstaged.dirs k)
  obtain ⟨hfound, hmove⟩ :=
    FileSystem.atPath_eq_ok (FileSystem.atPath_eq_ok (Fallible.change_ok hrename)).2
  obtain ⟨hfreeTmp, hdirTmp⟩ := FileSystem.write_target hwrite
  have hfree := (FileSystem.rename_source hmove).1
  have hdir := FileSystem.rename_target hmove
  rw [hdirs] at hfree hdir
  exact ⟨hmade, FileSystem.find_mono (fun k hk => (hdirs k).symm.trans hk) hfound, hfoundTmp,
    hfree, hfreeTmp, hdir, hdirTmp⟩

theorem writeThrough_ok (h : Room tmp path fs) (text : String) :
    ((writeThrough tmp path text).outcome (fs.createDirAll (above path)).2).1 = .ok () := by
  obtain ⟨fs₂, hwrite⟩ := h.create.write_ok h.reached text
  have hwritten := staged_write hwrite
  obtain ⟨fs₃, hchmod⟩ := chmod_file hwritten.found hwritten.temp
  have hstaged := staged_chmod hwritten hchmod
  have hroom : Room tmp path fs₃ :=
    h.create.keep hstaged.dirs fun k hk _ => hstaged.frame k hk
  have hreached : Reached path fs₃ := fun k hk => (hstaged.dirs k).trans (h.reached k hk)
  obtain ⟨fs₄, hrename⟩ := hroom.rename_ok hreached hstaged.temp
  have hrenamed := renamed_rename hstaged hrename
  obtain ⟨fs₅, hlast⟩ := chmod_file hrenamed.found hrenamed.target
  rw [writeThrough, Fallible.change_bind hwrite, setMode0600, Fallible.change_bind hchmod,
    Fallible.change_bind hrename, setMode0600, Fallible.outcome_change, hlast]

end Room

/-! ## Whether a write passes -/

/-- A write that first makes the directories above its path. -/
theorem written_ok_iff {x : Fallible FileSystem Unit} {tmp path : Path} {fs : FileSystem}
    {message : String} (text : String)
    (hx : x.outcome fs = ((fs.createDirAll (above path)).1.mapError fun _ => message,
      (fs.createDirAll (above path)).2)) :
    ((x >>= fun _ => writeThrough tmp path text).outcome fs).1 = .ok () ↔ Room tmp path fs := by
  rw [Fallible.outcome_bind, hx]
  cases hmade : (fs.createDirAll (above path)).1 with
  | error e =>
    constructor
    · intro h
      cases h
    · intro h
      have hmade' := h.made
      rw [hmade] at hmade'
      cases hmade'
  | ok u => exact ⟨Room.of_writeThrough hmade, fun h => h.writeThrough_ok text⟩

theorem writeMarkerAtomic_ok_iff (pid : Nat) (path : Path) (fs : FileSystem) :
    ((writeMarkerAtomic pid path).outcome fs).1 = .ok () ↔
      path.parent ≠ none ∧ Room (tmpPath pid path "marker") path fs := by
  unfold writeMarkerAtomic
  cases hparent : path.parent with
  | none =>
    constructor
    · intro h
      cases h
    · intro h
      exact absurd rfl h.1
  | some parent =>
    have habove : above path = parent.trail := by rw [above, hparent, Option.elim_some]
    rw [and_iff_right (Option.some_ne_none parent)]
    have hfirst :=
      outcome_createDirAll ("creating kill-switch dir " ++ parent.display) parent fs
    rw [← habove] at hfirst
    exact written_ok_iff markerText hfirst

theorem writeConfigAtomic_ok_iff (pid : Nat) (path : Path) (toml : String) (fs : FileSystem) :
    ((writeConfigAtomic pid path toml).outcome fs).1 = .ok () ↔
      Room (tmpPath pid path "toml") path fs := by
  have hnothing : above path = [] → (pure () : Fallible FileSystem Unit).outcome fs =
      ((fs.createDirAll (above path)).1.mapError fun _ => "",
        (fs.createDirAll (above path)).2) := fun h => by rw [h]; rfl
  unfold writeConfigAtomic createConfigDir
  cases hparent : path.parent with
  | none =>
    exact written_ok_iff toml (hnothing (above_eq_nil fun q hq => by rw [hparent] at hq; cases hq))
  | some parent =>
    by_cases hempty : parent.isEmpty = true
    · simp only [hempty, if_true]
      refine written_ok_iff toml (hnothing (above_eq_nil fun q hq => ?_))
      rw [hparent] at hq
      cases hq
      exact hempty
    · simp only [hempty, Bool.false_eq_true, if_false]
      have habove : above path = parent.trail := by rw [above, hparent, Option.elim_some]
      have hfirst := outcome_createDirAll ("creating config dir " ++ parent.display) parent fs
      rw [← habove] at hfirst
      exact written_ok_iff toml hfirst

/-! ## What stands in the way -/

/-- No file stands above the path, the path ends in a name, and neither its place nor
that of its temporary is a directory or has to become one. -/
structure Clear (tmp path : Path) (fs : FileSystem) : Prop where
  way : ∀ k ∈ above path, fs.pathExists k = true → fs.isDir k = true
  ending : path.ending = .plain
  free : fs.isDir path.resolve = false
  freeTmp : fs.isDir tmp.resolve = false
  apart : path.resolve ∉ above path
  apartTmp : tmp.resolve ∉ above path

theorem clear_iff (tmp path : Path) (fs : FileSystem) :
    Clear tmp path fs ↔
      (∀ k ∈ above path, fs.pathExists k = true → fs.isDir k = true) ∧
        path.ending = .plain ∧ fs.isDir path.resolve = false ∧ fs.isDir tmp.resolve = false ∧
          (above path).contains path.resolve = false ∧
            (above path).contains tmp.resolve = false := by
  have hcontains : ∀ k, (above path).contains k = false ↔ k ∉ above path := by
    intro k
    rw [← Bool.not_eq_true, List.contains_iff_mem]
  rw [hcontains, hcontains]
  constructor
  · intro h
    exact ⟨h.way, h.ending, h.free, h.freeTmp, h.apart, h.apartTmp⟩
  · rintro ⟨hway, hending, hfree, hfreeTmp, hapart, hapartTmp⟩
    exact ⟨hway, hending, hfree, hfreeTmp, hapart, hapartTmp⟩

instance (tmp path : Path) (fs : FileSystem) : Decidable (Clear tmp path fs) :=
  decidable_of_iff _ (clear_iff tmp path fs).symm

theorem createDirAll_above_iff (fs : FileSystem) (path : Path) :
    (fs.createDirAll (above path)).1 = .ok () ↔
      ∀ k ∈ above path, fs.pathExists k = true → fs.isDir k = true := by
  simp only [FileSystem.pathExists, Option.isSome_iff_ne_none]
  unfold above
  cases path.parent with
  | none => exact iff_of_true rfl fun k hk => absurd hk List.not_mem_nil
  | some parent => exact FileSystem.createDirAll_trail_iff fs parent

theorem Room.clear {tmp path : Path} {fs : FileSystem} (h : Room tmp path fs) :
    Clear tmp path fs where
  way := (createDirAll_above_iff fs path).mp h.made
  ending := FileSystem.ending_of_find h.found h.free
  free := h.free_now
  freeTmp := by
    have hlater := h.freeTmp
    rw [FileSystem.isDir_createDirAll_eq h.made, Bool.or_eq_false_iff] at hlater
    exact hlater.1
  apart := h.not_above
  apartTmp := h.tmp_not_above

theorem Clear.room {pid : Nat} {path : Path} {defaultExt : String} {fs : FileSystem}
    (h : Clear (tmpPath pid path defaultExt) path fs) :
    Room (tmpPath pid path defaultExt) path fs := by
  have hmade := (createDirAll_above_iff fs path).mpr h.way
  have hreached := FileSystem.isDir_of_createDirAll hmade
  have hfree : ∀ {k}, fs.isDir k = false → k ∉ above path →
      (fs.createDirAll (above path)).2.isDir k = false := by
    intro k hk hnot
    rw [FileSystem.isDir_createDirAll_eq hmade, hk, decide_eq_false hnot]
    rfl
  obtain ⟨parent, hparent⟩ : ∃ parent, path.parent = some parent := by
    by_cases hnil : path.components = []
    · have hroot : path.resolve = [] := by rw [Path.resolve, hnil, List.foldl_nil]
      have hdir := fs.root
      rw [← hroot] at hdir
      exact absurd hdir (Bool.eq_false_iff.mp h.free)
    · exact ⟨_, if_neg hnil⟩
  have habove : above path = parent.trail := by rw [above, hparent, Option.elim_some]
  have hfound : (fs.createDirAll (above path)).2.find path = .ok path.resolve :=
    FileSystem.find_of_reached h.ending hparent (habove ▸ hreached)
  cases hname : path.fileName with
  | none =>
    -- such a path leads to a directory
    have hdir := FileSystem.isDir_of_fileName_none hfound hname
    exact absurd hdir (Bool.eq_false_iff.mp (hfree h.free h.apart))
  | some name =>
    obtain ⟨init, suffix, -, hinit, htmp⟩ := tmpPath_eq hname pid defaultExt
    have hinitial : parent = ⟨path.absolute, init, .plain⟩ := by
      rw [Path.parent, hinit, if_neg (by simp), List.dropLast_concat] at hparent
      exact (Option.some.inj hparent).symm
    have hparentTmp : (tmpPath pid path defaultExt).parent = some parent := by
      rw [htmp, Path.parent, if_neg (by simp), List.dropLast_concat, hinitial]
    have hbeside : ∀ (n : String) (ending : Ending),
        (Path.resolve ⟨path.absolute, init ++ [.normal n], ending⟩).dropLast =
          parent.resolve := by
      intro n ending
      rw [Path.resolve_append _ _ _ _ .plain, Path.stepTo, List.dropLast_concat, hinitial]
    have hdir : (fs.createDirAll (above path)).2.isDir parent.resolve = true :=
      FileSystem.isDir_resolve (habove ▸ hreached)
    refine ⟨hmade, hfound, ?_, hfree h.free h.apart, hfree h.freeTmp h.apartTmp, ?_, ?_⟩
    · refine FileSystem.find_of_reached ?_ hparentTmp (habove ▸ hreached)
      rw [htmp]
    · have hpath : path.resolve = Path.resolve ⟨path.absolute, init ++ [.normal name], .plain⟩ := by
        rw [← hinit]
        rfl
      rw [hpath, hbeside]
      exact hdir
    · rw [htmp, hbeside]
      exact hdir

theorem clear_iff_room (pid : Nat) (path : Path) (defaultExt : String) (fs : FileSystem) :
    Clear (tmpPath pid path defaultExt) path fs ↔ Room (tmpPath pid path defaultExt) path fs :=
  ⟨Clear.room, Room.clear⟩

end Daemon
end Konstantin
