import Konstantin.Daemon.Control

/-!
# What an atomic write leaves

`write_marker_atomic` and `write_config_atomic` end alike: write a temporary,
restrict it, rename it over the target, restrict that.  When this fails the
target is as before; when it succeeds the target holds the text.
-/

namespace Konstantin
namespace Daemon

open Fs Effect

/-- The result and the tree of a write of `text` to `path` through `tmp`, begun on
`fs₀`.  Over a file it fails only before it has changed anything. -/
structure Replaced (fs₀ : FileSystem) (tmp path : Path) (text : String)
    (r : Except String Unit) (fs : FileSystem) : Prop where
  frame : ∀ k, k ≠ tmp.resolve → k ≠ path.resolve → fs.node k = fs₀.node k
  dirs : ∀ k, fs.isDir k = fs₀.isDir k
  ok : r = .ok () → fs.node path.resolve = some (.file (.text text) 0o600) ∧
    fs.find path = .ok path.resolve
  error : ∀ e, r = .error e → fs.node path.resolve = fs₀.node path.resolve
  error_file : ∀ e c mode, r = .error e → fs₀.find path = .ok path.resolve →
    fs₀.node path.resolve = some (.file c mode) → fs.node = fs₀.node

theorem Replaced.unchanged (fs : FileSystem) (tmp path : Path) (text message : String) :
    Replaced fs tmp path text (.error message) fs where
  frame := fun _ _ _ => rfl
  dirs := fun _ => rfl
  ok := fun h => by cases h
  error := fun _ _ => rfl
  error_file := fun _ _ _ _ _ _ => rfl

theorem chmod_file {fs : FileSystem} {p : Path} {c : Content} {old : Nat}
    (hfound : fs.find p = .ok p.resolve) (hfile : fs.node p.resolve = some (.file c old)) :
    ∃ fs', fs.atPath p (fun fs l => fs.setPermissions l 0o600) = .ok fs' := by
  rw [FileSystem.atPath, hfound]
  show ∃ fs', fs.setPermissions p.resolve 0o600 = .ok fs'
  unfold FileSystem.setPermissions
  split
  · rename_i hnone
    rw [hfile] at hnone
    cases hnone
  · exact ⟨_, rfl⟩
  · exact ⟨_, rfl⟩

structure Staged (fs₀ : FileSystem) (tmp : Path) (text : String) (mode : Nat)
    (fs : FileSystem) : Prop where
  temp : fs.node tmp.resolve = some (.file (.text text) mode)
  found : fs.find tmp = .ok tmp.resolve
  frame : ∀ k, k ≠ tmp.resolve → fs.node k = fs₀.node k
  dirs : ∀ k, fs.isDir k = fs₀.isDir k

theorem staged_write {fs₀ fs : FileSystem} {tmp : Path} {text : String}
    (h : fs₀.atPath tmp (fun fs l => fs.write l text) = .ok fs) :
    Staged fs₀ tmp text (fs₀.modeOfWritten tmp.resolve) fs := by
  obtain ⟨hfind, hwrite⟩ := FileSystem.atPath_eq_ok h
  have hdirs := FileSystem.isDir_write hwrite
  refine ⟨?_, ?_, fun k hk => ?_, hdirs⟩
  · rw [FileSystem.write_node hwrite, if_pos rfl]
  · exact FileSystem.find_mono (fun k hk => (hdirs k).trans hk) hfind
  · rw [FileSystem.write_node hwrite, if_neg hk]

theorem staged_chmod {fs₀ fs fs' : FileSystem} {tmp : Path} {text : String} {mode : Nat}
    (hs : Staged fs₀ tmp text mode fs)
    (h : fs.atPath tmp (fun fs l => fs.setPermissions l 0o600) = .ok fs') :
    Staged fs₀ tmp text 0o600 fs' := by
  have hchmod := (FileSystem.atPath_eq_ok h).2
  have hdirs := FileSystem.isDir_setPermissions hchmod
  refine ⟨?_, ?_, fun k hk => ?_, fun k => (hdirs k).trans (hs.dirs k)⟩
  · exact FileSystem.setPermissions_file hs.temp hchmod
  · exact FileSystem.find_mono (fun k hk => (hdirs k).trans hk) hs.found
  · rw [FileSystem.setPermissions_node hchmod hk, hs.frame k hk]

structure Renamed (fs₀ : FileSystem) (tmp path : Path) (text : String) (fs : FileSystem) :
    Prop where
  target : fs.node path.resolve = some (.file (.text text) 0o600)
  found : fs.find path = .ok path.resolve
  frame : ∀ k, k ≠ tmp.resolve → k ≠ path.resolve → fs.node k = fs₀.node k
  dirs : ∀ k, fs.isDir k = fs₀.isDir k

theorem renamed_rename {fs₀ fs fs' : FileSystem} {tmp path : Path} {text : String}
    (hs : Staged fs₀ tmp text 0o600 fs)
    (h : fs.atPath tmp (fun fs src => fs.atPath path fun fs dst => fs.rename src dst) =
      .ok fs') : Renamed fs₀ tmp path text fs' := by
  obtain ⟨hfind, hrename⟩ := FileSystem.atPath_eq_ok (FileSystem.atPath_eq_ok h).2
  have hdirs : ∀ k, fs'.isDir k = fs.isDir k := FileSystem.isDir_rename hrename
  refine ⟨?_, ?_, fun k hkt hkp => ?_, fun k => (hdirs k).trans (hs.dirs k)⟩
  · rw [FileSystem.rename_node hrename, if_pos rfl, hs.temp]
  · exact FileSystem.find_mono (fun k hk => (hdirs k).trans hk) hfind
  · rw [FileSystem.rename_node hrename, if_neg hkp, if_neg hkt, hs.frame k hkt]

theorem rename_over_file {fs₀ fs : FileSystem} {tmp path : Path} {text : String} {c : Content}
    {mode : Nat} (hs : Staged fs₀ tmp text 0o600 fs) (hne : tmp.resolve ≠ path.resolve)
    (hfound : fs₀.find path = .ok path.resolve)
    (hfile : fs₀.node path.resolve = some (.file c mode)) :
    ∃ fs', fs.atPath tmp (fun fs src => fs.atPath path fun fs dst => fs.rename src dst) =
      .ok fs' := by
  have hdst : fs.node path.resolve = some (.file c mode) :=
    (hs.frame _ hne.symm).trans hfile
  have hfind : fs.find path = .ok path.resolve :=
    FileSystem.find_mono (fun k hk => (hs.dirs k).trans hk) hfound
  have hparent : fs.isDir path.resolve.dropLast = true := by
    have hthere : fs.node path.resolve ≠ none := by simp [hdst]
    rcases FileSystem.isDir_dropLast hthere with hroot | hdir
    · have habs := fs.root
      rw [← hroot, hdst] at habs
      cases habs
    · exact hdir
  cases hr : fs.rename tmp.resolve path.resolve with
  | error e =>
    have hdir := FileSystem.rename_error hs.temp hparent hr
    rw [FileSystem.isDir_file hdst] at hdir
    cases hdir
  | ok fs' =>
    refine ⟨fs', ?_⟩
    rw [FileSystem.atPath, hs.found]
    show fs.atPath path (fun fs dst => fs.rename tmp.resolve dst) = _
    rw [FileSystem.atPath, hfind]
    exact hr

theorem renamed_chmod {fs₀ fs fs' : FileSystem} {tmp path : Path} {text : String}
    (hr : Renamed fs₀ tmp path text fs)
    (h : fs.atPath path (fun fs l => fs.setPermissions l 0o600) = .ok fs') :
    Renamed fs₀ tmp path text fs' := by
  have hchmod := (FileSystem.atPath_eq_ok h).2
  have hdirs := FileSystem.isDir_setPermissions hchmod
  refine ⟨?_, ?_, fun k hkt hkp => ?_, fun k => (hdirs k).trans (hr.dirs k)⟩
  · exact FileSystem.setPermissions_file hr.target hchmod
  · exact FileSystem.find_mono (fun k hk => (hdirs k).trans hk) hr.found
  · rw [FileSystem.setPermissions_node hchmod hkp, hr.frame k hkt hkp]

theorem writeThrough_spec {tmp path : Path} (hne : tmp.resolve ≠ path.resolve) (text : String)
    (fs₀ : FileSystem) :
    Fallible.Ensures (· = fs₀) (writeThrough tmp path text) (Replaced fs₀ tmp path text) := by
  refine Fallible.ensures_bind (R := fun _ fs => ∃ mode, Staged fs₀ tmp text mode fs) ?_
    fun _ => ?_
  · refine Fallible.ensures_change ?_ ?_
    · rintro fs fs' rfl hwrite
      exact ⟨_, staged_write hwrite⟩
    · rintro fs e rfl -
      exact Replaced.unchanged fs tmp path text _
  refine Fallible.ensures_bind (R := fun _ => Staged fs₀ tmp text 0o600) ?_ fun _ => ?_
  · refine Fallible.ensures_change ?_ ?_
    · rintro fs fs' ⟨mode, hs⟩ hchmod
      exact staged_chmod hs hchmod
    · rintro fs e ⟨mode, hs⟩ herror
      obtain ⟨fs', hok⟩ := chmod_file hs.found hs.temp
      rw [hok] at herror
      cases herror
  refine Fallible.ensures_bind (R := fun _ => Renamed fs₀ tmp path text) ?_ fun _ => ?_
  · refine Fallible.ensures_change ?_ ?_
    · exact fun fs fs' hs hrename => renamed_rename hs hrename
    · intro fs e hs herror
      refine ⟨fun k hk _ => hs.frame k hk, hs.dirs, fun h => (by cases h),
        fun _ _ => hs.frame _ hne.symm, fun _ c mode _ hfound hfile => ?_⟩
      obtain ⟨fs', hok⟩ := rename_over_file hs hne hfound hfile
      rw [hok] at herror
      cases herror
  · refine Fallible.ensures_change ?_ ?_
    · intro fs fs' hr hchmod
      have hr' := renamed_chmod hr hchmod
      exact ⟨hr'.frame, hr'.dirs, fun _ => ⟨hr'.target, hr'.found⟩, fun _ h => (by cases h),
        fun _ _ _ h => (by cases h)⟩
    · intro fs e hr herror
      obtain ⟨fs', hok⟩ := chmod_file hr.found hr.target
      rw [hok] at herror
      cases herror

/-! ## The temporary's place -/

/-- The temporary of a file is beside it, and its name is longer. -/
theorem tmpPath_eq {path : Path} {name : String} (h : path.fileName = some name) (pid : Nat)
    (defaultExt : String) : ∃ init suffix, suffix ≠ "" ∧
      path.components = init ++ [.normal name] ∧
      tmpPath pid path defaultExt =
        ⟨path.absolute, init ++ [.normal (name ++ suffix)], .plain⟩ := by
  obtain ⟨init, hinit⟩ := Path.components_ne_nil_of_fileName h
  have hmore : ".tmp." ++ toString pid ≠ "" := by simp [← String.toList_inj]
  obtain ⟨suffix, hsuffix, hname⟩ := Path.stem_append_eq name defaultExt hmore
  have hext : path.extension = (Path.splitAtDot name).2 := by
    rw [Path.extension, h, Option.bind_some]
  refine ⟨init, suffix, hsuffix, hinit, ?_⟩
  rw [tmpPath, hext, Path.withExtension, h]
  simp only [hinit, List.dropLast_concat, String.append_assoc] at hname ⊢
  rw [hname]

theorem tmpPath_resolve_ne {path : Path} {name : String} (h : path.fileName = some name)
    (pid : Nat) (defaultExt : String) : (tmpPath pid path defaultExt).resolve ≠ path.resolve := by
  obtain ⟨init, suffix, hsuffix, hinit, htmp⟩ := tmpPath_eq h pid defaultExt
  have hpath : path.resolve = Path.resolve ⟨path.absolute, init, .plain⟩ ++ [name] := by
    rw [← Path.stepTo, ← Path.resolve_append _ _ _ path.ending, ← hinit]
  rw [htmp, Path.resolve_append _ _ _ _ .plain, Path.stepTo, hpath]
  intro heq
  have hsame : name ++ suffix = name := List.singleton_inj.mp (List.append_cancel_left heq)
  have hlist : suffix.toList = [] := by simpa using congrArg String.toList hsame
  exact hsuffix (String.toList_inj.mp hlist)

theorem tmpPath_of_fileName_none {path : Path} (h : path.fileName = none) (pid : Nat)
    (defaultExt : String) : tmpPath pid path defaultExt = path := by
  rw [tmpPath, Path.withExtension, h]

theorem writeThrough_fileName_none {path : Path} (h : path.fileName = none) (text : String)
    (fs₀ : FileSystem) :
    Fallible.Ensures (· = fs₀) (writeThrough path path text) (Replaced fs₀ path path text) := by
  refine Fallible.ensures_bind (R := fun _ _ => False) ?_ fun _ _ hfalse => hfalse.elim
  refine Fallible.ensures_change ?_ ?_
  · rintro fs fs' rfl hwrite
    obtain ⟨hfind, hwrite⟩ := FileSystem.atPath_eq_ok hwrite
    have hdir := FileSystem.isDir_of_fileName_none hfind h
    unfold FileSystem.write at hwrite
    rw [dif_pos hdir] at hwrite
    cases hwrite
  · rintro fs e rfl -
    exact Replaced.unchanged fs path path text _

theorem writeThrough_tmpPath (pid : Nat) (path : Path) (defaultExt text : String)
    (fs₀ : FileSystem) :
    Fallible.Ensures (· = fs₀) (writeThrough (tmpPath pid path defaultExt) path text)
      (Replaced fs₀ (tmpPath pid path defaultExt) path text) := by
  cases h : path.fileName with
  | none =>
    rw [tmpPath_of_fileName_none h]
    exact writeThrough_fileName_none h text fs₀
  | some name => exact writeThrough_spec (tmpPath_resolve_ne h pid defaultExt) text fs₀

/-! ## With the directories above it -/

/-- The result and the tree of a write that first makes the directories `ls`. -/
structure Written (fs₀ : FileSystem) (tmp path : Path) (ls : List Loc) (text : String)
    (r : Except String Unit) (fs : FileSystem) : Prop where
  frame : ∀ k, k ≠ tmp.resolve → k ≠ path.resolve → k ∉ ls → fs.node k = fs₀.node k
  stays : ∀ k n, k ≠ tmp.resolve → k ≠ path.resolve → fs₀.node k = some n → fs.node k = some n
  dirs : ∀ k, fs₀.isDir k = true → fs.isDir k = true
  dirs_same : ∀ k, k ∉ ls ∨ fs₀.node k ≠ none → fs.isDir k = fs₀.isDir k
  ok : r = .ok () → fs.node path.resolve = some (.file (.text text) 0o600) ∧
    fs.find path = .ok path.resolve
  error : ∀ e, r = .error e → path.resolve ∉ ls ∨ fs₀.node path.resolve ≠ none →
    fs.node path.resolve = fs₀.node path.resolve
  error_file : ∀ e c mode k, r = .error e → fs₀.find path = .ok path.resolve →
    fs₀.node path.resolve = some (.file c mode) → k ∉ ls ∨ fs₀.node k ≠ none →
    fs.node k = fs₀.node k

theorem createDirAll_same {fs₀ : FileSystem} {ls : List Loc} {k : Loc}
    (h : k ∉ ls ∨ fs₀.node k ≠ none) : (fs₀.createDirAll ls).2.node k = fs₀.node k := by
  rcases FileSystem.createDirAll_node ls fs₀ k with hsame | ⟨hmem, hnone, -⟩
  · exact hsame
  · rcases h with hnot | hthere
    · exact absurd hmem hnot
    · exact absurd hnone hthere

theorem written_of_dirs (fs₀ : FileSystem) (ls : List Loc) (tmp path : Path)
    (text message : String) :
    Written fs₀ tmp path ls text (.error message) (fs₀.createDirAll ls).2 where
  frame := fun k _ _ hk => createDirAll_same (Or.inl hk)
  stays := fun k n _ _ hn => FileSystem.createDirAll_some hn ls
  dirs := fun k hk => FileSystem.isDir_createDirAll hk ls
  dirs_same := fun k hk => congrArg Node.isDir (createDirAll_same hk)
  ok := fun h => by cases h
  error := fun _ _ hk => createDirAll_same hk
  error_file := fun _ _ _ k _ _ _ hk => createDirAll_same hk

theorem written_of_replaced {fs₀ fs : FileSystem} {ls : List Loc} {tmp path : Path}
    {text : String} {r : Except String Unit}
    (h : Replaced (fs₀.createDirAll ls).2 tmp path text r fs) :
    Written fs₀ tmp path ls text r fs where
  frame := fun k ht hp hk => (h.frame k ht hp).trans (createDirAll_same (Or.inl hk))
  stays := fun k n ht hp hn => (h.frame k ht hp).trans (FileSystem.createDirAll_some hn ls)
  dirs := fun k hk => (h.dirs k).trans (FileSystem.isDir_createDirAll hk ls)
  dirs_same := fun k hk => (h.dirs k).trans (congrArg Node.isDir (createDirAll_same hk))
  ok := h.ok
  error := fun e he hk => (h.error e he).trans (createDirAll_same hk)
  error_file := by
    intro e c mode k he hfound hfile hk
    have hmono : ∀ k, fs₀.isDir k = true → (fs₀.createDirAll ls).2.isDir k = true :=
      fun k hk => FileSystem.isDir_createDirAll hk ls
    have hsame := h.error_file e c mode he (FileSystem.find_mono hmono hfound)
      (FileSystem.createDirAll_some hfile ls)
    rw [hsame]
    exact createDirAll_same hk

/-- The places of the directories above a path. -/
def above (path : Path) : List Loc := path.parent.elim [] Path.trail

/-- The way to the path passes through its own place. -/
def ThroughItself (path : Path) : Prop := path.resolve ∈ above path

instance (path : Path) : Decidable (ThroughItself path) := by
  unfold ThroughItself
  infer_instance

theorem node_above {fs : FileSystem} {path : Path} {l : Loc} (h : fs.find path = .ok l) {k : Loc}
    (hk : k ∈ above path) : fs.node k ≠ none := by
  have hdir : fs.isDir k = true := by
    unfold above at hk
    cases hp : path.parent with
    | none => simp [hp] at hk
    | some parent =>
      rw [hp, Option.elim_some] at hk
      exact FileSystem.isDir_of_mem_trail h hp k hk
  intro hnone
  rw [FileSystem.isDir, hnone] at hdir
  cases hdir

theorem above_or {fs : FileSystem} {path : Path} {l : Loc} (h : fs.find path = .ok l) (k : Loc) :
    k ∉ above path ∨ fs.node k ≠ none := by
  by_cases hk : k ∈ above path
  · exact Or.inr (node_above h hk)
  · exact Or.inl hk

/-- A write over a file that fails leaves every node. -/
theorem Written.kept {fs₀ fs : FileSystem} {tmp path : Path} {text message : String} {c : Content}
    {mode : Nat} (h : Written fs₀ tmp path (above path) text (.error message) fs)
    (hfound : fs₀.find path = .ok path.resolve)
    (hfile : fs₀.node path.resolve = some (.file c mode)) (k : Loc) :
    fs.node k = fs₀.node k :=
  h.error_file message c mode k rfl hfound hfile (above_or hfound k)

theorem Written.pathFound_same {fs₀ fs : FileSystem} {tmp path : Path} {text : String}
    {r : Except String Unit} (h : Written fs₀ tmp path (above path) text r fs)
    (hfound : fs₀.find path = .ok path.resolve) {p : Path} (htmp : p.resolve ≠ tmp.resolve)
    (hpath : p.resolve ≠ path.resolve) : fs.pathFound p = fs₀.pathFound p := by
  refine FileSystem.pathFound_congr (fun k => h.dirs_same k (above_or hfound k)) ?_
  rcases above_or hfound p.resolve with hnot | hthere
  · exact h.frame _ htmp hpath hnot
  · cases hn : fs₀.node p.resolve with
    | none => exact absurd hn hthere
    | some n => exact h.stays _ n htmp hpath hn

theorem outcome_createDirAll (message : String) (p : Path) (fs : FileSystem) :
    (createDirAll message p).outcome fs =
      ((fs.createDirAll p.trail).1.mapError fun _ => message, (fs.createDirAll p.trail).2) := rfl

theorem createDirAll_spec (message : String) (path parent : Path) (tmp : Path) (text : String)
    (hparent : path.parent = some parent) (fs₀ : FileSystem) :
    Fallible.Ensures (· = fs₀) (createDirAll message parent)
      (Fallible.Next (fun _ fs => fs = (fs₀.createDirAll (above path)).2)
        (Written fs₀ tmp path (above path) text)) := by
  rintro fs rfl
  have hls : above path = parent.trail := by rw [above, hparent, Option.elim_some]
  have hwritten := written_of_dirs fs parent.trail tmp path text message
  rw [hls, outcome_createDirAll]
  cases (fs.createDirAll parent.trail).1 with
  | ok u => rfl
  | error e => exact hwritten

theorem above_eq_nil {path : Path}
    (h : ∀ parent, path.parent = some parent → parent.isEmpty = true) : above path = [] := by
  unfold above
  cases hp : path.parent with
  | none => rfl
  | some parent =>
    have hempty := h parent hp
    simp only [Path.isEmpty, Bool.and_eq_true, List.isEmpty_iff] at hempty
    simp [Path.trail, hempty.2]

theorem writeThrough_above (pid : Nat) (path : Path) (defaultExt text : String)
    (fs₀ : FileSystem) :
    Fallible.Ensures (fun fs => fs = (fs₀.createDirAll (above path)).2)
      (writeThrough (tmpPath pid path defaultExt) path text)
      (Written fs₀ (tmpPath pid path defaultExt) path (above path) text) :=
  Fallible.ensures_mono (writeThrough_tmpPath pid path defaultExt text _)
    fun _ _ h => written_of_replaced h

theorem writeMarkerAtomic_spec (pid : Nat) (path : Path) (fs₀ : FileSystem) :
    Fallible.Ensures (· = fs₀) (writeMarkerAtomic pid path)
      (Written fs₀ (tmpPath pid path "marker") path (above path) markerText) := by
  unfold writeMarkerAtomic
  cases hp : path.parent with
  | none =>
    rintro fs rfl
    have habove : above path = [] := above_eq_nil fun parent h => by rw [hp] at h; cases h
    rw [habove]
    exact written_of_dirs fs [] _ path markerText _
  | some parent =>
    refine Fallible.ensures_bind (R := fun _ fs => fs = (fs₀.createDirAll (above path)).2)
      ?_ fun _ => writeThrough_above pid path "marker" markerText fs₀
    exact createDirAll_spec _ path parent _ markerText hp fs₀

theorem writeConfigAtomic_spec (pid : Nat) (path : Path) (toml : String) (fs₀ : FileSystem) :
    Fallible.Ensures (· = fs₀) (writeConfigAtomic pid path toml)
      (Written fs₀ (tmpPath pid path "toml") path (above path) toml) := by
  have hsame : above path = [] → (fs₀.createDirAll (above path)).2 = fs₀ := fun h => by rw [h]; rfl
  refine Fallible.ensures_bind (R := fun _ fs => fs = (fs₀.createDirAll (above path)).2)
    ?_ fun _ => writeThrough_above pid path "toml" toml fs₀
  unfold createConfigDir
  cases hp : path.parent with
  | none =>
    rintro fs rfl
    exact (hsame (above_eq_nil fun parent h => by rw [hp] at h; cases h)).symm
  | some parent =>
    by_cases hempty : parent.isEmpty = true
    · simp only [hempty, if_true]
      rintro fs rfl
      refine (hsame (above_eq_nil fun q hq => ?_)).symm
      rw [hp] at hq
      cases hq
      exact hempty
    · simp only [hempty, Bool.false_eq_true, if_false]
      exact createDirAll_spec _ path parent _ toml hp fs₀

end Daemon
end Konstantin
