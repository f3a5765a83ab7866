import Konstantin.Daemon.Answers
import Konstantin.Daemon.Machine
import Konstantin.Effect.Calls

/-!
# An uninstall beside a running daemon

`PrepareUninstall` removes the socket, the state directory and on request the
configuration, in the process whose ticker and midnight task go on saving until
they are killed.  `State::save_atomic` makes the directory of the state file when
it is missing.

The calls of the removal and of the two saves come in any order.  A removal of a
directory is one call: a file that comes into the directory meanwhile makes it
fail, and a request that fails promises nothing.
-/

namespace Konstantin
namespace Daemon

open Fs Effect

def stateDir : Path := Path.parse "/var/db/screentimed"

/-! ## The saves -/

def setDirMode0700 (p : Path) : Fallible FileSystem Unit :=
  .change ("chmod 0700 " ++ p.display) fun fs =>
    fs.atPath p fun fs l => fs.setPermissions l 0o700

def writeState (path : Path) (body : String) : Fallible FileSystem Unit :=
  .change ("writing " ++ path.pushTmp.display) fun fs =>
    fs.atPath path.pushTmp fun fs l => fs.write l body

def renameState (path : Path) : Fallible FileSystem Unit :=
  .change ("renaming " ++ path.pushTmp.display ++ " -> " ++ path.display) fun fs =>
    fs.atPath path.pushTmp fun fs src => fs.atPath path fun fs dst => fs.rename src dst

def missing (parent : Path) (fs : FileSystem) : Bool := !parent.isEmpty && !fs.pathFound parent

/-- `State::save_atomic`, of a printed state. -/
def saveAtomic (path : Path) (body : String) : Fallible FileSystem Unit := do
  match path.parent with
  | none => pure ()
  | some parent =>
    if ← .query fun fs => .ok (missing parent fs) then
      createDirAll ("creating state dir " ++ parent.display) parent
      setDirMode0700 parent
  writeState path body
  renameState path

inductive SavePhase where
  | checking
  | making (parent : Path)
  | restricting (parent : Path)
  | writing
  | replacing
  | returned (r : Except String Unit)

def SavePhase.advance (path : Path) (body : String) : SavePhase × FileSystem →
    SavePhase × FileSystem
  | (.checking, fs) =>
    match path.parent with
    | none => (.writing, fs)
    | some parent => (if missing parent fs then .making parent else .writing, fs)
  | (.making parent, fs) =>
    Fallible.proceed .returned (createDirAll ("creating state dir " ++ parent.display) parent)
      (.restricting parent) fs
  | (.restricting parent, fs) => Fallible.proceed .returned (setDirMode0700 parent) .writing fs
  | (.writing, fs) => Fallible.proceed .returned (writeState path body) .replacing fs
  | (.replacing, fs) =>
    (.returned ((renameState path).outcome fs).1, ((renameState path).outcome fs).2)
  | (.returned r, fs) => (.returned r, fs)

theorem outcome_saveAtomic (path : Path) (body : String) (fs : FileSystem) :
    (saveAtomic path body).outcome fs =
      match path.parent.filter fun parent => missing parent fs with
      | none => (writeState path body >>= fun _ => renameState path).outcome fs
      | some parent =>
        (createDirAll ("creating state dir " ++ parent.display) parent >>= fun _ =>
          setDirMode0700 parent >>= fun _ =>
            writeState path body >>= fun _ => renameState path).outcome fs := by
  unfold saveAtomic
  cases path.parent with
  | none => rfl
  | some parent =>
    dsimp only
    rw [Fallible.outcome_bind, Fallible.outcome_query]
    by_cases hmissing : missing parent fs = true
    · simp [Option.filter, hmissing]
    · simp [Option.filter, hmissing]

/-- The calls of one save that nothing interrupts are `save_atomic`. -/
theorem save_alone (path : Path) (body : String) (fs : FileSystem) :
    (SavePhase.advance path body)^[5] (.checking, fs) =
      (.returned ((saveAtomic path body).outcome fs).1, ((saveAtomic path body).outcome fs).2) := by
  have hend : ∀ r fs, SavePhase.advance path body (.returned r, fs) = (.returned r, fs) :=
    fun _ _ => rfl
  have hwrite : ∀ k fs, (SavePhase.advance path body)^[k + 2] (.writing, fs) =
      (.returned ((writeState path body >>= fun _ => renameState path).outcome fs).1,
        ((writeState path body >>= fun _ => renameState path).outcome fs).2) := by
    intro k fs
    refine Fallible.iterate_proceed hend (fun fs => ?_) fs
    exact Function.iterate_fixed (hend _ _) k
  rw [outcome_saveAtomic]
  cases hparent : path.parent with
  | none =>
    have hfirst : SavePhase.advance path body (.checking, fs) = (.writing, fs) := by
      rw [SavePhase.advance, hparent]
    rw [Function.iterate_succ_apply, hfirst]
    exact hwrite 2 fs
  | some parent =>
    by_cases hmissing : missing parent fs = true
    · have hfirst : SavePhase.advance path body (.checking, fs) = (.making parent, fs) := by
        rw [SavePhase.advance, hparent]
        simp [hmissing]
      rw [Function.iterate_succ_apply, hfirst, Option.filter_some, if_pos hmissing]
      refine Fallible.iterate_proceed hend (fun fs => ?_) fs
      refine Fallible.iterate_proceed hend (fun fs => ?_) fs
      exact hwrite 0 fs
    · have hfirst : SavePhase.advance path body (.checking, fs) = (.writing, fs) := by
        rw [SavePhase.advance, hparent]
        simp [hmissing]
      rw [Function.iterate_succ_apply, hfirst, Option.filter_some, if_neg hmissing]
      exact hwrite 2 fs

/-! ## The removal -/

inductive RemovalPhase where
  | removingSocket
  | removingState
  | removingConfig
  | answered (r : Except String Unit)

def RemovalPhase.advance (preserveConfig : Bool) :
    RemovalPhase × FileSystem → RemovalPhase × FileSystem
  | (.removingSocket, fs) =>
    Fallible.proceed .answered (removeFileIfExists (Path.parse "/var/run/screentimed.sock"))
      .removingState fs
  | (.removingState, fs) =>
    Fallible.proceed .answered (removeDirIfExists stateDir)
      (if preserveConfig then .answered (.ok ()) else .removingConfig) fs
  | (.removingConfig, fs) =>
    Fallible.proceed .answered (removeDirIfExists (Path.parse "/etc/screentimed"))
      (.answered (.ok ())) fs
  | (.answered r, fs) => (.answered r, fs)

/-- The removal has the state directory behind it. -/
def RemovalPhase.past : RemovalPhase → Prop
  | .removingConfig => True
  | .answered r => r = .ok ()
  | _ => False

/-- The calls of a removal that nothing interrupts are `prepare_uninstall`. -/
theorem removal_alone (preserveConfig : Bool) (fs : FileSystem) :
    (RemovalPhase.advance preserveConfig)^[3] (.removingSocket, fs) =
      (.answered ((prepareUninstall preserveConfig).outcome fs).1,
        ((prepareUninstall preserveConfig).outcome fs).2) := by
  have hend : ∀ r fs, RemovalPhase.advance preserveConfig (.answered r, fs) = (.answered r, fs) :=
    fun _ _ => rfl
  refine Fallible.iterate_proceed hend (fun fs => ?_) fs
  refine Fallible.iterate_proceed hend (fun fs => ?_) fs
  cases preserveConfig with
  | true => rfl
  | false =>
    show Fallible.proceed _ (removeDirIfExists (Path.parse "/etc/screentimed")) _ fs =
      (RemovalPhase.answered ((removeDirIfExists (Path.parse "/etc/screentimed")).outcome fs).1,
        ((removeDirIfExists (Path.parse "/etc/screentimed")).outcome fs).2)
    cases h : (removeDirIfExists (Path.parse "/etc/screentimed")).outcome fs with
    | mk r fs' =>
      cases r with
      | ok u => exact Fallible.proceed_ok h
      | error message => exact Fallible.proceed_error h

/-- The system daemon answers `PrepareUninstall` with what the removal came to. -/
theorem handleAuthorized_prepareUninstall (toml : Toml.Parser) {c : Controller}
    (hc : c.configPath.same systemConfigPath = true) (preserveConfig : Bool) (w : World) :
    (c.handleAuthorized toml (.prepareUninstall preserveConfig)).outcome w =
      (((prepareUninstall preserveConfig).outcome w.fs).1.map fun _ => .ok,
        { w with fs := ((prepareUninstall preserveConfig).outcome w.fs).2 }) := by
  rw [Controller.handleAuthorized, if_neg (by simp [hc]), Fallible.outcome_bind]
  rw [outcome_onFiles]
  cases (prepareUninstall preserveConfig).outcome w.fs with
  | mk r fs => cases r <;> rfl

/-! ## The process -/

/-- A process of the system daemon, the saves of its tasks, and a removal on its
way.  `prepared` says that a `PrepareUninstall` was answered `Ok`. -/
structure Teardown where
  process : Process
  save : Task → Option SavePhase
  fs : FileSystem
  removal : Option (Bool × RemovalPhase)
  prepared : Bool

inductive TeardownStep where
  | task (l : TaskStep)
  | save (w : Task)
  | request (preserveConfig : Bool)
  | remove

namespace Teardown

def boot (cfg : Config) (loaded : State) (today : NaiveDate) (initial : UserSet)
    (fs : FileSystem) : Teardown where
  process := Process.start cfg loaded today initial
  save := fun _ => none
  fs := fs
  removal := none
  prepared := false

/-- A task takes a step; with its clone in hand it begins to save. -/
def run (s : Teardown) (l : TaskStep) (p : Process) : Teardown :=
  { s with
    process := p
    save := fun w => if l = w.lockStep then some .checking else s.save w }

/-- A call of a save was made; the task goes on when the save has returned. -/
def saved (s : Teardown) (w : Task) : SavePhase × FileSystem → Option Teardown
  | (.returned _, fs) => (s.process.step w.savedStep).map fun p =>
    { s with process := p, save := Function.update s.save w none, fs := fs }
  | (phase, fs) => some { s with save := Function.update s.save w (some phase), fs := fs }

def removed (s : Teardown) (preserveConfig : Bool) : RemovalPhase × FileSystem → Teardown
  | (.answered r, fs) => { s with fs := fs, removal := none, prepared := s.prepared || r.isOk }
  | (phase, fs) => { s with fs := fs, removal := some (preserveConfig, phase) }

/-- One step of a task, one call of a save, a request, or one call of a removal.
`print` is the printer of the state's JSON. -/
def step (print : State → String) (s : Teardown) : TeardownStep → Option Teardown
  | .task l =>
    if l = .tickerSaved ∨ l = .resetterSaved then none else (s.process.step l).map (s.run l)
  | .save w =>
    match s.save w, s.process.held w with
    | some phase, some snap =>
      s.saved w (SavePhase.advance s.process.cfg.statePath (print snap.state) (phase, s.fs))
    | _, _ => none
  | .request preserveConfig =>
    if s.removal.isSome then none
    else some { s with removal := some (preserveConfig, .removingSocket) }
  | .remove =>
    s.removal.map fun (preserveConfig, phase) =>
      s.removed preserveConfig (RemovalPhase.advance preserveConfig (phase, s.fs))

/-- The state directory was removed by a `PrepareUninstall` that was answered `Ok`
or has yet to remove the configuration. -/
def emptied (s : Teardown) : Bool :=
  s.prepared || match s.removal with
    | some (_, .removingConfig) => true
    | _ => false

/-- The directory a step is about to make. -/
def making (s : Teardown) : TeardownStep → Option Path
  | .save w =>
    match s.save w with
    | some (.making parent) => some parent
    | _ => none
  | _ => none

def Wiped (s : Teardown) : Prop := s.prepared = true → s.fs.isDir stateDir.resolve = false

instance (s : Teardown) : Decidable (Wiped s) := by
  unfold Wiped
  infer_instance

/-- No save makes the state directory again. -/
def Spared (s : Teardown) (l : TeardownStep) (_ : Teardown) : Prop :=
  s.emptied = true → ∀ parent ∈ s.making l, stateDir.resolve ∉ parent.trail

instance (s : Teardown) (l : TeardownStep) (t : Teardown) : Decidable (Spared s l t) :=
  decidable_of_iff
    (s.emptied = true → ∀ parent ∈ s.making l, parent.trail.contains stateDir.resolve = false) (by
    simp only [Spared, List.contains_eq_mem, decide_eq_false_iff_not])

/-! ### What the calls do to the directories -/

/-- A call on the files that takes directories away at most. -/
theorem isDir_change {message : String} {op : FileSystem → Except IoError FileSystem}
    (hop : ∀ fs fs' k, op fs = .ok fs' → fs'.isDir k = true → fs.isDir k = true)
    {fs : FileSystem} {k : Loc}
    (h : ((Fallible.change message op).outcome fs).2.isDir k = true) : fs.isDir k = true := by
  rcases Fallible.outcome_change_cases message op fs with ⟨fs', hok, hcall⟩ | hcall
  · rw [hcall] at h
    exact hop fs fs' k hok h
  · rwa [hcall] at h

theorem isDir_setDirMode0700 {p : Path} {fs : FileSystem} {k : Loc}
    (h : ((setDirMode0700 p).outcome fs).2.isDir k = true) : fs.isDir k = true := by
  refine isDir_change (fun fs fs' k hop hk => ?_) h
  rwa [FileSystem.isDir_setPermissions (FileSystem.atPath_eq_ok hop).2] at hk

theorem isDir_writeState {path : Path} {body : String} {fs : FileSystem} {k : Loc}
    (h : ((writeState path body).outcome fs).2.isDir k = true) : fs.isDir k = true := by
  refine isDir_change (fun fs fs' k hop hk => ?_) h
  rwa [FileSystem.isDir_write (FileSystem.atPath_eq_ok hop).2] at hk

theorem isDir_renameState {path : Path} {fs : FileSystem} {k : Loc}
    (h : ((renameState path).outcome fs).2.isDir k = true) : fs.isDir k = true := by
  refine isDir_change (fun fs fs' k hop hk => ?_) h
  have hrename := (FileSystem.atPath_eq_ok (FileSystem.atPath_eq_ok hop).2).2
  rwa [FileSystem.isDir_rename hrename] at hk

theorem isDir_ifExists {p : Path} {op : FileSystem → Loc → Except IoError FileSystem}
    (hop : ∀ fs fs' l k, op fs l = .ok fs' → fs'.isDir k = true → fs.isDir k = true)
    (fs fs' : FileSystem) (k : Loc) (h : ifExists fs (fs.atPath p op) = .ok fs')
    (hk : fs'.isDir k = true) : fs.isDir k = true := by
  rcases ifExists_eq_ok h with hr | ⟨-, rfl⟩
  · exact hop fs _ _ k (FileSystem.atPath_eq_ok hr).2 hk
  · exact hk

theorem isDir_removeFileIfExists {p : Path} {fs : FileSystem} {k : Loc}
    (h : ((removeFileIfExists p).outcome fs).2.isDir k = true) : fs.isDir k = true := by
  refine isDir_change (isDir_ifExists fun fs fs' l k hop hk => ?_) h
  rwa [FileSystem.isDir_removeFile hop] at hk

theorem isDir_removeDirIfExists {p : Path} {fs : FileSystem} {k : Loc}
    (h : ((removeDirIfExists p).outcome fs).2.isDir k = true) : fs.isDir k = true :=
  isDir_change (isDir_ifExists fun _ _ _ k hop hk => (FileSystem.removeDirAll_isDir hop).2 k hk) h

theorem isDir_save {path : Path} {body : String} {phase : SavePhase} {fs : FileSystem} {k : Loc}
    (h : (SavePhase.advance path body (phase, fs)).2.isDir k = true) :
    fs.isDir k = true ∨ ∃ parent, phase = .making parent ∧ k ∈ parent.trail := by
  cases phase with
  | checking =>
    left
    rw [SavePhase.advance] at h
    split at h
    · exact h
    · exact h
  | making parent =>
    rw [SavePhase.advance, Fallible.proceed_state, outcome_createDirAll] at h
    rcases FileSystem.createDirAll_node parent.trail fs k with hsame | ⟨hmem, -, -⟩
    · left
      rwa [FileSystem.isDir, hsame] at h
    · exact Or.inr ⟨parent, rfl, hmem⟩
  | restricting parent =>
    rw [SavePhase.advance, Fallible.proceed_state] at h
    exact Or.inl (isDir_setDirMode0700 h)
  | writing =>
    rw [SavePhase.advance, Fallible.proceed_state] at h
    exact Or.inl (isDir_writeState h)
  | replacing => exact Or.inl (isDir_renameState h)
  | returned r => exact Or.inl h

theorem isDir_removal {preserveConfig : Bool} {phase : RemovalPhase} {fs : FileSystem} {k : Loc}
    (h : (RemovalPhase.advance preserveConfig (phase, fs)).2.isDir k = true) :
    fs.isDir k = true := by
  cases phase with
  | removingSocket =>
    rw [RemovalPhase.advance, Fallible.proceed_state] at h
    exact isDir_removeFileIfExists h
  | removingState =>
    rw [RemovalPhase.advance, Fallible.proceed_state] at h
    exact isDir_removeDirIfExists h
  | removingConfig =>
    rw [RemovalPhase.advance, Fallible.proceed_state] at h
    exact isDir_removeDirIfExists h
  | answered r => exact h

theorem isDir_stateDir {fs fs' : FileSystem}
    (h : ifExists fs (fs.atPath stateDir FileSystem.removeDirAll) = .ok fs') :
    fs'.isDir stateDir.resolve = false := by
  rcases ifExists_eq_ok h with hr | ⟨hr, rfl⟩
  · exact (FileSystem.removeDirAll_isDir (FileSystem.atPath_eq_ok hr).2).1
  · -- were it a directory, it would have been found
    refine Bool.eq_false_iff.mpr fun hdir => ?_
    have hfind : fs'.find stateDir = .ok stateDir.resolve := FileSystem.find_of_isDir true .plain hdir
    rw [FileSystem.atPath, hfind] at hr
    have hremove : fs'.removeDirAll stateDir.resolve = .error .notFound := hr
    unfold FileSystem.removeDirAll at hremove
    split at hremove
    · rename_i hnone
      rw [FileSystem.isDir, hnone] at hdir
      cases hdir
    · cases hremove
    · split at hremove
      · cases hremove
      · cases hremove

/-! ### The invariant -/

theorem isDir_of_past {preserveConfig : Bool} {phase : RemovalPhase} {fs : FileSystem}
    (hlive : ∀ r, phase ≠ .answered r)
    (hgone : phase = .removingConfig → fs.isDir stateDir.resolve = false)
    (hpast : RemovalPhase.past (RemovalPhase.advance preserveConfig (phase, fs)).1) :
    (RemovalPhase.advance preserveConfig (phase, fs)).2.isDir stateDir.resolve = false := by
  cases phase with
  | removingSocket =>
    rw [RemovalPhase.advance, removeFileIfExists] at hpast
    rcases Fallible.outcome_change_cases _ _ fs with ⟨fs', -, hcall⟩ | hcall
    · rw [Fallible.proceed_ok hcall] at hpast
      exact hpast.elim
    · rw [Fallible.proceed_error hcall] at hpast
      cases hpast
  | removingState =>
    rw [RemovalPhase.advance, removeDirIfExists] at hpast ⊢
    rcases Fallible.outcome_change_cases _ _ fs with ⟨fs', hop, hcall⟩ | hcall
    · rw [Fallible.proceed_ok hcall]
      exact isDir_stateDir hop
    · rw [Fallible.proceed_error hcall] at hpast
      cases hpast
  | removingConfig =>
    refine Bool.eq_false_iff.mpr fun hdir => ?_
    have hbefore := isDir_removal hdir
    rw [hgone rfl] at hbefore
    cases hbefore
  | answered r => exact absurd rfl (hlive r)

structure Inv (s : Teardown) : Prop where
  gone : s.emptied = true → s.fs.isDir stateDir.resolve = false
  live : ∀ b r, s.removal ≠ some (b, .answered r)

theorem inv_boot (cfg : Config) (loaded : State) (today : NaiveDate) (initial : UserSet)
    (fs : FileSystem) : Inv (boot cfg loaded today initial fs) where
  gone := fun h => by cases h
  live := fun _ _ h => by cases h

variable {print : State → String} {s t : Teardown}

theorem Inv.saved (h : Inv s) {w : Task} {r : SavePhase × FileSystem}
    (hstep : s.saved w r = some t)
    (hdirs : s.emptied = true → r.2.isDir stateDir.resolve = false) : Inv t := by
  obtain ⟨phase, fs⟩ := r
  cases phase with
  | returned result =>
    obtain ⟨p, -, rfl⟩ := Option.map_eq_some_iff.mp hstep
    exact ⟨hdirs, h.live⟩
  | _ =>
    cases hstep
    exact ⟨hdirs, h.live⟩

theorem Inv.removed (h : Inv s) {b : Bool} {phase : RemovalPhase}
    (hremoval : s.removal = some (b, phase)) :
    Inv (s.removed b (RemovalPhase.advance b (phase, s.fs))) := by
  have hlive : ∀ r, phase ≠ .answered r := fun r hr => h.live b r (hr ▸ hremoval)
  have hconfig : phase = .removingConfig → s.fs.isDir stateDir.resolve = false := by
    rintro rfl
    exact h.gone (by simp [emptied, hremoval])
  have hpast : RemovalPhase.past (RemovalPhase.advance b (phase, s.fs)).1 →
      (RemovalPhase.advance b (phase, s.fs)).2.isDir stateDir.resolve = false :=
    isDir_of_past hlive hconfig
  have hkeep : s.prepared = true →
      (RemovalPhase.advance b (phase, s.fs)).2.isDir stateDir.resolve = false := by
    intro hprepared
    refine Bool.eq_false_iff.mpr fun hdir => ?_
    have hbefore := isDir_removal hdir
    rw [h.gone (by simp [emptied, hprepared])] at hbefore
    cases hbefore
  cases hr : RemovalPhase.advance b (phase, s.fs) with
  | mk next fs =>
    rw [hr] at hpast hkeep
    cases next with
    | answered r =>
      refine ⟨fun hemptied => ?_, fun _ _ hnone => by cases hnone⟩
      have hor : s.prepared = true ∨ r.isOk = true := by
        simpa [emptied, Teardown.removed] using hemptied
      rcases hor with hprepared | hok
      · exact hkeep hprepared
      · refine hpast ?_
        cases r with
        | ok u => rfl
        | error e => cases hok
    | removingConfig =>
      exact ⟨fun _ => hpast trivial, fun _ _ hsome => by cases hsome⟩
    | _ =>
      refine ⟨fun hemptied => hkeep ?_, fun _ _ hsome => by cases hsome⟩
      simpa [emptied, Teardown.removed] using hemptied

theorem inv_step (h : Inv s) {l : TeardownStep} (hstep : step print s l = some t)
    (hguard : Spared s l t) : Inv t := by
  cases l with
  | task l =>
    simp only [step] at hstep
    split at hstep
    · cases hstep
    · obtain ⟨p, -, rfl⟩ := Option.map_eq_some_iff.mp hstep
      exact ⟨h.gone, h.live⟩
  | save w =>
    simp only [step] at hstep
    split at hstep
    · rename_i phase snap hphase hheld
      refine h.saved hstep fun hemptied => Bool.eq_false_iff.mpr fun hdir => ?_
      rcases isDir_save hdir with hold | ⟨parent, rfl, hmem⟩
      · rw [h.gone hemptied] at hold
        cases hold
      · have hmaking : s.making (.save w) = some parent := by rw [making, hphase]
        exact hguard hemptied parent hmaking hmem
    · cases hstep
  | request preserveConfig =>
    simp only [step] at hstep
    split at hstep
    · cases hstep
    · cases hstep
      refine ⟨fun hemptied => h.gone ?_, fun _ _ hsome => by cases hsome⟩
      have hprepared : s.prepared = true := by simpa [emptied] using hemptied
      simp [emptied, hprepared]
  | remove =>
    obtain ⟨⟨b, phase⟩, hremoval, rfl⟩ := Option.map_eq_some_iff.mp hstep
    exact h.removed hremoval

/-- Once `PrepareUninstall` was answered `Ok` the state directory stays away in runs
in which no save makes it again. -/
theorem wiped_of_spared (print : State → String) (cfg : Config) (loaded : State)
    (today : NaiveDate) (initial : UserSet) (fs : FileSystem) (ls : List TeardownStep)
    (h : Transition.Along (step print) Spared (boot cfg loaded today initial fs) ls) :
    Transition.Along (step print) (fun _ _ t => Wiped t) (boot cfg loaded today initial fs) ls := by
  refine Transition.along_of_guarded (I := Inv) ?_ ls (inv_boot cfg loaded today initial fs) h
  intro s l t hstep hinv hguard
  have hinv' := inv_step hinv hstep hguard
  refine ⟨hinv', fun hprepared => hinv'.gone ?_⟩
  simp [emptied, hprepared]

/-- The text of the states saved in the runs below. -/
def samplePrint : State → String := fun _ =>
  "\x7b\n  \"day\": \"1970-01-02\",\n  \"counters\": \x7b\n    \"alice\": 5\n  \x7d\n\x7d"

def installedFiles : FileSystem :=
  (FileSystem.empty.createDirAll
    [["var"], ["var", "run"], ["var", "db"], ["var", "db", "screentimed"], ["etc"],
      ["etc", "screentimed"]]).2

/-- A save that looked for the directory before the removal fails, and makes nothing. -/
theorem wiped_of_spared_run :
    Transition.Along (step samplePrint) (fun _ _ t => Wiped t)
      (boot .defaults .fresh 1 ∅ installedFiles)
      [.task (.tickerRead {"alice"} 1), .task .tickerLock, .save .ticker, .save .ticker,
        .request false, .remove, .save .ticker, .task .tickerSent, .task (.resetterRead 1),
        .task .resetterLock, .save .resetter, .remove, .remove, .save .resetter] :=
  wiped_of_spared samplePrint .defaults .fresh 1 ∅ installedFiles _ (by decide +kernel)

/-- The first save after the answer makes the directory again. -/
theorem wiped_fails :
    ¬ Transition.Along (step samplePrint) (fun _ _ t => Wiped t)
      (boot .defaults .fresh 1 ∅ installedFiles)
      [.task (.tickerRead {"alice"} 1), .request true, .remove, .remove, .task .tickerLock,
        .save .ticker, .save .ticker] := by
  decide +kernel

end Teardown

end Daemon
end Konstantin
