import Mathlib.Logic.Function.Basic
import Konstantin.Daemon.Atomicity
import Konstantin.Effect.Calls

/-!
# Several `SetConfig` requests at once

`accept_peer` gives every peer a handler of its own over one shared controller,
and the controller takes no lock.  The steps of `SetConfig` requests of different
peers therefore come in any order, each step being one call to the file system.

The name of the temporary depends on the config path and the id of the process,
so all these requests write one temporary.  `writer` and `installs` are
bookkeeping: who wrote the temporary last, and which renames went through.
-/

namespace Konstantin
namespace Daemon

open Fs Toml Effect Proto

/-- A `SetConfig` request whose text is accepted. -/
structure SetRequest (toml : Parser) where
  text : String
  cfg : Config
  parsed : Config.parseToml toml text = .ok cfg

inductive SetPhase where
  | creating
  | writing
  | restrictingTmp
  | replacing
  | restricting
  | checking
  | answered (resp : AdminResponse)
  deriving DecidableEq

namespace SetPhase

def accepted : SetPhase → Bool
  | answered resp => !resp.refused
  | _ => false

def refused : SetPhase → Bool
  | answered resp => resp.refused
  | _ => false

def finished : SetPhase → Bool
  | answered _ => true
  | _ => false

/-- The rename of the request went through, and nothing failed after it. -/
def renamed : SetPhase → Bool
  | restricting => true
  | checking => true
  | answered resp => !resp.refused
  | _ => false

theorem renamed_of_accepted {ph : SetPhase} (h : ph.accepted = true) : ph.renamed = true := by
  cases ph with
  | answered resp => exact h
  | _ => cases h

theorem not_renamed_of_refused {ph : SetPhase} (h : ph.refused = true) : ph.renamed = false := by
  cases ph with
  | answered resp =>
    have hresp : resp.refused = true := h
    simp [renamed, hresp]
  | _ => cases h

theorem accepted_of_finished {ph : SetPhase} (h : ph.finished = true) (hr : ph.renamed = true) :
    ph.accepted = true := by
  cases ph with
  | answered resp => exact hr
  | _ => cases h

end SetPhase

def writeTmp (tmp : Path) (text : String) : Fallible FileSystem Unit :=
  .change ("writing " ++ tmp.display) fun fs => fs.atPath tmp fun fs l => fs.write l text

def renameTmp (tmp path : Path) : Fallible FileSystem Unit :=
  .change ("renaming " ++ tmp.display ++ " to " ++ path.display) fun fs =>
    fs.atPath tmp fun fs src => fs.atPath path fun fs dst => fs.rename src dst

namespace Controller

def tmp (c : Controller) : Path := tmpPath c.pid c.configPath "toml"

/-- What follows the write of the config: the schedule of a restart and the reply. -/
def checkSet {toml : Parser} (c : Controller) (req : SetRequest toml) :
    Fallible World AdminResponse := do
  c.kickstartDaemonAfterReply
  let paused ← onFiles (killSwitchPaused req.cfg)
  return .enforcementState paused req.cfg.killSwitchPath

/-- The end of a request. -/
def answer (r : Except String AdminResponse) : SetPhase := .answered (reply r)

def advance {toml : Parser} (c : Controller) (req : SetRequest toml) :
    SetPhase × World → SetPhase × World
  | (.creating, w) => Fallible.proceed answer (onFiles (createConfigDir c.configPath)) .writing w
  | (.writing, w) =>
    Fallible.proceed answer (onFiles (writeTmp c.tmp req.text)) .restrictingTmp w
  | (.restrictingTmp, w) => Fallible.proceed answer (onFiles (setMode0600 c.tmp)) .replacing w
  | (.replacing, w) =>
    Fallible.proceed answer (onFiles (renameTmp c.tmp c.configPath)) .restricting w
  | (.restricting, w) =>
    Fallible.proceed answer (onFiles (setMode0600 c.configPath)) .checking w
  | (.checking, w) => (answer ((c.checkSet req).outcome w).1, ((c.checkSet req).outcome w).2)
  | (.answered resp, w) => (.answered resp, w)

end Controller

/-! ## One request alone -/

section

variable {toml : Parser} (c : Controller) (req : SetRequest toml)

theorem onFiles_bind {α : Type} (x y : Fallible FileSystem Unit) (f : Fallible World α) :
    (onFiles (x >>= fun _ => y) >>= fun _ => f) =
      (onFiles x >>= fun _ => onFiles y >>= fun _ => f) := by
  refine funext fun w => ?_
  show Fallible.outcome _ w = Fallible.outcome _ w
  rw [Fallible.outcome_bind, Fallible.outcome_bind, outcome_onFiles, outcome_onFiles,
    Fallible.outcome_bind]
  cases x.outcome w.fs with
  | mk r fs =>
    cases r with
    | ok u =>
      show _ = (onFiles y >>= fun _ => f).outcome { w with fs := fs }
      rw [Fallible.outcome_bind, outcome_onFiles]
    | error message => rfl

theorem handleAuthorized_setConfig (w : World) :
    (c.handleAuthorized toml (.setConfig req.text)).outcome w =
      (onFiles (createConfigDir c.configPath) >>= fun _ =>
        onFiles (writeTmp c.tmp req.text) >>= fun _ =>
          onFiles (setMode0600 c.tmp) >>= fun _ =>
            onFiles (renameTmp c.tmp c.configPath) >>= fun _ =>
              onFiles (setMode0600 c.configPath) >>= fun _ => c.checkSet req).outcome w := by
  have hwrite : writeConfigAtomic c.pid c.configPath req.text =
      (createConfigDir c.configPath >>= fun _ => writeTmp c.tmp req.text >>= fun _ =>
        setMode0600 c.tmp >>= fun _ => renameTmp c.tmp c.configPath >>= fun _ =>
          setMode0600 c.configPath) := rfl
  rw [Controller.handleAuthorized, Fallible.outcome_bind, Fallible.outcome_query, req.parsed]
  show (onFiles (writeConfigAtomic c.pid c.configPath req.text) >>= fun _ =>
    c.checkSet req).outcome w = _
  rw [hwrite, onFiles_bind, onFiles_bind, onFiles_bind, onFiles_bind]

theorem outcome_checkSet (w : World) :
    (c.checkSet req).outcome w =
      ((validateKillSwitchPath req.cfg.killSwitchPath).map fun _ =>
        .enforcementState (w.fs.pathFound req.cfg.killSwitchPath) req.cfg.killSwitchPath,
        w.kicked c) := by
  rw [Controller.checkSet, Fallible.outcome_bind, Controller.outcome_kickstart]
  dsimp only
  rw [Fallible.outcome_bind, outcome_paused, World.kicked_fs]
  cases validateKillSwitchPath req.cfg.killSwitchPath with
  | error e => rfl
  | ok p => rfl

/-- The steps of one request that nothing interrupts are `handle`. -/
theorem advance_alone {operator : Operator} (h : operator.allowed = true) (w : World) :
    (c.advance req)^[6] (.creating, w) =
      (.answered (c.handle toml operator (.setConfig req.text) w).1,
        (c.handle toml operator (.setConfig req.text) w).2) := by
  rw [Controller.handle_allowed toml c h, handleAuthorized_setConfig]
  have hend : ∀ r w, c.advance req (Controller.answer r, w) = (Controller.answer r, w) :=
    fun _ _ => rfl
  refine Fallible.iterate_proceed hend (fun w => ?_) w
  refine Fallible.iterate_proceed hend (fun w => ?_) w
  refine Fallible.iterate_proceed hend (fun w => ?_) w
  refine Fallible.iterate_proceed hend (fun w => ?_) w
  refine Fallible.iterate_proceed hend (fun w => ?_) w
  rfl

end

/-! ## Any number of requests -/

/-- A rename that went through: whose it was, and who had written the temporary. -/
structure Install (n : Nat) where
  request : Fin n
  author : Option (Fin n)
  deriving DecidableEq

structure SetRace (n : Nat) where
  world : World
  phase : Fin n → SetPhase
  writer : Option (Fin n)
  installs : List (Install n)

namespace SetRace

variable {toml : Parser} {n : Nat}

def start (w : World) : SetRace n where
  world := w
  phase := fun _ => .creating
  writer := none
  installs := []

/-- The race after a call of request `i` that led to `r`. -/
def record (s : SetRace n) (i : Fin n) (r : SetPhase × World) : SetRace n where
  world := r.2
  phase := Function.update s.phase i r.1
  writer := if r.1 = .restrictingTmp then some i else s.writer
  installs := if r.1 = .restricting then s.installs ++ [⟨i, s.writer⟩] else s.installs

theorem record_installs (s : SetRace n) (i : Fin n) {r : SetPhase × World}
    (h : r.1 = .restricting) : (s.record i r).installs = s.installs ++ [⟨i, s.writer⟩] :=
  if_pos h

section

variable (c : Controller) (reqs : Fin n → SetRequest toml)

def step (s : SetRace n) (i : Fin n) : Option (SetRace n) :=
  if (s.phase i).finished then none
  else some (s.record i (c.advance (reqs i) (s.phase i, s.world)))

/-- The text of the last request to rename among those answered without an error,
or what the file held at the start. -/
def lastText (old : Option Content) (s : SetRace n) : Option Content :=
  (s.installs.filter fun x => (s.phase x.request).accepted).getLast?.elim old fun x =>
    some (.text (reqs x.request).text)

structure Faithful (old : Option Content) (s : SetRace n) : Prop where
  whole : c.configText s.world = old ∨ ∃ i, c.configText s.world = some (.text (reqs i).text)
  accepted : ∀ i, (s.phase i).accepted = true → ⟨i, some i⟩ ∈ s.installs
  refused : ∀ i, (s.phase i).refused = true → ∀ x ∈ s.installs, x.author ≠ some i
  final : (∀ i, (s.phase i).finished = true) → c.configText s.world = s.lastText reqs old

/-- A request about to rename a temporary is the last one that wrote it, and the
`kill_switch_path` of a request that is checked after its rename passes. -/
def Undisturbed (s : SetRace n) (i : Fin n) (_ : SetRace n) : Prop :=
  (s.phase i = .replacing → s.world.fs.node c.tmp.resolve ≠ none →
    s.world.fs.isDir c.configPath.resolve = false → s.writer = some i) ∧
  (s.phase i = .checking → Controller.Valid (reqs i).cfg)

instance (s : SetRace n) (i : Fin n) (t : SetRace n) :
    Decidable (Undisturbed c reqs s i t) := by
  unfold Undisturbed
  infer_instance

instance (old : Option Content) (s : SetRace n) : Decidable (Faithful c reqs old s) :=
  decidable_of_iff
    ((c.configText s.world = old ∨ ∃ i, c.configText s.world = some (.text (reqs i).text)) ∧
      (∀ i, (s.phase i).accepted = true → ⟨i, some i⟩ ∈ s.installs) ∧
      (∀ i, (s.phase i).refused = true → ∀ x ∈ s.installs, x.author ≠ some i) ∧
      ((∀ i, (s.phase i).finished = true) → c.configText s.world = s.lastText reqs old))
    ⟨fun ⟨h₁, h₂, h₃, h₄⟩ => ⟨h₁, h₂, h₃, h₄⟩, fun h => ⟨h.1, h.2, h.3, h.4⟩⟩

/-! ### The invariant -/

structure Inv (old : Option Content) (s : SetRace n) : Prop where
  temp : ∀ j t, s.writer = some j →
    Node.content (s.world.fs.node c.tmp.resolve) = some t → t = .text (reqs j).text
  own : ∀ x ∈ s.installs, x.author = some x.request
  renamed : ∀ i, (s.phase i).renamed = true ↔ ⟨i, some i⟩ ∈ s.installs
  holds : c.configText s.world =
    s.installs.getLast?.elim old fun x => some (.text (reqs x.request).text)
  found : s.installs ≠ [] → s.world.fs.find c.configPath = .ok c.configPath.resolve

theorem inv_start (w : World) : Inv c reqs (c.configText w) (start w) where
  temp := fun _ _ h => by cases h
  own := fun _ h => by cases h
  renamed := fun _ => ⟨fun h => (by cases h), fun h => (by cases h)⟩
  holds := rfl
  found := fun h => absurd rfl h

end

variable {c : Controller} {reqs : Fin n → SetRequest toml} {old : Option Content} {s : SetRace n}

theorem faithful_of_inv (h : Inv c reqs old s) : Faithful c reqs old s where
  whole := by
    rw [h.holds]
    cases s.installs.getLast? with
    | none => exact Or.inl rfl
    | some x => exact Or.inr ⟨x.request, rfl⟩
  accepted := fun i hi => (h.renamed i).mp (SetPhase.renamed_of_accepted hi)
  refused := by
    intro i hi x hx hauthor
    have howner : some x.request = some i := (h.own x hx).symm.trans hauthor
    have hmem : ⟨i, some i⟩ ∈ s.installs := by
      obtain ⟨request, author⟩ := x
      obtain rfl : author = some i := hauthor
      obtain rfl : request = i := Option.some.inj howner
      exact hx
    have hrenamed := (h.renamed i).mpr hmem
    rw [SetPhase.not_renamed_of_refused hi] at hrenamed
    cases hrenamed
  final := by
    intro hfinished
    have hall : ∀ x ∈ s.installs, (s.phase x.request).accepted = true := by
      intro x hx
      have hmem : ⟨x.request, some x.request⟩ ∈ s.installs := by
        rw [← h.own x hx]
        exact hx
      exact SetPhase.accepted_of_finished (hfinished x.request) ((h.renamed _).mpr hmem)
    rw [lastText, List.filter_eq_self.mpr hall]
    exact h.holds

/-- A call that changes what no file holds and takes away no directory. -/
theorem Inv.quiet (h : Inv c reqs old s) {i : Fin n} {r : SetPhase × World}
    (hcontent : ∀ k, Node.content (r.2.fs.node k) = Node.content (s.world.fs.node k))
    (hdirs : ∀ k, s.world.fs.isDir k = true → r.2.fs.isDir k = true)
    (hphase : r.1.renamed = (s.phase i).renamed) (hwrote : r.1 ≠ .restrictingTmp)
    (hrenamed : r.1 ≠ .restricting) : Inv c reqs old (s.record i r) := by
  have hwriter : (s.record i r).writer = s.writer := if_neg hwrote
  have hinstalls : (s.record i r).installs = s.installs := if_neg hrenamed
  refine ⟨fun j t hj ht => ?_, ?_, fun j => ?_, ?_, ?_⟩
  · rw [hwriter] at hj
    exact h.temp j t hj ((hcontent _).symm.trans ht)
  · rw [hinstalls]
    exact h.own
  · rw [hinstalls, ← h.renamed j]
    show (Function.update s.phase i r.1 j).renamed = true ↔ _
    by_cases hj : j = i
    · rw [hj, Function.update_self, hphase]
    · rw [Function.update_of_ne hj]
  · rw [hinstalls, ← h.holds]
    exact hcontent _
  · rw [hinstalls]
    exact fun hne => FileSystem.find_mono hdirs (h.found hne)

/-- A call that fails before the rename, and leaves every file as it was. -/
theorem Inv.failed (h : Inv c reqs old s) {i : Fin n} (message : String) {w : World}
    (hcontent : ∀ k, Node.content (w.fs.node k) = Node.content (s.world.fs.node k))
    (hdirs : ∀ k, s.world.fs.isDir k = true → w.fs.isDir k = true)
    (hphase : (s.phase i).renamed = false) :
    Inv c reqs old (s.record i (.answered (.error message), w)) :=
  h.quiet hcontent hdirs hphase.symm SetPhase.noConfusion SetPhase.noConfusion

theorem Inv.wrote (h : Inv c reqs old s) {i : Fin n} (hi : s.phase i = .writing)
    {w : World} (hne : c.tmp.resolve ≠ c.configPath.resolve)
    (hw : Staged s.world.fs c.tmp (reqs i).text (s.world.fs.modeOfWritten c.tmp.resolve) w.fs) :
    Inv c reqs old (s.record i (.restrictingTmp, w)) := by
  have hconfig : c.configText w = c.configText s.world :=
    congrArg Node.content (hw.frame _ hne.symm)
  refine ⟨fun j t hj ht => ?_, h.own, fun j => ?_, hconfig.trans h.holds, fun hinstalls => ?_⟩
  · have hji : some i = some j := hj
    obtain rfl := Option.some.inj hji
    have htemp : Node.content (w.fs.node c.tmp.resolve) = some (.text (reqs i).text) := by
      rw [hw.temp]
      rfl
    exact Option.some.inj (ht.symm.trans htemp)
  · have hphase : (Function.update s.phase i .restrictingTmp j).renamed =
        (s.phase j).renamed := by
      by_cases hj : j = i
      · rw [hj, Function.update_self, hi]
        rfl
      · rw [Function.update_of_ne hj]
    show (Function.update s.phase i .restrictingTmp j).renamed = true ↔ _
    rw [hphase]
    exact h.renamed j
  · exact FileSystem.find_mono (fun k hk => (hw.dirs k).trans hk) (h.found hinstalls)

theorem Inv.installed (h : Inv c reqs old s) {i : Fin n} {fs : FileSystem}
    (hne : c.tmp.resolve ≠ c.configPath.resolve) (hwriter : s.writer = some i)
    (hfound : s.world.fs.find c.configPath = .ok c.configPath.resolve)
    (hrename : s.world.fs.rename c.tmp.resolve c.configPath.resolve = .ok fs) :
    Inv c reqs old (s.record i (.restricting, { s.world with fs := fs })) := by
  have hnode := FileSystem.rename_node hrename
  obtain ⟨-, t, mode, hsrc⟩ := FileSystem.rename_source hrename
  have ht : t = .text (reqs i).text := h.temp i t hwriter (by rw [hsrc]; rfl)
  have hinstalls : (s.record i (.restricting, { s.world with fs := fs })).installs =
      s.installs ++ [⟨i, some i⟩] := by
    rw [record_installs s i rfl, hwriter]
  refine ⟨fun j t hj htext => ?_, ?_, fun j => ?_, ?_, fun _ => ?_⟩
  · have hgone : fs.node c.tmp.resolve = none := by rw [hnode, if_neg hne, if_pos rfl]
    have htext : Node.content (fs.node c.tmp.resolve) = some t := htext
    rw [hgone] at htext
    cases htext
  · intro x hx
    rw [hinstalls] at hx
    rcases List.mem_append.mp hx with hold | hnew
    · exact h.own x hold
    · rw [List.mem_singleton.mp hnew]
  · rw [hinstalls]
    show (Function.update s.phase i .restricting j).renamed = true ↔ _
    by_cases hj : j = i
    · rw [hj, Function.update_self]
      exact ⟨fun _ => by simp, fun _ => rfl⟩
    · rw [Function.update_of_ne hj, h.renamed j]
      simp [hj]
  · have hconfig : fs.node c.configPath.resolve = some (.file t mode) := by
      rw [hnode, if_pos rfl, hsrc]
    rw [hinstalls, List.getLast?_concat, Option.elim_some, ← ht]
    exact congrArg Node.content hconfig
  · exact FileSystem.find_mono (fun k hk => (FileSystem.isDir_rename hrename k).trans hk) hfound

/-! ### Each call -/

theorem tmp_ne (hfile : c.configPath.fileName ≠ none) :
    c.tmp.resolve ≠ c.configPath.resolve := by
  obtain ⟨name, hname⟩ := Option.ne_none_iff_exists'.mp hfile
  exact tmpPath_resolve_ne hname c.pid "toml"

theorem outcome_createConfigDir (path : Path) (fs : FileSystem) :
    ∃ r, (createConfigDir path).outcome fs = (r, (fs.createDirAll (above path)).2) := by
  have hnone : above path = [] →
      (pure () : Fallible FileSystem Unit).outcome fs =
        (.ok (), (fs.createDirAll (above path)).2) := by
    intro habove
    rw [habove]
    rfl
  unfold createConfigDir
  cases hparent : path.parent with
  | none =>
    exact ⟨_, hnone (above_eq_nil fun q hq => by rw [hparent] at hq; cases hq)⟩
  | some parent =>
    by_cases hempty : parent.isEmpty = true
    · simp only [hempty, if_true]
      refine ⟨_, hnone (above_eq_nil fun q hq => ?_)⟩
      rw [hparent] at hq
      cases hq
      exact hempty
    · simp only [hempty, Bool.false_eq_true, if_false]
      rw [outcome_createDirAll, above, hparent, Option.elim_some]
      exact ⟨_, rfl⟩

theorem inv_creating (h : Inv c reqs old s) {i : Fin n} (hi : s.phase i = .creating) :
    Inv c reqs old (s.record i (c.advance (reqs i) (.creating, s.world))) := by
  have hphase : (s.phase i).renamed = false := by rw [hi]; rfl
  have hcontent := FileSystem.content_createDirAll s.world.fs (above c.configPath)
  have hdirs : ∀ k, s.world.fs.isDir k = true →
      (s.world.fs.createDirAll (above c.configPath)).2.isDir k = true :=
    fun k hk => FileSystem.isDir_createDirAll hk _
  obtain ⟨r, hr⟩ := outcome_createConfigDir c.configPath s.world.fs
  rw [Controller.advance, Fallible.proceed, outcome_onFiles, hr]
  cases r with
  | ok u => exact h.quiet hcontent hdirs hphase.symm SetPhase.noConfusion SetPhase.noConfusion
  | error message => exact h.failed message hcontent hdirs hphase

theorem inv_writing (h : Inv c reqs old s) {i : Fin n} (hi : s.phase i = .writing) :
    Inv c reqs old (s.record i (c.advance (reqs i) (.writing, s.world))) := by
  have hphase : (s.phase i).renamed = false := by rw [hi]; rfl
  rw [Controller.advance, Fallible.proceed, outcome_onFiles, writeTmp, Fallible.outcome_change]
  cases hwrite : s.world.fs.atPath c.tmp fun fs l => fs.write l (reqs i).text with
  | error e => exact h.failed _ (fun _ => rfl) (fun _ hk => hk) hphase
  | ok fs =>
    have hfile : c.configPath.fileName ≠ none := by
      -- without a file name the temporary is the config path, which is a directory
      intro hnone
      obtain ⟨hfind, hw⟩ := FileSystem.atPath_eq_ok hwrite
      have htmp : c.tmp = c.configPath := tmpPath_of_fileName_none hnone c.pid "toml"
      rw [htmp] at hfind hw
      have hdir := FileSystem.isDir_of_fileName_none hfind hnone
      unfold FileSystem.write at hw
      rw [dif_pos hdir] at hw
      cases hw
    exact h.wrote hi (tmp_ne hfile) (staged_write hwrite)

theorem inv_restrictingTmp (h : Inv c reqs old s) {i : Fin n}
    (hi : s.phase i = .restrictingTmp) :
    Inv c reqs old (s.record i (c.advance (reqs i) (.restrictingTmp, s.world))) := by
  have hphase : (s.phase i).renamed = false := by rw [hi]; rfl
  rw [Controller.advance, Fallible.proceed, outcome_onFiles, setMode0600, Fallible.outcome_change]
  cases hchmod : s.world.fs.atPath c.tmp fun fs l => fs.setPermissions l 0o600 with
  | error e => exact h.failed _ (fun _ => rfl) (fun _ hk => hk) hphase
  | ok fs =>
    have hset := (FileSystem.atPath_eq_ok hchmod).2
    exact h.quiet (FileSystem.content_setPermissions hset)
      (fun k hk => (FileSystem.isDir_setPermissions hset k).trans hk) hphase.symm
      SetPhase.noConfusion SetPhase.noConfusion

theorem inv_replacing (h : Inv c reqs old s) {i : Fin n} (hi : s.phase i = .replacing)
    {t : SetRace n} (hguard : Undisturbed c reqs s i t) :
    Inv c reqs old (s.record i (c.advance (reqs i) (.replacing, s.world))) := by
  have hphase : (s.phase i).renamed = false := by rw [hi]; rfl
  rw [Controller.advance, Fallible.proceed, outcome_onFiles, renameTmp, Fallible.outcome_change]
  cases hrename : s.world.fs.atPath c.tmp fun fs src =>
      fs.atPath c.configPath fun fs dst => fs.rename src dst with
  | error e => exact h.failed _ (fun _ => rfl) (fun _ hk => hk) hphase
  | ok fs =>
    obtain ⟨hfound, hmove⟩ := FileSystem.atPath_eq_ok (FileSystem.atPath_eq_ok hrename).2
    obtain ⟨hdst, content, mode, hsrc⟩ := FileSystem.rename_source hmove
    have hwriter : s.writer = some i := hguard.1 hi (by simp [hsrc]) hdst
    have hfile : c.configPath.fileName ≠ none := by
      intro hnone
      rw [FileSystem.isDir_of_fileName_none hfound hnone] at hdst
      cases hdst
    exact h.installed (tmp_ne hfile) hwriter hfound hmove

theorem inv_restricting (h : Inv c reqs old s) {i : Fin n} (hi : s.phase i = .restricting) :
    Inv c reqs old (s.record i (c.advance (reqs i) (.restricting, s.world))) := by
  have hmem : ⟨i, some i⟩ ∈ s.installs := (h.renamed i).mp (by rw [hi]; rfl)
  have hphase : (s.phase i).renamed = true := by rw [hi]; rfl
  have hne : s.installs ≠ [] := List.ne_nil_of_mem hmem
  obtain ⟨mode, hfile⟩ : ∃ mode, s.world.fs.node c.configPath.resolve =
      some (.file (.text (reqs (s.installs.getLast hne).request).text) mode) := by
    refine FileSystem.exists_file_of_content ?_
    have hholds := h.holds
    rw [List.getLast?_eq_some_getLast hne] at hholds
    exact hholds
  obtain ⟨fs, hchmod⟩ := chmod_file (h.found hne) hfile
  have hset := (FileSystem.atPath_eq_ok hchmod).2
  rw [Controller.advance, Fallible.proceed, outcome_onFiles, setMode0600,
    Fallible.outcome_change, hchmod]
  exact h.quiet (FileSystem.content_setPermissions hset)
    (fun k hk => (FileSystem.isDir_setPermissions hset k).trans hk) hphase.symm
    SetPhase.noConfusion SetPhase.noConfusion

theorem inv_checking (h : Inv c reqs old s) {i : Fin n} (hi : s.phase i = .checking)
    {t : SetRace n} (hguard : Undisturbed c reqs s i t) :
    Inv c reqs old (s.record i (c.advance (reqs i) (.checking, s.world))) := by
  have hvalid : Controller.Valid (reqs i).cfg := hguard.2 hi
  have hphase : (s.phase i).renamed = true := by rw [hi]; rfl
  rw [Controller.advance, outcome_checkSet]
  refine h.quiet (fun k => ?_) (fun k hk => ?_) ?_ SetPhase.noConfusion
    SetPhase.noConfusion
  · rw [World.kicked_fs]
  · rw [World.kicked_fs]
    exact hk
  · rw [hphase]
    show (!AdminResponse.refused _) = true
    rw [Controller.accepted_of_valid hvalid]
    rfl

theorem inv_step (h : Inv c reqs old s) {i : Fin n} {t : SetRace n}
    (hstep : step c reqs s i = some t) (hguard : Undisturbed c reqs s i t) :
    Inv c reqs old t := by
  unfold step at hstep
  split at hstep
  · cases hstep
  · rename_i hgoing
    obtain rfl := Option.some.inj hstep
    cases hi : s.phase i with
    | creating => exact inv_creating h hi
    | writing => exact inv_writing h hi
    | restrictingTmp => exact inv_restrictingTmp h hi
    | replacing => exact inv_replacing h hi hguard
    | restricting => exact inv_restricting h hi
    | checking => exact inv_checking h hi hguard
    | answered resp =>
      rw [hi] at hgoing
      exact absurd rfl hgoing

/-- Runs in which every request renames the text it wrote are faithful. -/
theorem faithful_of_undisturbed (c : Controller) (reqs : Fin n → SetRequest toml) (w : World)
    (ls : List (Fin n))
    (h : Transition.Along (step c reqs) (Undisturbed c reqs) (start w) ls) :
    Transition.Along (step c reqs) (fun _ _ t => Faithful c reqs (c.configText w) t)
      (start w) ls := by
  refine Transition.along_of_guarded (I := Inv c reqs (c.configText w)) ?_ ls
    (inv_start c reqs w) h
  intro s i t hstep hinv hguard
  have hinv' := inv_step hinv hstep hguard
  exact ⟨hinv', faithful_of_inv hinv'⟩

/-- The parser on the texts of the runs below. -/
def pairToml : Parser := fun text =>
  if text = "" then some []
  else if text = "tick_seconds = 60" then some [("tick_seconds", .integer 60)]
  else none

def setEmpty : SetRequest pairToml where
  text := ""
  cfg := Config.defaults
  parsed := rfl

def setTick : SetRequest pairToml where
  text := "tick_seconds = 60"
  cfg := { Config.defaults with tickSeconds := 60 }
  parsed := rfl

def setPair : Fin 2 → SetRequest pairToml
  | 0 => setEmpty
  | 1 => setTick

theorem faithful_of_undisturbed_run :
    Transition.Along (step systemController setPair)
      (fun _ _ t => Faithful systemController setPair none t) (start ⟨FileSystem.empty, false⟩)
      [0, 1, 0, 0, 0, 1, 0, 1, 1, 0, 1, 1] :=
  faithful_of_undisturbed systemController setPair ⟨FileSystem.empty, false⟩ _
    (by decide +kernel)

/-- The second request writes over the temporary of the first, which then
installs it and reports success. -/
theorem faithful_fails :
    ¬ Transition.Along (step systemController setPair)
      (fun _ _ t => Faithful systemController setPair none t) (start ⟨FileSystem.empty, false⟩)
      [0, 0, 1, 1, 0, 0, 0, 0] := by
  decide +kernel

end SetRace

end Daemon
end Konstantin
