import Konstantin.Daemon.ConcurrentSet
import Konstantin.Daemon.Pause
import Konstantin.Effect.Cuts

/-!
# Who can read the config text while it is written

`write_config_atomic` and `seed_default_config` as the calls they make to the file
system, which can stop anywhere: at a crash, or at a call that fails.  A file made
by a write has mode 0644 until the call after it.

`written` is bookkeeping: the places of the files that text was written to.
-/

namespace Konstantin
namespace Daemon

open Fs Toml Effect Proto

inductive FileCall where
  | createConfigDir (path : Path)
  | write (p : Path) (text : String)
  | setMode0600 (p : Path)
  | rename (src dst : Path)

/-- The files, and the places whose files text was written to. -/
structure Traced where
  fs : FileSystem
  written : List Loc

/-- Nobody but the owner can read what was written. -/
def Traced.Private (s : Traced) : Prop :=
  ∀ l ∈ s.written, ∀ content mode, s.fs.node l = some (.file content mode) → mode = 0o600

namespace FileCall

def perform : FileCall → Fallible FileSystem Unit
  | createConfigDir path => Daemon.createConfigDir path
  | write p text => writeTmp p text
  | setMode0600 p => Daemon.setMode0600 p
  | rename src dst => renameTmp src dst

def mark : FileCall → List Loc → List Loc
  | write p _, ls => p.resolve :: ls
  | rename src dst, ls =>
    let kept := ls.filter fun l => l ≠ src.resolve ∧ l ≠ dst.resolve
    if ls.contains src.resolve then dst.resolve :: kept else kept
  | _, ls => ls

def after (k : FileCall) (s : Traced) : Option Traced :=
  match k.perform.outcome s.fs with
  | (.ok (), fs) => some ⟨fs, k.mark s.written⟩
  | (.error _, _) => none

/-- A write that is cut off has made the file, and written some of the text. -/
def Cut : FileCall → Traced → Traced → Prop
  | createConfigDir path, s, t =>
    ∃ n, t = ⟨(s.fs.createDirAll ((above path).take n)).2, s.written⟩
  | write p text, s, t =>
    ∃ part fs, part.toList <+: text.toList ∧
      s.fs.atPath p (fun fs l => fs.write l part) = .ok fs ∧ t = ⟨fs, p.resolve :: s.written⟩
  | _, s, t => t = s

def system : CallSystem FileCall Traced where
  after := after
  cut := Cut

def isWrite : FileCall → Bool
  | write .. => true
  | _ => false

end FileCall

inductive ConfigWrite where
  | seed
  | set (operator : Operator) (text : String)

namespace ConfigWrite

section

variable (toml : Parser) (seedText : String) (c : Controller)

/-- What is checked before the first call. -/
def begins (fs : FileSystem) : ConfigWrite → Bool
  | seed =>
    !(Config.load toml c.configPath fs).isOk && Config.missing c.configPath fs &&
      (Config.parseToml toml seedText).isOk
  | set operator text => operator.allowed && (Config.parseToml toml text).isOk

def place : ConfigWrite → Path
  | seed => c.configPath
  | set .. => c.tmp

def text : ConfigWrite → String
  | seed => seedText
  | set _ text => text

def rest : ConfigWrite → List FileCall
  | seed => [.setMode0600 c.configPath]
  | set .. => [.setMode0600 c.tmp, .rename c.tmp c.configPath, .setMode0600 c.configPath]

def calls (fs : FileSystem) (op : ConfigWrite) : List FileCall :=
  if op.begins toml seedText c fs then
    .createConfigDir c.configPath :: .write (op.place c) (op.text seedText) :: op.rest c
  else []

/-- What is left of the operation, wherever it stops, is private. -/
def Secret (fs : FileSystem) (op : ConfigWrite) : Prop :=
  ∀ s, FileCall.system.Left (op.calls toml seedText c fs) ⟨fs, []⟩ s → s.Private

/-- The write comes to open its file. -/
def Opens (fs : FileSystem) (op : ConfigWrite) : Prop :=
  op.begins toml seedText c fs = true ∧
    ∃ fs₁ fs₂, (createConfigDir c.configPath).outcome fs = (.ok (), fs₁) ∧
      fs₁.atPath (op.place c) (fun fs l => fs.write l (op.text seedText)) = .ok fs₂

/-- The file that is opened is there before, and is the owner's alone. -/
def Guarded (fs : FileSystem) (op : ConfigWrite) : Prop :=
  op.Opens toml seedText c fs →
    ∃ content, fs.node (op.place c).resolve = some (.file content 0o600)

end

end ConfigWrite

/-! ## The operations are these calls -/

namespace ConfigWrite

theorem sequence_last (k : FileCall) :
    Fallible.sequence FileCall.perform [k] = k.perform := by
  rw [Fallible.sequence, Fallible.sequence]
  exact bind_pure_unit

theorem sequence_set (c : Controller) (operator : Operator) (text : String) :
    Fallible.sequence FileCall.perform
        (.createConfigDir c.configPath :: .write c.tmp text :: rest c (.set operator text)) =
      writeConfigAtomic c.pid c.configPath text := by
  rw [rest, Fallible.sequence, Fallible.sequence, Fallible.sequence, Fallible.sequence,
    sequence_last]
  rfl

theorem sequence_seed (c : Controller) (seedText : String) :
    Fallible.sequence FileCall.perform
        (.createConfigDir c.configPath :: .write c.configPath seedText :: rest c .seed) =
      (do createConfigDir c.configPath
          writeTmp c.configPath seedText
          setMode0600 c.configPath) := by
  rw [rest, Fallible.sequence, Fallible.sequence, sequence_last]
  rfl

section

variable (toml : Parser) (seedText : String) (c : Controller)

theorem calls_of_begins {fs : FileSystem} {op : ConfigWrite}
    (h : op.begins toml seedText c fs = true) :
    op.calls toml seedText c fs =
      .createConfigDir c.configPath :: .write (op.place c) (op.text seedText) :: op.rest c :=
  if_pos h

theorem calls_of_not_begins {fs : FileSystem} {op : ConfigWrite}
    (h : op.begins toml seedText c fs = false) : op.calls toml seedText c fs = [] :=
  if_neg (by rw [h]; exact Bool.false_ne_true)

/-- A `SetConfig` request leaves what its calls leave. -/
theorem handle_setConfig_fs (operator : Operator) (text : String) (w : World) :
    (c.handle toml operator (.setConfig text) w).2.fs =
      ((Fallible.sequence FileCall.perform
        (calls toml seedText c w.fs (.set operator text))).outcome w.fs).2 := by
  cases hallowed : operator.allowed with
  | false =>
    have hbegins : begins toml seedText c w.fs (.set operator text) = false := by
      rw [begins, hallowed, Bool.false_and]
    rw [calls_of_not_begins toml seedText c hbegins, Controller.handle, if_pos hallowed]
    rfl
  | true =>
    have hbegins : begins toml seedText c w.fs (.set operator text) =
        (Config.parseToml toml text).isOk := by rw [begins, hallowed, Bool.true_and]
    rw [Controller.handle_allowed toml c hallowed, Controller.handleAuthorized,
      Fallible.outcome_bind, Fallible.outcome_query]
    cases hparse : Config.parseToml toml text with
    | error message =>
      rw [hparse] at hbegins
      rw [calls_of_not_begins toml seedText c hbegins]
      rfl
    | ok cfg =>
      rw [hparse] at hbegins
      rw [calls_of_begins toml seedText c hbegins]
      show _ = ((Fallible.sequence FileCall.perform (.createConfigDir c.configPath ::
        .write c.tmp text :: rest c (.set operator text))).outcome w.fs).2
      rw [sequence_set]
      dsimp only
      show ((onFiles (writeConfigAtomic c.pid c.configPath text) >>= fun _ =>
        c.checkSet ⟨text, cfg, hparse⟩).outcome w).2.fs = _
      rw [Fallible.outcome_bind, outcome_onFiles]
      cases hrun : (writeConfigAtomic c.pid c.configPath text).outcome w.fs with
      | mk r fs =>
        cases r with
        | error message => rfl
        | ok u =>
          dsimp only
          rw [outcome_checkSet, World.kicked_fs]

/-- Loading or seeding leaves what its calls leave. -/
theorem loadOrSeed_fs (fs : FileSystem) :
    ((Config.loadOrSeed toml seedText c.configPath).outcome fs).2 =
      ((Fallible.sequence FileCall.perform (calls toml seedText c fs .seed)).outcome fs).2 := by
  rw [Config.outcome_loadOrSeed]
  cases hload : Config.load toml c.configPath fs with
  | ok cfg =>
    have hbegins : begins toml seedText c fs .seed = false := by
      rw [begins, hload]
      rfl
    rw [calls_of_not_begins toml seedText c hbegins]
    rfl
  | error message =>
    have hbegins : begins toml seedText c fs .seed =
        (Config.missing c.configPath fs && (Config.parseToml toml seedText).isOk) := by
      rw [begins, hload]
      rfl
    cases hmissing : Config.missing c.configPath fs with
    | false =>
      rw [hmissing, Bool.false_and] at hbegins
      rw [calls_of_not_begins toml seedText c hbegins]
      rfl
    | true =>
      rw [hmissing, Bool.true_and] at hbegins
      dsimp only
      rw [if_pos rfl, Fallible.state_bind_query, Config.seedDefault, Fallible.outcome_bind,
        Fallible.outcome_query]
      cases hparse : Config.parseToml toml seedText with
      | error message =>
        rw [hparse] at hbegins
        rw [calls_of_not_begins toml seedText c hbegins]
        rfl
      | ok cfg =>
        rw [hparse] at hbegins
        rw [calls_of_begins toml seedText c hbegins]
        exact (congrArg (fun x => (Fallible.outcome x fs).2) (sequence_seed c seedText)).symm

end

end ConfigWrite

/-! ## What is left -/

namespace FileCall

theorem after_eq_some {k : FileCall} {s t : Traced} (h : k.after s = some t) :
    ∃ fs, k.perform.outcome s.fs = (.ok (), fs) ∧ t = ⟨fs, k.mark s.written⟩ := by
  unfold after at h
  cases hrun : k.perform.outcome s.fs with
  | mk r fs =>
    rw [hrun] at h
    cases r with
    | error message => cases h
    | ok u =>
      cases h
      exact ⟨fs, rfl, rfl⟩

theorem createConfigDir_fs {path : Path} {fs fs' : FileSystem} {r : Except String Unit}
    (h : (Daemon.createConfigDir path).outcome fs = (r, fs')) :
    fs' = (fs.createDirAll (above path)).2 := by
  obtain ⟨r', hr⟩ := SetRace.outcome_createConfigDir path fs
  rw [hr] at h
  exact (Prod.ext_iff.mp h).2.symm

/-- A call that fails for what the tree holds leaves what a cut leaves. -/
theorem cut_of_error {k : FileCall} {t : Traced} {fs : FileSystem} {message : String}
    (h : k.perform.outcome t.fs = (.error message, fs)) :
    ∃ u, (u = t ∨ k.Cut t u) ∧ u.fs = fs := by
  cases k with
  | createConfigDir path =>
    refine ⟨⟨fs, t.written⟩, Or.inr ⟨(above path).length, ?_⟩, rfl⟩
    rw [List.take_length, createConfigDir_fs h]
  | write p text => exact ⟨t, Or.inl rfl, (Fallible.change_error h).symm⟩
  | setMode0600 p => exact ⟨t, Or.inl rfl, (Fallible.change_error h).symm⟩
  | rename src dst => exact ⟨t, Or.inl rfl, (Fallible.change_error h).symm⟩

theorem left_sequence (ks : List FileCall) (fs : FileSystem) :
    ∃ s, system.Left ks ⟨fs, []⟩ s ∧ s.fs = ((Fallible.sequence perform ks).outcome fs).2 := by
  refine Fallible.left_sequence (C := system) Traced.fs ?_ ?_ ks ⟨fs, []⟩
  · intro k t fs' hok
    refine ⟨⟨fs', k.mark t.written⟩, ?_, rfl⟩
    show k.after t = _
    rw [after, hok]
  · exact fun k t fs' message herror => cut_of_error herror

end FileCall

section

variable (toml : Parser) (seedText : String) (c : Controller)

/-- The world after a reply is one of those that can be left. -/
theorem left_handle (operator : Operator) (text : String) (w : World) :
    ∃ s, FileCall.system.Left (ConfigWrite.calls toml seedText c w.fs (.set operator text))
      ⟨w.fs, []⟩ s ∧ s.fs = (c.handle toml operator (.setConfig text) w).2.fs := by
  rw [ConfigWrite.handle_setConfig_fs toml seedText]
  exact FileCall.left_sequence _ w.fs

theorem left_loadOrSeed (fs : FileSystem) :
    ∃ s, FileCall.system.Left (ConfigWrite.calls toml seedText c fs .seed) ⟨fs, []⟩ s ∧
      s.fs = ((Config.loadOrSeed toml seedText c.configPath).outcome fs).2 := by
  rw [ConfigWrite.loadOrSeed_fs]
  exact FileCall.left_sequence _ fs

end

namespace FileCall

theorem private_of_kept {s t : Traced} (h : s.Private) (hwritten : t.written = s.written)
    (hfile : ∀ k content mode, t.fs.node k = some (.file content mode) →
      mode = 0o600 ∨ s.fs.node k = some (.file content mode)) : t.Private := by
  intro l hl content mode hnode
  rw [hwritten] at hl
  rcases hfile l content mode hnode with hmode | hold
  · exact hmode
  · exact h l hl content mode hold

theorem file_of_createDirAll {fs : FileSystem} {ls : List Loc} {k : Loc} {content : Content}
    {mode : Nat} (h : (fs.createDirAll ls).2.node k = some (.file content mode)) :
    fs.node k = some (.file content mode) := by
  rcases FileSystem.createDirAll_node ls fs k with hsame | ⟨-, -, hdir⟩
  · exact hsame.symm.trans h
  · rw [h] at hdir
    cases hdir

theorem file_of_setMode0600 {fs fs' : FileSystem} {p : Path}
    (h : fs.atPath p (fun fs l => fs.setPermissions l 0o600) = .ok fs') {k : Loc}
    {content : Content} {mode : Nat} (hk : fs'.node k = some (.file content mode)) :
    mode = 0o600 ∨ fs.node k = some (.file content mode) := by
  have hset := (FileSystem.atPath_eq_ok h).2
  by_cases hp : k = p.resolve
  · subst hp
    have hcontent := FileSystem.content_setPermissions hset p.resolve
    rw [hk] at hcontent
    obtain ⟨old, hold⟩ := FileSystem.exists_file_of_content hcontent.symm
    rw [FileSystem.setPermissions_file hold hset] at hk
    cases hk
    exact Or.inl rfl
  · rw [FileSystem.setPermissions_node hset hp] at hk
    exact Or.inr hk

theorem private_renamed {s : Traced} (h : s.Private) {src dst : Path} {fs : FileSystem}
    (hmove : s.fs.rename src.resolve dst.resolve = .ok fs) :
    Traced.Private ⟨fs, (FileCall.rename src dst).mark s.written⟩ := by
  intro l hl content mode hnode
  have hl : l ∈ (FileCall.rename src dst).mark s.written := hl
  have hnode : fs.node l = some (.file content mode) := hnode
  rw [FileSystem.rename_node hmove] at hnode
  have hkept : l ∈ s.written.filter (fun l => l ≠ src.resolve ∧ l ≠ dst.resolve) →
      mode = 0o600 := by
    intro hmem
    obtain ⟨hold, hne⟩ := List.mem_filter.mp hmem
    obtain ⟨hsrc, hdst⟩ := of_decide_eq_true hne
    rw [if_neg hdst, if_neg hsrc] at hnode
    exact h l hold content mode hnode
  unfold mark at hl
  dsimp only at hl
  split at hl
  · rename_i hsrc
    rcases List.mem_cons.mp hl with rfl | hmem
    · rw [if_pos rfl] at hnode
      exact h _ (List.contains_iff_mem.mp hsrc) content mode hnode
    · exact hkept hmem
  · exact hkept hl

/-- Nothing but a write gives what was written a mode of its own. -/
theorem private_after {k : FileCall} (hk : k.isWrite = false) {s t : Traced} (h : s.Private)
    (hafter : k.after s = some t) : t.Private := by
  obtain ⟨fs, hrun, rfl⟩ := after_eq_some hafter
  cases k with
  | createConfigDir path =>
    refine private_of_kept h rfl fun k content mode hnode => Or.inr ?_
    rw [createConfigDir_fs hrun] at hnode
    exact file_of_createDirAll hnode
  | write p text => cases hk
  | setMode0600 p =>
    have hchmod := Fallible.change_ok hrun
    exact private_of_kept h rfl fun k content mode hnode => file_of_setMode0600 hchmod hnode
  | rename src dst =>
    have hrename := FileSystem.atPath_eq_ok (Fallible.change_ok hrun)
    exact private_renamed h (FileSystem.atPath_eq_ok hrename.2).2

theorem private_cut {k : FileCall} (hk : k.isWrite = false) {s t : Traced} (h : s.Private)
    (hcut : k.Cut s t) : t.Private := by
  cases k with
  | createConfigDir path =>
    obtain ⟨n, rfl⟩ := hcut
    exact private_of_kept h rfl fun k content mode hnode => Or.inr (file_of_createDirAll hnode)
  | write p text => cases hk
  | setMode0600 p =>
    obtain rfl : t = s := hcut
    exact h
  | rename src dst =>
    obtain rfl : t = s := hcut
    exact h

theorem private_left {ks : List FileCall} (hks : ∀ k ∈ ks, k.isWrite = false) {s t : Traced}
    (h : s.Private) (hleft : system.Left ks s t) : t.Private :=
  hleft.keeps (I := Traced.Private) (fun k hk _ _ hs hafter => private_after (hks k hk) hs hafter)
    (fun k hk _ _ hs hcut => private_cut (hks k hk) hs hcut) h

end FileCall

/-! ## The write -/

theorem modeOfWritten_eq {fs : FileSystem} {l : Loc} (h : fs.modeOfWritten l = 0o600) :
    ∃ content, fs.node l = some (.file content 0o600) := by
  unfold FileSystem.modeOfWritten at h
  split at h
  · rename_i content mode hnode
    subst h
    exact ⟨content, hnode⟩
  · cases h

theorem modeOfWritten_file {fs : FileSystem} {l : Loc} {content : Content} {mode : Nat}
    (h : fs.node l = some (.file content mode)) : fs.modeOfWritten l = mode := by
  rw [FileSystem.modeOfWritten, h]

/-- Whether a file can be opened for writing does not depend on the text. -/
theorem write_any {fs fs' : FileSystem} {p : Path} {text : String}
    (h : fs.atPath p (fun fs l => fs.write l text) = .ok fs') (text' : String) :
    ∃ fs'', fs.atPath p (fun fs l => fs.write l text') = .ok fs'' := by
  obtain ⟨hfind, hwrite⟩ := FileSystem.atPath_eq_ok h
  unfold FileSystem.write at hwrite
  split at hwrite
  · cases hwrite
  · rename_i hdir
    split at hwrite
    · rename_i hparent
      rw [FileSystem.atPath, hfind]
      show ∃ fs'', fs.write p.resolve text' = .ok fs''
      rw [FileSystem.write, dif_neg hdir, dif_pos hparent]
      exact ⟨_, rfl⟩
    · cases hwrite

theorem private_of_written {fs fs' : FileSystem} {p : Path} {text : String}
    (hmode : fs.modeOfWritten p.resolve = 0o600)
    (h : fs.atPath p (fun fs l => fs.write l text) = .ok fs') :
    Traced.Private ⟨fs', [p.resolve]⟩ := by
  intro l hl content mode hnode
  obtain rfl := List.mem_singleton.mp hl
  have htemp := (staged_write h).temp
  rw [htemp, hmode] at hnode
  cases hnode
  rfl

namespace ConfigWrite

section

variable (toml : Parser) (seedText : String) (c : Controller)

theorem rest_isWrite (op : ConfigWrite) : ∀ k ∈ op.rest c, k.isWrite = false := by
  intro k hk
  cases op with
  | seed =>
    obtain rfl := List.mem_singleton.mp hk
    rfl
  | set operator text =>
    rcases List.mem_cons.mp hk with rfl | hk
    · rfl
    rcases List.mem_cons.mp hk with rfl | hk
    · rfl
    obtain rfl := List.mem_singleton.mp hk
    rfl

theorem guarded_of_secret {fs : FileSystem} {op : ConfigWrite}
    (h : op.Secret toml seedText c fs) : op.Guarded toml seedText c fs := by
  rintro ⟨hbegins, fs₁, fs₂, hcreate, hwrite⟩
  have hleft : FileCall.system.Left (op.calls toml seedText c fs) ⟨fs, []⟩
      ⟨fs₂, [(op.place c).resolve]⟩ := by
    rw [calls_of_begins toml seedText c hbegins]
    refine .passed (t := ⟨fs₁, []⟩) ?_ (.broken _ ⟨op.text seedText, fs₂, List.prefix_rfl,
      hwrite, rfl⟩)
    show FileCall.after _ _ = _
    have hperform : (FileCall.createConfigDir c.configPath).perform.outcome fs =
        (.ok (), fs₁) := hcreate
    rw [FileCall.after, hperform]
    rfl
  have hmode : fs₁.modeOfWritten (op.place c).resolve = 0o600 :=
    h _ hleft _ List.mem_cons_self _ _ (staged_write hwrite).temp
  obtain ⟨content, hnode⟩ := modeOfWritten_eq hmode
  rw [FileCall.createConfigDir_fs hcreate] at hnode
  exact ⟨content, FileCall.file_of_createDirAll hnode⟩

theorem secret_of_guarded {fs : FileSystem} {op : ConfigWrite}
    (h : op.Guarded toml seedText c fs) : op.Secret toml seedText c fs := by
  have hnothing : ∀ fs, Traced.Private ⟨fs, []⟩ := fun _ _ hl => absurd hl List.not_mem_nil
  intro s hleft
  cases hbegins : op.begins toml seedText c fs with
  | false =>
    rw [calls_of_not_begins toml seedText c hbegins] at hleft
    cases hleft with
    | stopped => exact hnothing fs
  | true =>
    rw [calls_of_begins toml seedText c hbegins] at hleft
    cases hleft with
    | stopped => exact hnothing fs
    | broken _ hcut =>
      obtain ⟨n, rfl⟩ := hcut
      exact hnothing _
    | passed hafter hleft =>
      obtain ⟨fs₁, hcreate, rfl⟩ := FileCall.after_eq_some hafter
      -- the mode is that of the file that was there before the directories were made
      have hmode : ∀ part fs', fs₁.atPath (op.place c) (fun fs l => fs.write l part) = .ok fs' →
          fs₁.modeOfWritten (op.place c).resolve = 0o600 := by
        intro part fs' hpart
        obtain ⟨fs₂, hwrite⟩ := write_any hpart (op.text seedText)
        obtain ⟨content, hnode⟩ := h ⟨hbegins, fs₁, fs₂, hcreate, hwrite⟩
        have hthere : fs₁.node (op.place c).resolve = some (.file content 0o600) := by
          rw [FileCall.createConfigDir_fs hcreate]
          exact FileSystem.createDirAll_some hnode _
        exact modeOfWritten_file hthere
      cases hleft with
      | stopped => exact hnothing fs₁
      | broken _ hcut =>
        obtain ⟨part, fs', -, hpart, rfl⟩ := hcut
        exact private_of_written (hmode part fs' hpart) hpart
      | passed hafter hleft =>
        obtain ⟨fs₂, hrun, rfl⟩ := FileCall.after_eq_some hafter
        refine FileCall.private_left (rest_isWrite c op) ?_ hleft
        have hwrite := Fallible.change_ok hrun
        exact private_of_written (hmode _ _ hwrite) hwrite

/-- The text is private throughout exactly where the write that comes to open its
file finds one of mode 0600. -/
theorem secret_iff_guarded (fs : FileSystem) (op : ConfigWrite) :
    op.Secret toml seedText c fs ↔ op.Guarded toml seedText c fs :=
  ⟨guarded_of_secret toml seedText c, secret_of_guarded toml seedText c⟩

end

/-- Where the config path goes up nowhere, no file is there to be opened by a seed. -/
theorem not_secret_seed (toml : Parser) (seedText : String) {c : Controller} {absolute : Bool}
    {names : List String} (hpath : c.configPath = ⟨absolute, names.map Component.normal, .plain⟩)
    {fs : FileSystem} (h : seed.Opens toml seedText c fs) : ¬ seed.Secret toml seedText c fs := by
  intro hsecret
  obtain ⟨content, hnode⟩ := guarded_of_secret toml seedText c hsecret h
  have hmissing : Config.missing c.configPath fs = true := by
    have hbegins := h.1
    simp only [begins, Bool.and_eq_true] at hbegins
    exact hbegins.1.2
  have hnode : fs.node c.configPath.resolve ≠ none := by
    show fs.node (seed.place c).resolve ≠ none
    rw [hnode]
    exact Option.some_ne_none _
  have hresolve : c.configPath.resolve = names := by
    rw [hpath]
    exact Path.resolve_names absolute names .plain
  rw [hresolve] at hnode
  have hfind : fs.find c.configPath = .ok names := by
    rw [hpath]
    exact FileSystem.find_of_node absolute hnode
  have hfound : fs.pathFound c.configPath = true := by
    rw [FileSystem.pathFound, hfind]
    exact Option.isSome_iff_ne_none.mpr hnode
  rw [Config.missing, hfound] at hmissing
  cases hmissing

/-- A first request leaves its text in a file of mode 0644 when it is cut off. -/
theorem secret_fails :
    ¬ Secret SetRace.pairToml "" systemController FileSystem.empty
      (.set allowedOperator "tick_seconds = 60") := by
  intro h
  obtain ⟨content, hnode⟩ := guarded_of_secret _ _ _ h ⟨by decide, _, _, rfl, rfl⟩
  cases hnode

end ConfigWrite

end Daemon
end Konstantin
