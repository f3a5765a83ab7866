import Mathlib.Logic.Function.Basic
import Konstantin.Daemon.Acceptance
import Konstantin.Transition
import Konstantin.Tray.Reopening

/-!
# Saves of a window that was opened earlier

A window reads the config file when it opens and replaces the whole file when it
saves.  Here several windows and requests of their own by operators are at work on
one config file, each answered without an error.  A save keeps what it does not
manage, and the limits that were not edited, as they were when its window was
opened, so it undoes what was changed since.
-/

namespace Konstantin
namespace Tray

open Fs Toml Text Daemon Effect Proto

/-! ## The operator at the fields -/

def Row.edit (name : String) (limited : Bool) (minutes : String) (row : Row) : Row :=
  if row.user.username = name then { row with limitCheck := limited, minutesField := minutes }
  else row

@[simp] theorem Row.edit_user (name : String) (limited : Bool) (minutes : String) (row : Row) :
    (row.edit name limited minutes).user = row.user := by
  unfold Row.edit
  split <;> rfl

theorem Row.edit_of_ne {name : String} {row : Row} (h : row.user.username ≠ name)
    (limited : Bool) (minutes : String) : row.edit name limited minutes = row := if_neg h

def UiHandle.editRow (h : UiHandle) (name : String) (limited : Bool) (minutes : String) :
    UiHandle where
  configValue := h.configValue
  rows := h.rows.map (Row.edit name limited minutes)
  thresholdsField := h.thresholdsField
  distinct := by
    have hnames : (h.rows.map (Row.edit name limited minutes)).map (fun r => r.user.username) =
        h.rows.map fun r => r.user.username := by
      rw [List.map_map]
      exact List.map_congr_left fun r _ => by simp
    rw [hnames]
    exact h.distinct

def UiHandle.editThresholds (h : UiHandle) (text : String) : UiHandle :=
  { h with thresholdsField := text }

/-- An open window, with the table it was opened on and the names whose rows were
edited. -/
structure Window where
  opened : Table
  ui : UiHandle
  edited : List String

structure Panels where
  world : World
  windows : Nat → Option Window

inductive PanelStep where
  | openWindow (i : Nat) (operator : Operator) (accounts : Accounts)
  | editRow (i : Nat) (name : String) (limited : Bool) (minutes : String)
  | editThresholds (i : Nat) (text : String)
  | close (i : Nat)
  | save (i : Nat) (operator : Operator)
  | setConfig (operator : Operator) (text : String)

namespace Panels

def put (s : Panels) (i : Nat) (win : Option Window) : Panels :=
  { s with windows := Function.update s.windows i win }

theorem put_windows (s : Panels) (i : Nat) (o : Option Window) (j : Nat) :
    (s.put i o).windows j = if j = i then o else s.windows j :=
  Function.update_apply s.windows i o j

section

variable (toml : Parser) (print : Printer) (c : Controller)

/-- A `SetConfig` that is answered without an error. -/
def setConfig (s : Panels) (operator : Operator) (text : String) : Option Panels :=
  let r := c.handle toml operator (.setConfig text) s.world
  if r.1.refused then none else some { s with world := r.2 }

/-- One request with its reply, or one change of a window.  What is answered with
an error is not enabled. -/
def step (s : Panels) : PanelStep → Option Panels
  | .openWindow i operator accounts =>
    match c.handle toml operator .getConfig s.world with
    | (.config text _ _, w) => (toml text).map fun t =>
        { s with world := w }.put i (some ⟨t, Tray.openWindow (.table t) accounts, []⟩)
    | _ => none
  | .editRow i name limited minutes => (s.windows i).map fun win =>
      s.put i (some { win with ui := win.ui.editRow name limited minutes
                               edited := name :: win.edited })
  | .editThresholds i text => (s.windows i).map fun win =>
      s.put i (some { win with ui := win.ui.editThresholds text })
  | .close i => some (s.put i none)
  | .save i operator =>
    match (s.windows i).map fun win => saveFlow print win.ui with
    | some (.setConfig text) => (s.setConfig toml c operator text).map fun t => t.put i none
    | _ => none
  | .setConfig operator text => s.setConfig toml c operator text

/-- What the config file holds: its table, and the config the daemon reads of it. -/
def Document (w : World) (t : Table) (cfg : Config) : Prop :=
  ∃ text, w.fs.atPath c.configPath FileSystem.readToString = .ok text ∧ toml text = some t ∧
    Config.parseToml toml text = .ok cfg

/-- The tables agree on the keys a window does not manage, and the limits on the
users whose rows were not edited. -/
def SameUnmanaged (win : Window) (t t' : Table) (limits limits' : String → Option UserConfig) :
    Prop :=
  (∀ key, key ≠ "users" → key ≠ "warn_thresholds_minutes" → t'.get key = t.get key) ∧
    ∀ row ∈ win.ui.rows, row.user.username ∉ win.edited →
      limits' row.user.username = limits row.user.username

/-- A save leaves what it does not manage as it was in the file before it. -/
def KeepsUpdates (s : Panels) (l : PanelStep) (t : Panels) : Prop :=
  ∀ i operator win, l = .save i operator → s.windows i = some win →
    ∃ before cfg after cfg', Document toml c s.world before cfg ∧
      Document toml c t.world after cfg' ∧
        SameUnmanaged win before after cfg.users.lookup cfg'.users.lookup

/-- At a save the file has what the window does not manage as it was when the
window was opened, and the limits of the rows that were not edited as they were shown
then. -/
def SavesFresh (s : Panels) (l : PanelStep) (_ : Panels) : Prop :=
  ∀ i operator win, l = .save i operator → s.windows i = some win →
    ∀ now cfg, Document toml c s.world now cfg →
      SameUnmanaged win now win.opened cfg.users.lookup (shownLimit win.opened)

end

/-! ## The two requests -/

section

variable {toml : Parser} {c : Controller} {operator : Operator} {w : World}

theorem document_unique {t t' : Table} {cfg cfg' : Config} (h : Document toml c w t cfg)
    (h' : Document toml c w t' cfg') : t = t' ∧ cfg = cfg' := by
  obtain ⟨text, hread, ht, hcfg⟩ := h
  obtain ⟨text', hread', ht', hcfg'⟩ := h'
  rw [hread] at hread'
  cases hread'
  rw [ht] at ht'
  rw [hcfg] at hcfg'
  exact ⟨Option.some.inj ht', Except.ok.inj hcfg'⟩

theorem Document.opened {t : Table} {cfg : Config} (h : Document toml c w t cfg) :
    Opened t cfg := by
  obtain ⟨text, -, ht, hcfg⟩ := h
  obtain ⟨⟨t', ht', hdeserialized⟩, hvalid⟩ := (Config.parseToml_ok_iff toml text cfg).mp hcfg
  rw [ht] at ht'
  cases ht'
  exact ⟨hdeserialized, hvalid⟩

theorem document_of_read {text : String} {cfg : Config}
    (hread : w.fs.atPath c.configPath FileSystem.readToString = .ok text)
    (hcfg : Config.parseToml toml text = .ok cfg) :
    ∃ t, toml text = some t ∧ Document toml c w t cfg := by
  obtain ⟨⟨t, ht, -⟩, -⟩ := (Config.parseToml_ok_iff toml text cfg).mp hcfg
  exact ⟨t, ht, text, hread, ht, hcfg⟩

/-- A `GetConfig` that succeeds shows the document and changes nothing. -/
theorem getConfig_document {text : String} {paused : Bool} {path : Path} {w' : World}
    (h : c.handle toml operator .getConfig w = (.config text paused path, w')) :
    w' = w ∧ ∃ t cfg, toml text = some t ∧ Document toml c w t cfg := by
  have hallowed : operator.allowed = true := by
    by_contra hdenied
    rw [Controller.handle, if_pos (by simpa using hdenied)] at h
    cases h
  have hworld : (c.handle toml operator .getConfig w).2 = w := by
    have hanswer : Answered toml c w .getConfig (c.handle toml operator .getConfig w).1
        (c.handle toml operator .getConfig w).2 :=
      Controller.handle_answered toml c w operator fun b => by simp
    generalize c.handle toml operator .getConfig w = r at hanswer
    obtain ⟨resp, w''⟩ := r
    cases hanswer
    rfl
  have hreply : (c.handle toml operator .getConfig w).1 = .config text paused path := by rw [h]
  rw [h] at hworld
  refine ⟨hworld, ?_⟩
  cases hread : w.fs.atPath c.configPath FileSystem.readToString with
  | error e =>
    rw [Controller.handle_allowed toml c hallowed, Controller.handleAuthorized,
      Fallible.outcome_bind, Fallible.outcome_query, hread] at hreply
    cases hreply
  | ok stored =>
    rw [Controller.getConfig_reply hallowed hread] at hreply
    cases hcfg : Config.parseToml toml stored with
    | error e =>
      rw [hcfg] at hreply
      cases hreply
    | ok cfg =>
      rw [hcfg] at hreply
      obtain ⟨t, ht, hdocument⟩ := document_of_read hread hcfg
      cases hvalid : validateKillSwitchPath cfg.killSwitchPath with
      | error e =>
        simp only [hvalid] at hreply
        cases hreply
      | ok p =>
        simp only [hvalid] at hreply
        cases hreply
        exact ⟨t, cfg, ht, hdocument⟩

theorem readToString_of_node {fs : FileSystem} {path : Path} {text : String} {mode : Nat}
    (hfind : fs.find path = .ok path.resolve)
    (hnode : fs.node path.resolve = some (.file (.text text) mode)) :
    fs.atPath path FileSystem.readToString = .ok text := by
  rw [FileSystem.atPath, hfind]
  show fs.readToString path.resolve = .ok text
  rw [FileSystem.readToString, hnode]

/-- A `SetConfig` that succeeds leaves a document that is its text. -/
theorem setConfig_document {text : String}
    (h : (c.handle toml operator (.setConfig text) w).1.refused = false) :
    ∃ t cfg, toml text = some t ∧
      Document toml c (c.handle toml operator (.setConfig text) w).2 t cfg := by
  have hanswer : Answered toml c w (.setConfig text) (c.handle toml operator (.setConfig text) w).1
      (c.handle toml operator (.setConfig text) w).2 :=
    Controller.handle_answered toml c w operator fun b => by simp
  generalize c.handle toml operator (.setConfig text) w = r at hanswer h
  obtain ⟨resp, w'⟩ := r
  cases hanswer with
  | kept _ _ hstate hset =>
    have hrefused := hset text rfl
    simp only [hrefused] at h
    cases h
  | configFailed => cases h
  | configSet _ cfg fs _ hparse hwritten hresp =>
    obtain ⟨hnode, hfind⟩ := hwritten.ok rfl
    have hread : (World.kicked c { w with fs := fs }).fs.atPath c.configPath
        FileSystem.readToString = .ok text := by
      rw [World.kicked_fs]
      exact readToString_of_node hfind hnode
    obtain ⟨t, ht, hdocument⟩ := document_of_read hread hparse
    exact ⟨t, cfg, ht, hdocument⟩

end

end Panels

/-! ## The rows that were not edited -/

theorem lastChecked_row {h : UiHandle} {row : Row} (hrow : row ∈ h.rows) :
    lastChecked (captureSnapshot h).rows row.user.username =
      if row.limitCheck then some (captureRow row) else none := by
  cases hlast : lastChecked (captureSnapshot h).rows row.user.username with
  | none =>
    by_cases hlimit : row.limitCheck = true
    · have hmem : captureRow row ∈ (captureSnapshot h).rows.filter fun r =>
          r.limited && r.username == row.user.username := by
        refine List.mem_filter.mpr ⟨List.mem_map_of_mem hrow, ?_⟩
        simp [captureRow, hlimit]
      have hnil := List.getLast?_eq_none_iff.mp hlast
      rw [hnil] at hmem
      cases hmem
    · rw [if_neg hlimit]
  | some last =>
    obtain ⟨hmem, hlimited, hname⟩ := checked_of_lastChecked hlast
    obtain ⟨other, hother, rfl⟩ := List.mem_map.mp hmem
    -- the rows of a window are of different accounts
    have hsame : other = row := List.inj_on_of_nodup_map h.distinct hother hrow hname
    rw [hsame] at hlimited ⊢
    exact (if_pos hlimited).symm

theorem captureRow_toString (u : LocalUser) (limited : Bool) (n : UInt32) :
    (captureRow ⟨u, limited, toString n.toNat⟩).minutes = n := by
  rw [captureRow, parseU32_trim_toString]
  rfl

/-- A row that is as it was built says what it showed then. -/
theorem lookup_unedited {t : Table} {h : UiHandle} {row : Row} (hrow : row ∈ h.rows)
    (hbuilt : row = buildRow row.user
      (initialUserSetting (configuredEntry t row.user.username))) :
    (lastChecked (captureSnapshot h).rows row.user.username).map
        (fun r => (⟨r.minutes⟩ : UserConfig)) = shownLimit t row.user.username := by
  rw [lastChecked_row hrow]
  rw [buildRow_shown] at hbuilt
  cases hshown : shownLimit t row.user.username with
  | none =>
    rw [hshown] at hbuilt
    rw [hbuilt]
    rfl
  | some limit =>
    rw [hshown] at hbuilt
    rw [hbuilt]
    show some (UserConfig.mk (captureRow _).minutes) = some limit
    rw [captureRow_toString]

/-! ## What holds of open windows -/

/-- The rows that were not edited are as they were built. -/
structure Window.Intact (win : Window) : Prop where
  opened : ∃ cfg, Opened win.opened cfg
  value : win.ui.configValue = .table win.opened
  unedited : ∀ row ∈ win.ui.rows, row.user.username ∉ win.edited →
    row = buildRow row.user (initialUserSetting (configuredEntry win.opened row.user.username))

theorem Window.intact_openWindow {t : Table} {cfg : Config} (h : Opened t cfg)
    (accounts : Accounts) : Window.Intact ⟨t, openWindow (.table t) accounts, []⟩ where
  opened := ⟨cfg, h⟩
  value := rfl
  unedited := by
    intro row hrow _
    have hrows : row ∈ (openWindow (.table t) accounts).rows := hrow
    rw [rows_openWindow] at hrows
    obtain ⟨u, -, rfl⟩ := List.mem_map.mp hrows
    rfl

theorem Window.Intact.editRow {win : Window} (h : win.Intact) (name : String) (limited : Bool)
    (minutes : String) :
    Window.Intact { win with ui := win.ui.editRow name limited minutes
                             edited := name :: win.edited } where
  opened := h.opened
  value := h.value
  unedited := by
    intro row hrow hname
    obtain ⟨old, hold, rfl⟩ := List.mem_map.mp hrow
    rw [Row.edit_user, List.mem_cons, not_or] at hname
    rw [Row.edit_of_ne hname.1]
    exact h.unedited old hold hname.2

namespace Panels

/-- Whenever a window is open, the config file holds a document. -/
structure Inv (toml : Parser) (c : Controller) (s : Panels) : Prop where
  intact : ∀ i win, s.windows i = some win → win.Intact
  document : ∀ i win, s.windows i = some win → ∃ t cfg, Document toml c s.world t cfg

namespace Inv

variable {toml : Parser} {print : Printer} {c : Controller} {s t : Panels}

theorem put (h : Inv toml c s) (i : Nat) {o : Option Window}
    (ho : ∀ win, o = some win → win.Intact ∧ ∃ t cfg, Document toml c s.world t cfg) :
    Inv toml c (s.put i o) := by
  have hwindow : ∀ j win, (s.put i o).windows j = some win →
      o = some win ∨ s.windows j = some win := by
    intro j win hj
    rw [put_windows] at hj
    split at hj
    · exact Or.inl hj
    · exact Or.inr hj
  refine ⟨fun j win hj => ?_, fun j win hj => ?_⟩
  · rcases hwindow j win hj with hnew | hold
    · exact (ho win hnew).1
    · exact h.intact j win hold
  · rcases hwindow j win hj with hnew | hold
    · exact (ho win hnew).2
    · exact h.document j win hold

theorem close (h : Inv toml c s) (i : Nat) : Inv toml c (s.put i none) :=
  h.put i fun win hwin => by cases hwin

theorem change (h : Inv toml c s) {i : Nat} {win win' : Window} (hi : s.windows i = some win)
    (hwin : win'.Intact) : Inv toml c (s.put i (some win')) := by
  refine h.put i fun other hother => ?_
  cases hother
  exact ⟨hwin, h.document i win hi⟩

theorem setConfig {operator : Operator} {text : String} (h : Inv toml c s)
    (hset : s.setConfig toml c operator text = some t) :
    Inv toml c t ∧ t.windows = s.windows ∧
      ∃ doc cfg, toml text = some doc ∧ Document toml c t.world doc cfg := by
  unfold Panels.setConfig at hset
  dsimp only at hset
  split at hset
  · cases hset
  · rename_i haccepted
    cases hset
    obtain ⟨doc, cfg, hdoc, hdocument⟩ := setConfig_document (by simpa using haccepted)
    exact ⟨⟨h.intact, fun _ _ _ => ⟨doc, cfg, hdocument⟩⟩, rfl, doc, cfg, hdoc, hdocument⟩

theorem openWindow (h : Inv toml c s) {i : Nat} {operator : Operator} {accounts : Accounts}
    (hstep : s.step toml print c (.openWindow i operator accounts) = some t) :
    Inv toml c t := by
  unfold step at hstep
  dsimp only at hstep
  split at hstep
  · rename_i text paused path w hreply
    obtain ⟨doc, hdoc, rfl⟩ := Option.map_eq_some_iff.mp hstep
    obtain ⟨rfl, doc', cfg, hdoc', hdocument⟩ := getConfig_document hreply
    rw [hdoc] at hdoc'
    cases hdoc'
    refine Inv.put h i fun win hwin => ?_
    cases hwin
    exact ⟨Window.intact_openWindow hdocument.opened accounts, doc, cfg, hdocument⟩
  · cases hstep

end Inv

section

variable {toml : Parser} {print : Printer} {c : Controller} {s t : Panels}

theorem save_eq_some {i : Nat} {operator : Operator}
    (h : s.step toml print c (.save i operator) = some t) :
    ∃ win text t₀, s.windows i = some win ∧ saveFlow print win.ui = .setConfig text ∧
      s.setConfig toml c operator text = some t₀ ∧ t = t₀.put i none := by
  unfold step at h
  dsimp only at h
  split at h
  · rename_i text hflow
    obtain ⟨win, hwin, hsend⟩ := Option.map_eq_some_iff.mp hflow
    obtain ⟨t₀, hset, rfl⟩ := Option.map_eq_some_iff.mp h
    exact ⟨win, text, t₀, hwin, hsend, hset, rfl⟩
  · cases h

theorem inv_step (h : Inv toml c s) {l : PanelStep} (hstep : s.step toml print c l = some t) :
    Inv toml c t := by
  cases l with
  | openWindow i operator accounts => exact h.openWindow hstep
  | editRow i name limited minutes =>
    obtain ⟨win, hwin, rfl⟩ := Option.map_eq_some_iff.mp hstep
    exact h.change hwin ((h.intact i win hwin).editRow name limited minutes)
  | editThresholds i text =>
    obtain ⟨win, hwin, rfl⟩ := Option.map_eq_some_iff.mp hstep
    have hintact := h.intact i win hwin
    exact h.change hwin ⟨hintact.opened, hintact.value, hintact.unedited⟩
  | close i =>
    cases hstep
    exact h.close i
  | save i operator =>
    obtain ⟨win, text, t₀, -, -, hset, rfl⟩ := save_eq_some hstep
    exact (h.setConfig hset).1.close i
  | setConfig operator text => exact (h.setConfig hstep).1

theorem saveFlow_eq_setConfig {h : UiHandle} {doc : Table} {text : String}
    (hvalue : h.configValue = .table doc) (hflow : saveFlow print h = .setConfig text) :
    print (newTable doc (captureSnapshot h)) = .ok text := by
  have hsnap : (captureSnapshot h).configValue.asTable = some doc := by
    rw [captureSnapshot, hvalue]
    rfl
  rw [saveFlow, buildNewConfigToml] at hflow
  cases hcheck : checkRows (captureSnapshot h).rows with
  | error message =>
    rw [hcheck] at hflow
    cases hflow
  | ok u =>
    rw [hcheck] at hflow
    simp only [hsnap] at hflow
    cases hprint : print (newTable doc (captureSnapshot h)) with
    | error message =>
      rw [hprint] at hflow
      cases hflow
    | ok printed =>
      rw [hprint] at hflow
      cases hflow
      rfl

/-- What a save leaves agrees with what its window was opened on and shows. -/
theorem sameUnmanaged_saved {win : Window} {cfg' : Config} {text : String} {after : Table}
    {w : World} (hcrate : ∀ doc text, print doc = .ok text → toml text = some doc)
    (hwin : win.Intact) (hflow : saveFlow print win.ui = .setConfig text)
    (hafter : toml text = some after) (hdocument : Document toml c w after cfg') :
    SameUnmanaged win win.opened after (shownLimit win.opened) cfg'.users.lookup := by
  have hprint := saveFlow_eq_setConfig hwin.value hflow
  rw [hcrate _ _ hprint] at hafter
  cases hafter
  obtain ⟨old, hopened⟩ := hwin.opened
  obtain ⟨users, hnew, hlookup⟩ :=
    deserialize_newTable (captureSnapshot win.ui) hopened.deserialized
  have hcfg := hdocument.opened.deserialized
  rw [hnew] at hcfg
  cases hcfg
  refine ⟨fun key => get_newTable_other win.opened _, fun row hrow hname => ?_⟩
  exact (hlookup row.user.username).trans
    (lookup_unedited hrow (hwin.unedited row hrow hname))

theorem sameUnmanaged_iff {win : Window} {b t t' : Table}
    {lb l l' : String → Option UserConfig} (h : SameUnmanaged win t t' l l') :
    SameUnmanaged win b t' lb l' ↔ SameUnmanaged win b t lb l := by
  constructor
  · intro hafter
    refine ⟨fun key husers hwarn => ?_, fun row hrow hname => ?_⟩
    · exact (h.1 key husers hwarn).symm.trans (hafter.1 key husers hwarn)
    · exact (h.2 row hrow hname).symm.trans (hafter.2 row hrow hname)
  · intro hbefore
    refine ⟨fun key husers hwarn => ?_, fun row hrow hname => ?_⟩
    · exact (h.1 key husers hwarn).trans (hbefore.1 key husers hwarn)
    · exact (h.2 row hrow hname).trans (hbefore.2 row hrow hname)

theorem savesFresh_iff (hcrate : ∀ doc text, print doc = .ok text → toml text = some doc)
    (h : Inv toml c s) {l : PanelStep} (hstep : s.step toml print c l = some t) :
    SavesFresh toml c s l t ↔ KeepsUpdates toml c s l t := by
  refine forall_congr' fun i => forall_congr' fun operator => forall_congr' fun win =>
    forall_congr' fun hl => forall_congr' fun hi => ?_
  subst hl
  obtain ⟨win', text, t₀, hi', hflow, hset, rfl⟩ := save_eq_some hstep
  rw [hi] at hi'
  cases hi'
  obtain ⟨-, -, after, cfg', hafter, hdocument⟩ := h.setConfig hset
  obtain ⟨before, cfg, hbefore⟩ := h.document i win hi
  have hsaved := sameUnmanaged_saved hcrate (h.intact i win hi) hflow hafter hdocument
  constructor
  · intro hfresh
    refine ⟨before, cfg, after, cfg', hbefore, hdocument, ?_⟩
    exact (sameUnmanaged_iff hsaved).mpr (hfresh before cfg hbefore)
  · intro hkeeps now cfgNow hnow
    obtain ⟨before', cfgBefore, after', cfgAfter, hbefore', hafter', hsame⟩ := hkeeps
    obtain ⟨rfl, rfl⟩ := document_unique hnow hbefore'
    obtain ⟨rfl, rfl⟩ := document_unique hdocument hafter'
    exact (sameUnmanaged_iff hsaved).mp hsame

def start (w : World) : Panels := ⟨w, fun _ => none⟩

theorem inv_start (w : World) : Inv toml c (start w) where
  intact := fun _ _ h => by cases h
  document := fun _ _ h => by cases h

/-- In a run, no save undoes an update exactly when every save is made while the
file has what its window was opened on and shows. -/
theorem keepsUpdates_iff_fresh (hcrate : ∀ doc text, print doc = .ok text → toml text = some doc)
    (w : World) (ls : List PanelStep) :
    Transition.Along (step toml print c) (KeepsUpdates toml c) (start w) ls ↔
      Transition.Along (step toml print c) (SavesFresh toml c) (start w) ls := by
  symm
  refine Transition.along_iff (I := Inv toml c) ?_ ?_ ls (inv_start w)
  · exact fun s l t hstep h => savesFresh_iff hcrate h hstep
  · exact fun s l t hstep h _ => inv_step h hstep

end

/-! ## A mode that a save sets back -/

def modeText (mode : String) : String := "enforcement = \"" ++ mode ++ "\"\n"

def modeSaved : String :=
  modeText "log" ++ "warn_thresholds_minutes = [\n    15,\n    5,\n    1,\n]\n\n[users]\n"

/-- The printer on the one document that is saved. -/
def modePrinter : Printer
  | [("enforcement", .string "log"), ("users", .table []),
      ("warn_thresholds_minutes", .array [.integer 15, .integer 5, .integer 1])] => .ok modeSaved
  | _ => .error "not printed here"

def modeParser : Parser := fun text =>
  if text = modeText "log" then some [("enforcement", .string "log")]
  else if text = modeText "logout" then some [("enforcement", .string "logout")]
  else if text = modeSaved then
    some [("enforcement", .string "log"), ("users", .table []),
      ("warn_thresholds_minutes", .array fifteen)]
  else none

theorem modePrinter_reads_back (doc : Table) (text : String) (h : modePrinter doc = .ok text) :
    modeParser text = some doc := by
  unfold modePrinter at h
  split at h
  · cases h
    rfl
  · cases h

/-- A window is opened, an operator has the daemon log users out from now on, and
the window is saved. -/
def modeRun : List PanelStep :=
  [.setConfig allowedOperator (modeText "log"),
    .openWindow 0 allowedOperator (accountsOf "alice"),
    .setConfig allowedOperator (modeText "logout")]

theorem keepsUpdates_iff_fresh_mode :
    Transition.Along (step modeParser modePrinter systemController)
        (KeepsUpdates modeParser systemController) (start ⟨FileSystem.empty, false⟩) modeRun ↔
      Transition.Along (step modeParser modePrinter systemController)
        (SavesFresh modeParser systemController) (start ⟨FileSystem.empty, false⟩) modeRun :=
  keepsUpdates_iff_fresh modePrinter_reads_back _ _

def modeRead (s : Panels) : Option String :=
  (s.world.fs.atPath systemConfigPath FileSystem.readToString).toOption

theorem modeRun_save :
    (Transition.exec (step modeParser modePrinter systemController)
        (start ⟨FileSystem.empty, false⟩) modeRun).bind
      (fun s => (s.step modeParser modePrinter systemController (.save 0 allowedOperator)).map
        fun t => (modeRead s, modeRead t, (s.windows 0).isSome)) =
      some (some (modeText "logout"), some modeSaved, true) := by
  decide +kernel

theorem table_of_modeRead {s : Panels} {text : String} {t : Table} {cfg : Config}
    (h : modeRead s = some text) (hdocument : Document modeParser systemController s.world t cfg) :
    modeParser text = some t := by
  obtain ⟨text', hread, ht, -⟩ := hdocument
  have hread' : s.world.fs.atPath systemConfigPath FileSystem.readToString = .ok text' := hread
  rw [modeRead, hread'] at h
  cases h
  exact ht

/-- The save puts the mode back that the file had when the window was opened. -/
theorem keepsUpdates_fails :
    ¬ Transition.Along (step modeParser modePrinter systemController)
      (KeepsUpdates modeParser systemController) (start ⟨FileSystem.empty, false⟩)
      (modeRun ++ .save 0 allowedOperator :: []) := by
  intro h
  obtain ⟨s, hs, hsave⟩ := Option.bind_eq_some_iff.mp modeRun_save
  obtain ⟨t, ht, hreads⟩ := Option.map_eq_some_iff.mp hsave
  obtain ⟨hbefore, hrest⟩ := Prod.mk.inj hreads
  obtain ⟨hafter, hopen⟩ := Prod.mk.inj hrest
  obtain ⟨win, hwin⟩ := Option.isSome_iff_exists.mp hopen
  obtain ⟨before, cfg, after, cfg', hdoc, hdoc', hsame⟩ :=
    Transition.along_at h hs ht 0 allowedOperator win rfl hwin
  have hmode := hsame.1 "enforcement" (by decide) (by decide)
  cases table_of_modeRead hbefore hdoc
  cases table_of_modeRead hafter hdoc'
  have hnames : some "log" = some "logout" := congrArg (fun o => o.bind Value.asString) hmode
  exact absurd hnames (by decide)

end Panels

end Tray
end Konstantin
