import Konstantin.Daemon.Machine

/-!
# What survives a crash

Both tasks of a process save through the same temporary.  When a save opens it
while the other task is between opening and renaming, or with an older clone than
one that has been saved, a crash can find the file torn or older.  Otherwise the
file always holds the latest of the clones whose save has returned well.
-/

namespace Konstantin
namespace Daemon

open Fs

namespace Machine

def tempLoc (m : Machine) : Loc := m.statePath.pushTmp.resolve

def stateLoc (m : Machine) : Loc := m.statePath.resolve

/-- Once a save has returned well, a load gives one of the clones of the process,
and none older than the saved one. -/
def Durable (m : Machine) : Prop :=
  ∀ n, m.saved = some n → ∃ k s, n ≤ k ∧ m.process.clones[k]? = some s ∧
    State.load m.statePath m.disk = s.persisted

def StaysDurable (_ : Machine) (_ : MachineStep) (m' : Machine) : Prop := m'.Durable

/-- A save begins to write only while the other task does not, and only with a
clone that is not older than a saved one. -/
def SavesInTurn (m : Machine) (l : MachineStep) (_ : Machine) : Prop :=
  ∀ w, l = .call w .open →
    (m.writer w.other).usesTemp = false ∧
      ∀ n snap, m.saved = some n → m.writer w = .holding snap → n ≤ snap.order

def Known (m : Machine) (snap : Snapshot) : Prop :=
  m.process.clones[snap.order]? = some snap.state

def HasTemp (disk : Disk) (temp : Loc) : Writer Snapshot → Prop
  | .opened _ i => disk.inode temp = some i ∧ disk.data i = .torn 0
  | .written snap => disk.read temp = some (.whole snap)
  | _ => True

structure Tidy (m : Machine) : Prop where
  known : ∀ w snap, (m.writer w).value = some snap → Known m snap
  temp : ∀ w, HasTemp m.disk m.tempLoc (m.writer w)
  alone : ∀ w, (m.writer w).usesTemp = true → (m.writer w.other).usesTemp = false
  recent : ∀ w snap n, (m.writer w).usesTemp = true → (m.writer w).value = some snap →
    m.saved = some n → n ≤ snap.order
  target : ∀ n, m.saved = some n → ∃ snap, m.disk.read m.stateLoc = some (.whole snap) ∧
    n ≤ snap.order ∧ Known m snap

theorem tempLoc_ne (m : Machine) : m.tempLoc ≠ m.stateLoc := Path.resolve_pushTmp_ne m.statePath

theorem locs_of_cfg {m m' : Machine} (h : m'.process.cfg = m.process.cfg) :
    m'.tempLoc = m.tempLoc ∧ m'.stateLoc = m.stateLoc := by
  have hpath : m'.statePath = m.statePath := congrArg Config.statePath h
  constructor
  · rw [tempLoc, hpath, tempLoc]
  · rw [stateLoc, hpath, stateLoc]

theorem known_mono {m m' : Machine} (h : m.process.clones <+: m'.process.clones) {snap : Snapshot}
    (hk : Known m snap) : Known m' snap := by
  obtain ⟨more, hmore⟩ := h
  have hlt : snap.order < m.process.clones.length := (List.getElem?_eq_some_iff.mp hk).1
  rw [Known, ← hmore, List.getElem?_append_left hlt]
  exact hk

theorem hasTemp_of_not {disk : Disk} {temp : Loc} {w : Writer Snapshot} (h : w.usesTemp = false) :
    HasTemp disk temp w := by
  cases w with
  | idle => trivial
  | holding => trivial
  | opened => cases h
  | written => cases h

theorem tidy_boot (cfg : Config) (disk : Disk) (today : NaiveDate) (initial : UserSet) :
    Tidy (boot cfg disk today initial) where
  known := fun w snap h => by cases h
  temp := fun w => trivial
  alone := fun w h => by cases h
  recent := fun w snap n h => by cases h
  target := fun n h => by cases h

theorem Tidy.durable {m : Machine} (h : Tidy m) : m.Durable := by
  intro n hn
  obtain ⟨snap, hread, hle, hk⟩ := h.target n hn
  refine ⟨snap.order, snap.state, hle, hk, ?_⟩
  have hload : m.disk.read m.statePath.resolve = some (.whole snap) := hread
  rw [State.load, hload]

variable {m m' : Machine}

/-- A disk on which the state file is the same still has what was saved. -/
theorem Tidy.target_of_read (h : Tidy m) {disk : Disk}
    (hsame : disk.read m.stateLoc = m.disk.read m.stateLoc) :
    ∀ n, m.saved = some n → ∃ snap, disk.read m.stateLoc = some (.whole snap) ∧
      n ≤ snap.order ∧ Known m snap := by
  rw [hsame]
  exact h.target

/-- The frame of a call: one writer goes on, and the other sees the same disk and
the same saves unless it does not use the temporary. -/
theorem Tidy.update (h : Tidy m) {w : Task} {writer : Writer Snapshot}
    (hprocess : m.process.clones <+: m'.process.clones ∧ m'.process.cfg = m.process.cfg)
    (hwriter : m'.writer = Function.update m.writer w writer)
    (hvalue : ∀ snap, writer.value = some snap → (m.writer w).value = some snap)
    (htemp : HasTemp m'.disk m.tempLoc writer)
    (halone : writer.usesTemp = true → (m.writer w.other).usesTemp = false)
    (hrecent : ∀ snap n, writer.usesTemp = true → writer.value = some snap → m'.saved = some n →
      n ≤ snap.order)
    (hother : (m'.disk = m.disk ∧ m'.saved = m.saved) ∨ (m.writer w.other).usesTemp = false)
    (htarget : ∀ n, m'.saved = some n → ∃ snap, m'.disk.read m.stateLoc = some (.whole snap) ∧
      n ≤ snap.order ∧ Known m snap) : Tidy m' := by
  obtain ⟨htempLoc, hstateLoc⟩ := locs_of_cfg hprocess.2
  have hself : m'.writer w = writer := by rw [hwriter, Function.update_self]
  have hne : m'.writer w.other = m.writer w.other := by
    rw [hwriter, Function.update_of_ne w.other_ne]
  constructor
  · intro u snap hu
    refine known_mono hprocess.1 ?_
    rcases w.eq_or_eq_other u with rfl | rfl
    · rw [hself] at hu
      exact h.known u snap (hvalue snap hu)
    · rw [hne] at hu
      exact h.known w.other snap hu
  · intro u
    rw [htempLoc]
    rcases w.eq_or_eq_other u with rfl | rfl
    · rw [hself]
      exact htemp
    · rw [hne]
      rcases hother with ⟨hdisk, -⟩ | hidle
      · rw [hdisk]
        exact h.temp w.other
      · exact hasTemp_of_not hidle
  · intro u hu
    rcases w.eq_or_eq_other u with rfl | rfl
    · rw [hself] at hu
      rw [hne]
      exact halone hu
    · rw [hne] at hu
      rw [w.other_other, hself]
      cases hw : writer.usesTemp with
      | false => rfl
      | true =>
        rw [halone hw] at hu
        cases hu
  · intro u snap n hu hsnap hn
    rcases w.eq_or_eq_other u with rfl | rfl
    · rw [hself] at hu hsnap
      exact hrecent snap n hu hsnap hn
    · rw [hne] at hu hsnap
      rcases hother with ⟨-, hsaved⟩ | hidle
      · exact h.recent w.other snap n hu hsnap (hsaved ▸ hn)
      · rw [hidle] at hu
        cases hu
  · intro n hn
    obtain ⟨snap, hread, hle, hk⟩ := htarget n hn
    exact ⟨snap, hstateLoc ▸ hread, hle, known_mono hprocess.1 hk⟩

theorem run_writer {t : TaskStep} {p : Process} (hstep : m.process.step t = some p) (w : Task) :
    (m.run t p).writer w = m.writer w ∨
      ∃ snap, (m.run t p).writer w = .holding snap ∧ Known (m.run t p) snap := by
  by_cases ht : t = w.lockStep
  · obtain ⟨hhold, hclones⟩ := run_writer_lock hstep ht
    refine Or.inr ⟨_, hhold, ?_⟩
    show p.clones[m.process.clones.length]? = some p.state
    rw [hclones, List.getElem?_append_right (Nat.le_refl _), Nat.sub_self]
    rfl
  · exact Or.inl (run_writer_ne ht)

theorem Tidy.task (h : Tidy m) {t : TaskStep} {p : Process} (hstep : m.process.step t = some p) :
    Tidy (m.run t p) := by
  have hprefix : m.process.clones <+: (m.run t p).process.clones := Process.clones_prefix hstep
  have hcfg : (m.run t p).process.cfg = m.process.cfg := Process.cfg_step hstep
  obtain ⟨htempLoc, hstateLoc⟩ := locs_of_cfg hcfg
  have huse : ∀ w, ((m.run t p).writer w).usesTemp = true →
      (m.run t p).writer w = m.writer w := by
    intro w hw
    rcases run_writer hstep w with hsame | ⟨snap, hhold, -⟩
    · exact hsame
    · rw [hhold] at hw
      cases hw
  constructor
  · intro w snap hw
    rcases run_writer hstep w with hsame | ⟨new, hhold, hk⟩
    · rw [hsame] at hw
      exact known_mono hprefix (h.known w snap hw)
    · rw [hhold] at hw
      cases hw
      exact hk
  · intro w
    rw [htempLoc]
    rcases run_writer hstep w with hsame | ⟨snap, hhold, -⟩
    · rw [hsame]
      exact h.temp w
    · rw [hhold]
      trivial
  · intro w hw
    have hsame := huse w hw
    rw [hsame] at hw
    cases hother : ((m.run t p).writer w.other).usesTemp with
    | false => rfl
    | true =>
      rw [huse w.other hother, h.alone w hw] at hother
      cases hother
  · intro w snap n hw hsnap hn
    have hsame := huse w hw
    rw [hsame] at hw hsnap
    exact h.recent w snap n hw hsnap hn
  · intro n hn
    obtain ⟨snap, hread, hle, hk⟩ := h.target n hn
    exact ⟨snap, hstateLoc ▸ hread, hle, known_mono hprefix hk⟩

theorem Tidy.open (h : Tidy m) {w : Task} {snap : Snapshot} (hw : m.writer w = .holding snap)
    (hidle : (m.writer w.other).usesTemp = false)
    (hnew : ∀ n, m.saved = some n → n ≤ snap.order) :
    Tidy { m with
      disk := (m.disk.openFile m.tempLoc).2
      writer := Function.update m.writer w (.opened snap (m.disk.openFile m.tempLoc).1) } := by
  refine h.update ⟨List.prefix_rfl, rfl⟩ rfl ?_ ⟨?_, ?_⟩ (fun _ => hidle) ?_ (Or.inr hidle) ?_
  · intro a ha
    rw [hw]
    exact ha
  · exact Volume.openFile_inode_self m.disk m.tempLoc
  · rw [Volume.openFile_data, if_pos rfl]
  · intro a n _ ha hn
    cases ha
    exact hnew n hn
  · exact h.target_of_read (Volume.read_openFile_ne m.disk m.tempLoc_ne.symm)

theorem Tidy.write (h : Tidy m) {size : Snapshot → Nat} {w : Task} {snap : Snapshot} {i : Nat}
    (hw : m.writer w = .opened snap i) :
    Tidy { m with
      disk := m.disk.setData i ((m.disk.data i).overwrite size snap)
      writer := Function.update m.writer w (.written snap) } := by
  have huse : (m.writer w).usesTemp = true := by rw [hw]; rfl
  have hidle := h.alone w huse
  have htemp := h.temp w
  rw [hw] at htemp
  obtain ⟨hinode, hempty⟩ := htemp
  have hvalue : (m.writer w).value = some snap := by rw [hw]; rfl
  refine h.update ⟨List.prefix_rfl, rfl⟩ rfl ?_ ?_ (fun _ => hidle) ?_ (Or.inr hidle) ?_
  · intro a ha
    rw [hvalue]
    exact ha
  · have hdata : (m.disk.setData i ((m.disk.data i).overwrite size snap)).data i = .whole snap := by
      rw [hempty, Bytes.overwrite_empty]
      exact if_pos rfl
    show (m.disk.inode m.tempLoc).map _ = _
    rw [hinode]
    exact congrArg some hdata
  · intro a n _ ha hn
    cases ha
    exact h.recent w snap n huse hvalue hn
  · exact h.target_of_read (Volume.read_setData_ne hinode m.tempLoc_ne.symm _)

theorem Tidy.rename (h : Tidy m) {w : Task} {snap : Snapshot} {disk : Disk}
    (hw : m.writer w = .written snap)
    (hren : m.disk.rename m.tempLoc m.stateLoc = some disk)
    (hfin : m.finish w disk (some (max (m.saved.getD 0) snap.order)) = some m') : Tidy m' := by
  have huse : (m.writer w).usesTemp = true := by rw [hw]; rfl
  have hidle := h.alone w huse
  have hvalue : (m.writer w).value = some snap := by rw [hw]; rfl
  have htemp := h.temp w
  rw [hw] at htemp
  obtain ⟨hclones, hcfg, hwriter, hdisk, hsaved⟩ := finish_eq_some hfin
  refine h.update ⟨hclones ▸ List.prefix_rfl, hcfg⟩ hwriter (fun a ha => by cases ha) trivial
    (fun hu => by cases hu) (fun a n hu => by cases hu) (Or.inr hidle) ?_
  intro n hn
  refine ⟨snap, ?_, ?_, h.known w snap hvalue⟩
  · obtain ⟨hdata, i, hi, hinode⟩ := Volume.rename_eq_some hren
    have hsnap : m.disk.data i = .whole snap := by
      have hmap : (m.disk.inode m.tempLoc).map m.disk.data = some (.whole snap) := htemp
      rw [hi] at hmap
      exact Option.some.inj hmap
    rw [hdisk, Volume.read, hinode, if_pos rfl, Option.map_some, hdata, hsnap]
  · rw [hsaved] at hn
    have hmax : max (m.saved.getD 0) snap.order = n := Option.some.inj hn
    have hold : m.saved.getD 0 ≤ snap.order := by
      cases hs : m.saved with
      | none => exact Nat.zero_le _
      | some k => exact h.recent w snap k huse hvalue hs
    omega

/-- A save fails; a write that stopped short is left in the temporary. -/
theorem Tidy.fail (h : Tidy m) {w : Task} {disk : Disk}
    (hdisk : disk = m.disk ∨ ∃ snap i left, m.writer w = .opened snap i ∧
      disk = m.disk.setData i (.torn left))
    (hfin : m.finish w disk m.saved = some m') : Tidy m' := by
  obtain ⟨hclones, hcfg, hwriter, hd, hsaved⟩ := finish_eq_some hfin
  have hframe : (m'.disk = m.disk ∧ m'.saved = m.saved) ∨ (m.writer w.other).usesTemp = false := by
    rcases hdisk with hsame | ⟨snap, i, left, hw, -⟩
    · exact Or.inl ⟨hd.trans hsame, hsaved⟩
    · exact Or.inr (h.alone w (by rw [hw]; rfl))
  refine h.update ⟨hclones ▸ List.prefix_rfl, hcfg⟩ hwriter (fun a ha => by cases ha) trivial
    (fun hu => by cases hu) (fun a n hu => by cases hu) hframe ?_
  rw [hsaved, hd]
  refine h.target_of_read ?_
  rcases hdisk with rfl | ⟨snap, i, left, hw, rfl⟩
  · rfl
  · have htemp := h.temp w
    rw [hw] at htemp
    exact Volume.read_setData_ne htemp.1 m.tempLoc_ne.symm _

theorem Tidy.step {size : Snapshot → Nat} (h : Tidy m) {l : MachineStep}
    (hstep : m.step size l = some m') (hg : SavesInTurn m l m') : Tidy m' := by
  rcases step_cases hstep with ⟨t, p, -, hp, rfl⟩ | ⟨w, c, disk, progress, rfl, hcall, hres⟩
  · exact h.task hp
  · rcases Writer.call_cases hcall with ⟨rfl, rfl⟩ | ⟨snap, hw, rfl, rfl, rfl⟩ |
      ⟨snap, i, hw, rfl, rfl⟩ | ⟨snap, i, left, hw, rfl, rfl⟩ | ⟨snap, hw, hren, rfl⟩ <;>
      rcases hres with ⟨writer, hgoing, rfl⟩ | ⟨a, hsaved, hfin⟩ | ⟨hfailed, hfin⟩
    all_goals first | cases hgoing | cases hsaved | cases hfailed
    · exact h.fail (Or.inl rfl) hfin
    · obtain ⟨hidle, hnew⟩ := hg w rfl
      exact h.open hw hidle fun n hn => hnew n snap hn hw
    · exact h.write hw
    · exact h.fail (Or.inr ⟨snap, i, left, hw, rfl⟩) hfin
    · exact h.rename hw hren hfin

/-- A run whose saves take turns is durable after every step. -/
theorem staysDurable_of_savesInTurn (size : Snapshot → Nat) (cfg : Config) (disk : Disk)
    (today : NaiveDate) (initial : UserSet) (ls : List MachineStep)
    (h : Transition.Along (step size) SavesInTurn (boot cfg disk today initial) ls) :
    Transition.Along (step size) StaysDurable (boot cfg disk today initial) ls := by
  refine Transition.along_of_guarded (I := Tidy) ?_ ls (tidy_boot cfg disk today initial) h
  intro m l m' hstep htidy hg
  have htidy' := htidy.step hstep hg
  exact ⟨htidy', htidy'.durable⟩

/-- The ticker saves, and the midnight task after it. -/
theorem staysDurable_two_saves :
    let ls : List MachineStep :=
      [.task (.tickerRead {"alice"} 1), .task .tickerLock, .call .ticker .open,
        .call .ticker .write, .call .ticker .rename, .task (.resetterRead 2),
        .task .resetterLock, .call .resetter .open, .call .resetter .write,
        .call .resetter .rename]
    Transition.Along (step fun _ => 64) SavesInTurn (boot .defaults Volume.empty 1 ∅) ls ∧
      Transition.Along (step fun _ => 64) StaysDurable (boot .defaults Volume.empty 1 ∅) ls := by
  intro ls
  have hturns : Transition.Along (step fun _ => 64) SavesInTurn
      (boot .defaults Volume.empty 1 ∅) ls := by
    have hother : ∀ {m m' : Machine} {l : MachineStep}, (∀ w, l ≠ .call w .open) →
        SavesInTurn m l m' := fun hl w h => absurd h (hl w)
    refine ⟨hother (by simp), hother (by simp), ?_, hother (by simp), hother (by simp),
      hother (by simp), hother (by simp), ?_, hother (by simp), hother (by simp), trivial⟩
    · intro w hw
      cases hw
      exact ⟨rfl, fun n snap hn => by cases hn⟩
    · intro w hw
      cases hw
      refine ⟨rfl, fun n snap hn _ => ?_⟩
      cases hn
      exact Nat.zero_le _
  exact ⟨hturns, staysDurable_of_savesInTurn _ _ _ _ _ ls hturns⟩

/-- The midnight task truncates the temporary that the ticker has written and is
about to rename: the save of the ticker returns well and the file is empty. -/
theorem staysDurable_fails :
    ¬ ∀ (size : Snapshot → Nat) (cfg : Config) (disk : Disk) (today : NaiveDate)
        (initial : UserSet) (ls : List MachineStep),
      Transition.Along (step size) StaysDurable (boot cfg disk today initial) ls := by
  intro h
  have hrun := h (fun _ => 64) .defaults Volume.empty 1 ∅
    ([.task (.tickerRead {"alice"} 1), .task .tickerLock, .call .ticker .open,
      .call .ticker .write, .task (.resetterRead 1), .task .resetterLock,
      .call .resetter .open] ++ .call .ticker .rename :: [])
  have hlast := Transition.along_at hrun rfl rfl
  obtain ⟨k, s, -, hs, hload⟩ := hlast 0 rfl
  have hday : (none : Option NaiveDate) = s.day := congrArg State.day hload
  have hmem := List.mem_of_getElem? hs
  have hclones : s.day = some 1 := by
    rcases List.mem_cons.mp hmem with rfl | htail
    · rfl
    · rw [List.mem_singleton.mp htail]
      rfl
  rw [hclones] at hday
  cases hday

end Machine

end Daemon
end Konstantin
