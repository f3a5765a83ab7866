import Konstantin.Daemon.Acceptance
import Konstantin.Daemon.MarkerTracks

/-!
# The marker is a register

However the calls of the requests about the marker interleave, their renames,
removals and looks are the accesses of a register, one for each request that is
accepted.  The invariant has the tree, the two files and what each request has
done; from it follows why a request is refused.
-/

namespace Konstantin
namespace Daemon

open Fs Toml Effect Proto Streams

namespace MarkerRace

variable {n : Nat}

section

variable (toml : Parser) (c : Controller) (cfg : Config) (reqs : Fin n → MarkerRequest)
variable (found : Bool)

/-- What the requests have left once all are answered. -/
structure AtRest (s : MarkerRace n) : Prop where
  present : s.world.fs.pathFound cfg.killSwitchPath =
    Access.value found (s.accesses.filter fun x => s.accepted x.thread)
  marker : ∀ i, Access.lastSet s.accesses = some (i, true) →
    s.world.fs.node cfg.killSwitchPath.resolve = some (.file (.text markerText) 0o600)
  temp : (∃ i, reqs i = .pause) → s.world.fs.node (c.markerTmp cfg).resolve = none
  progress : 0 < n → ∃ i, s.accepted i = true

/-- The marker is a register: the accesses are legal, and each request that is
accepted made its own, between its first step and its reply. -/
structure Linear (s : MarkerRace n) : Prop where
  legal : Access.Legal found s.accesses
  present : s.world.fs.pathFound cfg.killSwitchPath = Access.value found s.accesses
  waiting : ∀ i, s.phase i = .loading → s.own i = []
  accepted : ∀ i resp, s.phase i = .answered resp → resp.refused = false →
    ∃ b, resp = .enforcementState ((reqs i).shows b) cfg.killSwitchPath ∧
      s.own i = (reqs i).passed i b
  refused : ∀ i resp, s.phase i = .answered resp → resp.refused = true →
    reqs i = .pause ∧ Overtaken s.history i
  settled : (∀ i, (s.phase i).finished = true) → AtRest c cfg reqs found s

/-! ### The invariant -/

/-- The configuration is the one that was loaded, and a pause has room. -/
structure Grounded (fs : FileSystem) : Prop where
  room : Room (c.markerTmp cfg) cfg.killSwitchPath fs
  loads : Config.load toml c.configPath fs = .ok cfg

/-- What a request has done by now. -/
def Story (s : MarkerRace n) (i : Fin n) : MarkerPhase → Prop
  | .loading => s.own i = []
  | .going cfg' call => cfg' = cfg ∧ call.request = reqs i ∧ s.own i = call.passed i ∧
      (call.late = true → Reached cfg.killSwitchPath s.world.fs)
  | .answered resp =>
    (∃ b, resp = .enforcementState ((reqs i).shows b) cfg.killSwitchPath ∧
      s.own i = (reqs i).passed i b) ∨
    resp.refused = true ∧ reqs i = .pause ∧ Overtaken s.history i

structure Inv (s : MarkerRace n) : Prop where
  grounded : Grounded toml c cfg s.world.fs
  temp : TempTracks c cfg s
  marker : MarkerTracks cfg found s
  story : ∀ i, Story cfg reqs s i (s.phase i)

end

variable {toml : Parser} {c : Controller} {cfg : Config} {reqs : Fin n → MarkerRequest}
variable {found : Bool} {s : MarkerRace n}

section

variable {i : Fin n} {r : MarkerPhase × World}

/-- The other requests have done no more than before. -/
theorem Inv.record (h : Inv toml c cfg reqs found s)
    (hgrounded : Grounded toml c cfg r.2.fs)
    (hdirs : ∀ k, s.world.fs.isDir k = true → r.2.fs.isDir k = true)
    (htemp : TempTracks c cfg (s.record i r))
    (hmarker : MarkerTracks cfg found (s.record i r))
    (hstory : Story cfg reqs (s.record i r) i r.1) :
    Inv toml c cfg reqs found (s.record i r) := by
  refine ⟨hgrounded, htemp, hmarker, fun j => ?_⟩
  by_cases hj : j = i
  · rw [hj, record_phase_self]
    exact hstory
  · have hold := h.story j
    rw [record_phase_ne hj]
    cases hphase : s.phase j with
    | loading =>
      rw [hphase] at hold
      exact (record_own_ne hj).trans hold
    | going cfg' call =>
      rw [hphase] at hold
      obtain ⟨hcfg, hreq, hown, hlate⟩ := hold
      exact ⟨hcfg, hreq, (record_own_ne hj).trans hown,
        fun hcall k hk => hdirs k (hlate hcall k hk)⟩
    | answered resp =>
      rw [hphase] at hold
      rcases hold with ⟨b, hresp, hown⟩ | ⟨hrefused, hreq, hovertaken⟩
      · exact Or.inl ⟨b, hresp, (record_own_ne hj).trans hown⟩
      · exact Or.inr ⟨hrefused, hreq, hovertaken.later _⟩

end

/-! ### Each call -/

/-- The marker and its temporary are not the config file. -/
def Separate (c : Controller) (cfg : Config) : Prop :=
  c.configPath.resolve ≠ cfg.killSwitchPath.resolve ∧
    c.configPath.resolve ≠ (c.markerTmp cfg).resolve

instance (c : Controller) (cfg : Config) : Decidable (Separate c cfg) := by
  unfold Separate
  infer_instance

theorem Grounded.keep {fs fs' : FileSystem} (h : Grounded toml c cfg fs)
    (hseparate : Separate c cfg) (hdirs : ∀ k, fs'.isDir k = fs.isDir k)
    (hnode : ∀ k, k ≠ (c.markerTmp cfg).resolve → k ≠ cfg.killSwitchPath.resolve →
      fs'.node k = fs.node k) : Grounded toml c cfg fs' where
  room := h.room.keep hdirs hnode
  loads := Config.load_keep h.loads (fun k hk => (hdirs k).trans hk)
    (congrArg Node.content (hnode _ hseparate.2 hseparate.1))

theorem Grounded.create {fs : FileSystem} (h : Grounded toml c cfg fs) :
    Grounded toml c cfg (fs.createDirAll (above cfg.killSwitchPath)).2 where
  room := h.room.create
  loads := Config.load_keep h.loads (fun _ hk => FileSystem.isDir_createDirAll hk _)
    (FileSystem.content_createDirAll fs _ _)

theorem overtaken_of_taken {i j : Fin n} (hown : s.own i = [.wrote i])
    (hlast : s.lastTemp = some (j, false)) : Overtaken s.history i := by
  have hwrote : Passed.wrote i ∈ s.history := by
    refine mem_own.mp ?_
    show _ ∈ s.own i
    rw [hown]
    exact List.mem_singleton_self _
  obtain ⟨before, after, hsplit, x, hx, htemp⟩ :=
    exists_after_of_getLast? (z := (i, true)) hlast hwrote rfl (by simp)
  have hrenamed : x = .renamed j := by
    cases x with
    | renamed k =>
      have hk : k = j := congrArg Prod.fst (Option.some.inj htemp)
      rw [hk]
    | _ => cases htemp
  rw [hrenamed] at hx
  refine .renamed before after j hsplit ?_ hx
  rintro rfl
  have hmem : Passed.renamed j ∈ s.own j := by
    refine mem_own.mpr ?_
    rw [hsplit]
    exact List.mem_append_right _ (List.mem_cons_of_mem _ hx)
  rw [hown] at hmem
  cases List.mem_singleton.mp hmem

theorem overtaken_of_cleared {i j : Fin n} (hrenamed : Passed.renamed i ∈ s.history)
    (hlast : Access.lastSet s.accesses = some (j, false)) : Overtaken s.history i := by
  rw [lastSet_accesses] at hlast
  obtain ⟨before, after, hsplit, x, hx, hset⟩ :=
    exists_after_of_getLast? (z := (i, true)) hlast hrenamed rfl (by simp)
  have hremoved : x = .removed j := by
    cases x with
    | removed k =>
      have hk : k = j := congrArg Prod.fst (Option.some.inj hset)
      rw [hk]
    | _ => cases hset
  rw [hremoved] at hx
  exact .removed before after j hsplit hx

section

variable {i : Fin n}

theorem Inv.going (h : Inv toml c cfg reqs found s) {call : MarkerCall} {cfg' : Config}
    (hi : s.phase i = .going cfg' call) :
    cfg' = cfg ∧ call.request = reqs i ∧ s.own i = call.passed i ∧
      (call.late = true → Reached cfg.killSwitchPath s.world.fs) := by
  have hstory := h.story i
  rw [hi] at hstory
  exact hstory

/-- A request that was overtaken is refused, and leaves everything. -/
theorem Inv.refuse (h : Inv toml c cfg reqs found s) (message : String)
    (hreq : reqs i = .pause) (hgoing : (s.phase i).finished = false)
    (hovertaken : Overtaken s.history i) (hfreeTemp : s.lastTemp ≠ some (i, true))
    (hfree : ∀ b, Access.lastSet s.accesses ≠ some (i, b)) :
    Inv toml c cfg reqs found (s.record i (.answered (.error message), s.world)) := by
  have hbetween : Passed.between i (s.phase i) (.answered (.error message)) = [] := by
    cases hphase : s.phase i with
    | loading => rfl
    | going cfg call => cases call <;> rfl
    | answered resp =>
      rw [hphase] at hgoing
      cases hgoing
  refine h.record h.grounded (fun _ hk => hk) ?_ ?_ ?_
  · exact h.temp.quiet rfl (by rw [hbetween]; rfl) hfreeTemp
  · exact h.marker.quiet rfl (fun _ hk => hk) (by rw [hbetween]; rfl) hfree
  · exact Or.inr ⟨rfl, hreq, hovertaken.later _⟩

theorem inv_loading (h : Inv toml c cfg reqs found s) (hi : s.phase i = .loading)
    (hvalid : Controller.Valid cfg) :
    Inv toml c cfg reqs found
      (s.record i (c.advanceMarker toml (reqs i) (.loading, s.world))) := by
  have hown : s.own i = [] := by
    have hstory := h.story i
    rw [hi] at hstory
    exact hstory
  have hadvance : c.advanceMarker toml (reqs i) (.loading, s.world) =
      (.going cfg (reqs i).first, s.world) := by
    rw [Controller.advanceMarker, h.grounded.loads]
    dsimp only
    cases hpath : validateKillSwitchPath cfg.killSwitchPath with
    | ok p => rfl
    | error e =>
      rw [Controller.Valid, hpath] at hvalid
      cases hvalid
  have hbetween : Passed.between i (s.phase i) (.going cfg (reqs i).first) = [] := by
    rw [hi]
    rfl
  rw [hadvance]
  refine h.record h.grounded (fun _ hk => hk) ?_ ?_ ?_
  · exact h.temp.quiet rfl (by rw [hbetween]; rfl) (h.temp.free hi rfl)
  · exact h.marker.quiet rfl (fun _ hk => hk) (by rw [hbetween]; rfl) (h.marker.free hi rfl)
  · refine ⟨rfl, ?_, ?_, ?_⟩
    · cases reqs i <;> rfl
    · rw [record_own_self, hbetween, hown]
      cases reqs i <;> rfl
    · cases reqs i <;> exact fun hlate => (by cases hlate)

theorem inv_creating (h : Inv toml c cfg reqs found s) (hi : s.phase i = .going cfg .creating)
    (hvalid : Controller.Valid cfg) :
    Inv toml c cfg reqs found
      (s.record i (c.advanceMarker toml (reqs i) (.going cfg .creating, s.world))) := by
  obtain ⟨-, hreq, hown, -⟩ := h.going hi
  have hroom := h.grounded.room
  have hmake := createMarkerDir_ok (Controller.parent_of_valid hvalid) hroom.made
  have hdirs : ∀ k, s.world.fs.isDir k = true →
      (s.world.fs.createDirAll (above cfg.killSwitchPath)).2.isDir k = true :=
    fun k hk => FileSystem.isDir_createDirAll hk _
  rw [Controller.advanceMarker, Fallible.proceed, outcome_onFiles, hmake]
  refine h.record h.grounded.create hdirs ?_ ?_ ?_
  · exact h.temp.quiet hroom.created_nodeTmp (by rw [hi]; rfl) (h.temp.free hi rfl)
  · exact h.marker.quiet hroom.created_node hdirs (by rw [hi]; rfl) (h.marker.free hi rfl)
  · refine ⟨rfl, hreq, ?_, fun _ => hroom.reached⟩
    rw [record_own_self, hi, hown]
    rfl

theorem tmp_ne_marker (h : Room (c.markerTmp cfg) cfg.killSwitchPath s.world.fs) :
    (c.markerTmp cfg).resolve ≠ cfg.killSwitchPath.resolve := by
  cases hname : cfg.killSwitchPath.fileName with
  | some name => exact tmpPath_resolve_ne hname c.pid "marker"
  | none =>
    have hdir := FileSystem.isDir_of_fileName_none h.found hname
    rw [h.free] at hdir
    cases hdir

theorem inv_writing (h : Inv toml c cfg reqs found s) (hseparate : Separate c cfg)
    (hi : s.phase i = .going cfg .writing) :
    Inv toml c cfg reqs found
      (s.record i (c.advanceMarker toml (reqs i) (.going cfg .writing, s.world))) := by
  obtain ⟨-, hreq, hown, hlate⟩ := h.going hi
  have hreached := hlate rfl
  have hroom := h.grounded.room
  obtain ⟨fs, hwrite⟩ := hroom.write_ok hreached markerText
  have hstaged := staged_write hwrite
  have hne := tmp_ne_marker hroom
  rw [Controller.advanceMarker, Fallible.proceed, outcome_onFiles, writeTmp,
    Fallible.outcome_change, hwrite]
  refine h.record ?_ (fun k hk => (hstaged.dirs k).trans hk) ?_ ?_ ?_
  · exact h.grounded.keep hseparate hstaged.dirs fun k hk _ => hstaged.frame k hk
  · exact .wrote hi hstaged.temp
  · exact h.marker.quiet (hstaged.frame _ hne.symm) (fun k hk => (hstaged.dirs k).trans hk)
      (by rw [hi]; rfl) (h.marker.free hi rfl)
  · refine ⟨rfl, hreq, ?_, fun _ k hk => (hstaged.dirs k).trans (hreached k hk)⟩
    rw [record_own_self, hi, hown]
    rfl

/-- A request that wrote the temporary finds it, or was overtaken. -/
theorem staged_or_overtaken (h : Inv toml c cfg reqs found s) (hown : s.own i = [.wrote i]) :
    (∃ mode, s.world.fs.node (c.markerTmp cfg).resolve =
      some (.file (.text markerText) mode)) ∨
    s.world.fs.node (c.markerTmp cfg).resolve = none ∧ s.lastTemp ≠ some (i, true) ∧
      Overtaken s.history i := by
  have hwrote : Passed.wrote i ∈ s.history := by
    refine mem_own.mp ?_
    show _ ∈ s.own i
    rw [hown]
    exact List.mem_singleton_self _
  obtain ⟨⟨j, written⟩, hlast⟩ :=
    Option.ne_none_iff_exists'.mp (lastTemp_ne_none hwrote (Option.some_ne_none _))
  cases written with
  | true => exact Or.inl (h.temp.staged j hlast).1
  | false =>
    refine Or.inr ⟨h.temp.taken j hlast, ?_, overtaken_of_taken hown hlast⟩
    rw [hlast]
    simp

theorem inv_restrictingTmp (h : Inv toml c cfg reqs found s) (hseparate : Separate c cfg)
    (hi : s.phase i = .going cfg .restrictingTmp) :
    Inv toml c cfg reqs found
      (s.record i (c.advanceMarker toml (reqs i) (.going cfg .restrictingTmp, s.world))) := by
  obtain ⟨-, hreq, hown, hlate⟩ := h.going hi
  have hreached := hlate rfl
  have hroom := h.grounded.room
  have hfound := (hroom.now hreached).2.1
  have hfree : ∀ b, Access.lastSet s.accesses ≠ some (i, b) := h.marker.free hi rfl
  rw [Controller.advanceMarker, Fallible.proceed, outcome_onFiles, setMode0600,
    Fallible.outcome_change]
  rcases staged_or_overtaken h hown with ⟨mode, hnode⟩ | ⟨hnone, hfreeTemp, hovertaken⟩
  · obtain ⟨fs, hchmod⟩ := chmod_file hfound hnode
    have hset := (FileSystem.atPath_eq_ok hchmod).2
    have hdirs := FileSystem.isDir_setPermissions hset
    have hother : ∀ k, k ≠ (c.markerTmp cfg).resolve → fs.node k = s.world.fs.node k :=
      fun k hk => FileSystem.setPermissions_node hset hk
    rw [hchmod]
    refine h.record ?_ (fun k hk => (hdirs k).trans hk) ?_ ?_ ?_
    · exact h.grounded.keep hseparate hdirs fun k hk _ => hother k hk
    · exact h.temp.chmod hi hset
    · exact h.marker.quiet (hother _ (tmp_ne_marker hroom).symm)
        (fun k hk => (hdirs k).trans hk) (by rw [hi]; rfl) hfree
    · refine ⟨rfl, hreq, ?_, fun _ k hk => (hdirs k).trans (hreached k hk)⟩
      rw [record_own_self, hi, hown]
      rfl
  · have herror : s.world.fs.atPath (c.markerTmp cfg) (fun fs l => fs.setPermissions l 0o600) =
        .error .notFound := by
      rw [FileSystem.atPath, hfound]
      exact FileSystem.setPermissions_none hnone 0o600
    rw [herror]
    exact h.refuse _ hreq.symm (by rw [hi]; rfl) hovertaken hfreeTemp hfree

theorem inv_replacing (h : Inv toml c cfg reqs found s) (hseparate : Separate c cfg)
    (hi : s.phase i = .going cfg .replacing) :
    Inv toml c cfg reqs found
      (s.record i (c.advanceMarker toml (reqs i) (.going cfg .replacing, s.world))) := by
  obtain ⟨-, hreq, hown, hlate⟩ := h.going hi
  have hreached := hlate rfl
  have hroom := h.grounded.room
  have hne := tmp_ne_marker hroom
  obtain ⟨hfind, hfound, -⟩ := hroom.now hreached
  rw [Controller.advanceMarker, Fallible.proceed, outcome_onFiles, renameTmp,
    Fallible.outcome_change]
  rcases staged_or_overtaken h hown with ⟨mode, hnode⟩ | ⟨hnone, hfreeTemp, hovertaken⟩
  · obtain ⟨fs, hrename⟩ := hroom.rename_ok hreached hnode
    have hmove := (FileSystem.atPath_eq_ok (FileSystem.atPath_eq_ok hrename).2).2
    have hdirs := FileSystem.isDir_rename hmove
    have hmoved := FileSystem.rename_node hmove
    rw [hrename]
    refine h.record ?_ (fun k hk => (hdirs k).trans hk) ?_ ?_ ?_
    · refine h.grounded.keep hseparate hdirs fun k hkt hkp => ?_
      rw [hmoved, if_neg hkp, if_neg hkt]
    · refine .renamed hi ?_
      rw [hmoved, if_neg hne, if_pos rfl]
    · have hmarked : fs.node cfg.killSwitchPath.resolve =
          some (.file (.text markerText) mode) := by
        rw [hmoved, if_pos rfl, hnode]
      exact h.marker.renamed hi (FileSystem.find_mono (fun k hk => (hdirs k).trans hk) hfind)
        hmarked
    · refine ⟨rfl, hreq, ?_, fun _ k hk => (hdirs k).trans (hreached k hk)⟩
      rw [record_own_self, hi, hown]
      rfl
  · have herror : s.world.fs.atPath (c.markerTmp cfg) (fun fs src =>
        fs.atPath cfg.killSwitchPath fun fs dst => fs.rename src dst) = .error .notFound := by
      rw [FileSystem.atPath, hfound]
      show s.world.fs.atPath cfg.killSwitchPath
        (fun fs dst => fs.rename (c.markerTmp cfg).resolve dst) = _
      rw [FileSystem.atPath, hfind]
      exact FileSystem.rename_none hnone _
    rw [herror]
    exact h.refuse _ hreq.symm (by rw [hi]; rfl) hovertaken hfreeTemp (h.marker.free hi rfl)

theorem inv_restricting (h : Inv toml c cfg reqs found s) (hseparate : Separate c cfg)
    (hi : s.phase i = .going cfg .restricting) :
    Inv toml c cfg reqs found
      (s.record i (c.advanceMarker toml (reqs i) (.going cfg .restricting, s.world))) := by
  obtain ⟨-, hreq, hown, hlate⟩ := h.going hi
  have hroom := h.grounded.room
  have hfind := (hroom.now (hlate rfl)).1
  have hfreeTemp : s.lastTemp ≠ some (i, true) := h.temp.free hi rfl
  have hrenamed : Passed.renamed i ∈ s.history := by
    refine mem_own.mp ?_
    show _ ∈ s.own i
    rw [hown]
    exact List.mem_cons_of_mem _ (List.mem_singleton_self _)
  rw [Controller.advanceMarker, Fallible.proceed, outcome_onFiles, setMode0600,
    Fallible.outcome_change]
  cases hlast : Access.lastSet s.accesses with
  | none =>
    exact absurd hlast (lastSet_ne_none hrenamed (Option.some_ne_none _))
  | some x =>
    obtain ⟨j, b⟩ := x
    cases b with
    | true =>
      obtain ⟨mode, hnode, -⟩ := h.marker.marked j hlast
      obtain ⟨fs, hchmod⟩ := chmod_file hfind hnode
      have hset := (FileSystem.atPath_eq_ok hchmod).2
      have hdirs := FileSystem.isDir_setPermissions hset
      have hother : ∀ k, k ≠ cfg.killSwitchPath.resolve → fs.node k = s.world.fs.node k :=
        fun k hk => FileSystem.setPermissions_node hset hk
      rw [hchmod]
      refine h.record ?_ (fun k hk => (hdirs k).trans hk) ?_ ?_ ?_
      · exact h.grounded.keep hseparate hdirs fun k _ hk => hother k hk
      · exact h.temp.quiet (hother _ (tmp_ne_marker hroom)) (by rw [hi]; rfl) hfreeTemp
      · exact h.marker.chmod hi hlast hset
      · refine Or.inl ⟨true, ?_, ?_⟩
        · rw [← hreq]
          rfl
        · rw [record_own_self, hi, hown, ← hreq]
          rfl
    | false =>
      obtain ⟨hnone, hphase⟩ := h.marker.cleared j hlast
      have hfree : ∀ b, Access.lastSet s.accesses ≠ some (i, b) := by
        intro b hb
        obtain rfl : j = i := congrArg Prod.fst (Option.some.inj (hlast.symm.trans hb))
        rw [hi] at hphase
        cases hphase
      have herror : s.world.fs.atPath cfg.killSwitchPath
          (fun fs l => fs.setPermissions l 0o600) = .error .notFound := by
        rw [FileSystem.atPath, hfind]
        exact FileSystem.setPermissions_none hnone 0o600
      rw [herror]
      exact h.refuse _ hreq.symm (by rw [hi]; rfl) (overtaken_of_cleared hrenamed hlast)
        hfreeTemp hfree

/-- A removal that passes changes only the marker's place and leaves nothing there. -/
theorem removed_node (h : MarkerTracks cfg found s) {fs : FileSystem}
    (hremove : ifExists s.world.fs
      (s.world.fs.atPath cfg.killSwitchPath FileSystem.removeFile) = .ok fs) :
    fs.node cfg.killSwitchPath.resolve = none ∧
      (∀ k, k ≠ cfg.killSwitchPath.resolve → fs.node k = s.world.fs.node k) ∧
        ∀ k, fs.isDir k = s.world.fs.isDir k := by
  rcases ifExists_eq_ok hremove with hr | ⟨hr, rfl⟩
  · have hgone := (FileSystem.atPath_eq_ok hr).2
    have hnode := FileSystem.removeFile_node hgone
    refine ⟨?_, fun k hk => ?_, FileSystem.isDir_removeFile hgone⟩
    · rw [hnode, if_pos rfl]
    · rw [hnode, if_neg hk]
  · refine ⟨?_, fun _ _ => rfl, fun _ => rfl⟩
    cases hnode : s.world.fs.node cfg.killSwitchPath.resolve with
    | none => rfl
    | some node =>
      have hthere := FileSystem.pathFound_of_find (h.seen (by simp [hnode]))
      rw [pathFound_of_notFound hr, FileSystem.pathExists, hnode] at hthere
      cases hthere

theorem inv_removing (h : Inv toml c cfg reqs found s) (hseparate : Separate c cfg)
    (hi : s.phase i = .going cfg .removing) :
    Inv toml c cfg reqs found
      (s.record i (c.advanceMarker toml (reqs i) (.going cfg .removing, s.world))) := by
  obtain ⟨-, hreq, hown, -⟩ := h.going hi
  have hroom := h.grounded.room
  obtain ⟨fs, hremove⟩ := hroom.remove_ok
  obtain ⟨hnone, hother, hdirs⟩ := removed_node h.marker hremove
  rw [Controller.advanceMarker, Fallible.proceed, outcome_onFiles, removeFileIfExists,
    Fallible.outcome_change, hremove]
  refine h.record ?_ (fun k hk => (hdirs k).trans hk) ?_ ?_ ?_
  · exact h.grounded.keep hseparate hdirs fun k _ hk => hother k hk
  · exact h.temp.quiet (hother _ (tmp_ne_marker hroom)) (by rw [hi]; rfl) (h.temp.free hi rfl)
  · exact h.marker.removed hi hnone
  · refine Or.inl ⟨false, ?_, ?_⟩
    · rw [← hreq]
      rfl
    · rw [record_own_self, hi, hown, ← hreq]
      rfl

theorem inv_looking (h : Inv toml c cfg reqs found s) (hi : s.phase i = .going cfg .looking) :
    Inv toml c cfg reqs found
      (s.record i (c.advanceMarker toml (reqs i) (.going cfg .looking, s.world))) := by
  obtain ⟨-, hreq, hown, -⟩ := h.going hi
  refine h.record h.grounded (fun _ hk => hk) ?_ (h.marker.looked hi) ?_
  · exact h.temp.quiet rfl (by rw [hi]; rfl) (h.temp.free hi rfl)
  · refine Or.inl ⟨s.world.fs.pathFound cfg.killSwitchPath, ?_, ?_⟩
    · rw [← hreq]
      rfl
    · rw [record_own_self, hi, hown, ← hreq]
      rfl

theorem inv_step (h : Inv toml c cfg reqs found s) (hseparate : Separate c cfg)
    (hvalid : Controller.Valid cfg) {t : MarkerRace n}
    (hstep : step toml c reqs s i = some t) : Inv toml c cfg reqs found t := by
  unfold step at hstep
  split at hstep
  · cases hstep
  · rename_i hgoing
    obtain rfl := Option.some.inj hstep
    cases hi : s.phase i with
    | loading => exact inv_loading h hi hvalid
    | going cfg' call =>
      obtain rfl := (h.going hi).1
      cases call with
      | creating => exact inv_creating h hi hvalid
      | writing => exact inv_writing h hseparate hi
      | restrictingTmp => exact inv_restrictingTmp h hseparate hi
      | replacing => exact inv_replacing h hseparate hi
      | restricting => exact inv_restricting h hseparate hi
      | removing => exact inv_removing h hseparate hi
      | looking => exact inv_looking h hi
    | answered resp =>
      rw [hi] at hgoing
      exact absurd rfl hgoing

/-! ### What the invariant says -/

theorem accepted_answered {resp : AdminResponse} (h : s.phase i = .answered resp) :
    s.accepted i = !resp.refused := by
  rw [accepted, h]

/-- Once all requests are answered, the last one that set the marker was accepted. -/
theorem accepted_of_lastSet (h : Inv toml c cfg reqs found s)
    (hfinished : ∀ i, (s.phase i).finished = true) (b : Bool)
    (hlast : Access.lastSet s.accesses = some (i, b)) : s.accepted i = true := by
  cases b with
  | true =>
    obtain ⟨mode, -, hphase⟩ := h.marker.marked i hlast
    rcases hphase with hphase | ⟨-, hphase⟩
    · have hdone := hfinished i
      rw [hphase] at hdone
      cases hdone
    · rw [accepted_answered hphase]
      rfl
  | false =>
    rw [accepted_answered (h.marker.cleared i hlast).2]
    rfl

theorem answered_of_finished {ph : MarkerPhase} (h : ph.finished = true) :
    ∃ resp, ph = .answered resp := by
  cases ph with
  | answered resp => exact ⟨resp, rfl⟩
  | _ => cases h

/-- A request that is answered was accepted, or is a pause that was overtaken. -/
theorem accepted_or_overtaken (h : Inv toml c cfg reqs found s)
    (hi : (s.phase i).finished = true) :
    (s.accepted i = true ∧ ∃ b, s.own i = (reqs i).passed i b) ∨ Overtaken s.history i := by
  obtain ⟨resp, hphase⟩ := answered_of_finished hi
  have hstory := h.story i
  rw [hphase] at hstory
  rcases hstory with ⟨b, rfl, hown⟩ | ⟨-, -, hovertaken⟩
  · exact Or.inl ⟨accepted_answered hphase, b, hown⟩
  · exact Or.inr hovertaken

theorem at_rest (h : Inv toml c cfg reqs found s) (hfinished : ∀ i, (s.phase i).finished = true) :
    AtRest c cfg reqs found s where
  present := by
    rw [Access.value_filter found fun _ b => accepted_of_lastSet h hfinished b]
    exact h.marker.present
  marker := by
    intro j hlast
    obtain ⟨mode, hnode, hphase⟩ := h.marker.marked j hlast
    rcases hphase with hphase | ⟨rfl, -⟩
    · have hdone := hfinished j
      rw [hphase] at hdone
      cases hdone
    · exact hnode
  temp := by
    rintro ⟨j, hreq⟩
    have hused : s.lastTemp ≠ none := by
      rcases accepted_or_overtaken h (hfinished j) with ⟨-, b, hown⟩ | hovertaken
      · refine lastTemp_ne_none (x := .wrote j) (mem_own.mp ?_) (Option.some_ne_none _)
        show _ ∈ s.own j
        rw [hown, hreq]
        exact List.mem_cons_self
      · cases hovertaken with
        | renamed before after k hsplit =>
          refine lastTemp_ne_none (x := .wrote j) ?_ (Option.some_ne_none _)
          rw [hsplit]
          exact List.mem_append_right _ List.mem_cons_self
        | removed before after k hsplit =>
          refine lastTemp_ne_none (x := .renamed j) ?_ (Option.some_ne_none _)
          rw [hsplit]
          exact List.mem_append_right _ List.mem_cons_self
    obtain ⟨⟨k, written⟩, hlast⟩ := Option.ne_none_iff_exists'.mp hused
    cases written with
    | true =>
      have hdone := hfinished k
      rcases (h.temp.staged k hlast).2 with hphase | hphase
      · rw [hphase] at hdone
        cases hdone
      · rw [hphase] at hdone
        cases hdone
    | false => exact h.temp.taken k hlast
  progress := by
    intro hn
    rcases accepted_or_overtaken h (hfinished ⟨0, hn⟩) with ⟨haccepted, -⟩ | hovertaken
    · exact ⟨_, haccepted⟩
    · -- what overtook it set the marker
      have hset : Access.lastSet s.accesses ≠ none := by
        cases hovertaken with
        | renamed before after k hsplit hother hafter =>
          refine lastSet_ne_none (x := .renamed k) ?_ (Option.some_ne_none _)
          rw [hsplit]
          exact List.mem_append_right _ (List.mem_cons_of_mem _ hafter)
        | removed before after k hsplit hafter =>
          refine lastSet_ne_none (x := .removed k) ?_ (Option.some_ne_none _)
          rw [hsplit]
          exact List.mem_append_right _ (List.mem_cons_of_mem _ hafter)
      obtain ⟨⟨k, b⟩, hlast⟩ := Option.ne_none_iff_exists'.mp hset
      exact ⟨k, accepted_of_lastSet h hfinished b hlast⟩

theorem linear_of_inv (h : Inv toml c cfg reqs found s) : Linear c cfg reqs found s where
  legal := h.marker.legal
  present := h.marker.present
  waiting := by
    intro j hj
    have hstory := h.story j
    rw [hj] at hstory
    exact hstory
  accepted := by
    intro j resp hj haccepted
    have hstory := h.story j
    rw [hj] at hstory
    rcases hstory with hdone | ⟨hrefused, -⟩
    · exact hdone
    · rw [haccepted] at hrefused
      cases hrefused
  refused := by
    intro j resp hj hrefused
    have hstory := h.story j
    rw [hj] at hstory
    rcases hstory with ⟨b, rfl, -⟩ | ⟨-, hreq, hovertaken⟩
    · cases hrefused
    · exact ⟨hreq, hovertaken⟩
  settled := at_rest h

end

theorem inv_start {operator : Operator} {w : World}
    (hload : Config.load toml c.configPath w.fs = .ok cfg)
    (hpause : c.Succeeds toml operator w (.setEnforcementPaused true))
    (hplain : Watch.Plain w.fs cfg.killSwitchPath) :
    Controller.Valid cfg ∧
      Inv toml c cfg reqs (w.fs.pathFound cfg.killSwitchPath) (start w : MarkerRace n) := by
  have hallowed : operator.allowed = true := by
    cases hop : operator.allowed with
    | true => rfl
    | false =>
      unfold Controller.Succeeds Controller.handle at hpause
      rw [if_pos hop] at hpause
      cases hpause
  rw [Controller.Succeeds, Controller.handle_allowed toml c hallowed,
    handleAuthorized_set toml c hload, if_pos rfl] at hpause
  cases hvalid : validateKillSwitchPath cfg.killSwitchPath with
  | error message =>
    rw [hvalid] at hpause
    cases hpause
  | ok p =>
    rw [hvalid] at hpause
    dsimp only at hpause
    rw [Fallible.outcome_bind, outcome_onFiles] at hpause
    have hwrite : ((writeMarkerAtomic c.pid cfg.killSwitchPath).outcome w.fs).1 = .ok () := by
      cases hr : ((writeMarkerAtomic c.pid cfg.killSwitchPath).outcome w.fs).1 with
      | ok u => rfl
      | error message =>
        rw [hr] at hpause
        cases hpause
    have hroom := ((writeMarkerAtomic_ok_iff c.pid cfg.killSwitchPath w.fs).mp hwrite).2
    refine ⟨Controller.valid_of_ok hvalid, ⟨hroom, hload⟩, ?_, ?_, fun i => rfl⟩
    · exact ⟨fun i hlast => (by cases hlast), fun i hlast => by cases hlast⟩
    · refine ⟨fun i hlast => (by cases hlast), fun i hlast => (by cases hlast), fun _ => ?_,
        fun hthere => ?_, trivial⟩
      · show (w.fs.node _).isSome = _
        rcases hplain with hfound | ⟨-, hnone⟩
        · have hfind := FileSystem.find_of_pathFound hfound
          rw [FileSystem.pathFound_of_find hfind, FileSystem.pathExists]
        · rw [FileSystem.pathFound_of_none hnone, hnone]
          rfl
      · rcases hplain with hfound | ⟨-, hnone⟩
        · exact FileSystem.find_of_pathFound hfound
        · exact absurd hnone hthere

/-- Any number of requests about the marker use it as a register, where one pause alone
would be accepted, the path of the marker finds what stands at its place (`Plain`, as a
path without `..` does), and neither the marker nor its temporary is the config file. -/
theorem linear_of_pause (toml : Parser) (c : Controller) (cfg : Config) (operator : Operator)
    (w : World) (reqs : Fin n → MarkerRequest)
    (hload : Config.load toml c.configPath w.fs = .ok cfg)
    (hpause : c.Succeeds toml operator w (.setEnforcementPaused true))
    (hplain : Watch.Plain w.fs cfg.killSwitchPath) (hseparate : Separate c cfg)
    (ls : List (Fin n)) :
    Transition.Along (step toml c reqs)
      (fun _ _ t => Linear c cfg reqs (w.fs.pathFound cfg.killSwitchPath) t) (start w) ls := by
  obtain ⟨hvalid, hstart⟩ : Controller.Valid cfg ∧
      Inv toml c cfg reqs (w.fs.pathFound cfg.killSwitchPath) (start w) :=
    inv_start hload hpause hplain
  refine Transition.along_of_invariant
    (I := Inv toml c cfg reqs (w.fs.pathFound cfg.killSwitchPath)) ?_ hstart ls
  intro s i t hstep hinv
  have hinv' := inv_step hinv hseparate hvalid hstep
  exact ⟨hinv', linear_of_inv hinv'⟩

/-- Two pauses, a resume and a look. -/
def four : Fin 4 → MarkerRequest
  | 0 => .pause
  | 1 => .pause
  | 2 => .resume
  | 3 => .look

def strictConfig : Config :=
  { Config.defaults with defaultPolicy := .block, enforcement := .logout }

/-- The second pause renames the temporary before the first does, which is refused,
and the marker that the look finds is removed in the end. -/
theorem linear_of_pause_four :
    Transition.Along (step Watch.sampleToml systemController four)
      (fun _ _ t => Linear systemController strictConfig four
        (Watch.installed.pathFound strictConfig.killSwitchPath) t)
      (start ⟨Watch.installed, false⟩)
      [0, 1, 2, 3, 0, 1, 0, 1, 0, 1, 1, 0, 3, 1, 2] :=
  linear_of_pause Watch.sampleToml systemController strictConfig allowedOperator
    ⟨Watch.installed, false⟩ four rfl (by decide +kernel) (by decide +kernel)
    (by decide +kernel) _

end MarkerRace

end Daemon
end Konstantin
