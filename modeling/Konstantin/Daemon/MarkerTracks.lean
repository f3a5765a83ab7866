import Konstantin.Daemon.MarkerRace

/-!
# The temporary and the marker behind the calls

Who wrote or renamed the temporary last says whether it is there, and who set the
marker last says whether that is.  A request is tied to a file only while the
file is its own doing, so a call of another request keeps the tie or cuts it.
-/

namespace Konstantin
namespace Daemon

open Fs Toml Effect Proto Streams

namespace MarkerRace

variable {n : Nat}

section

variable (c : Controller) (cfg : Config) (found : Bool)

/-- The temporary is as the calls so far say. -/
structure TempTracks (s : MarkerRace n) : Prop where
  staged : ∀ i, s.lastTemp = some (i, true) →
    (∃ mode, s.world.fs.node (c.markerTmp cfg).resolve = some (.file (.text markerText) mode)) ∧
      (s.phase i = .going cfg .restrictingTmp ∨ s.phase i = .going cfg .replacing)
  taken : ∀ i, s.lastTemp = some (i, false) →
    s.world.fs.node (c.markerTmp cfg).resolve = none

/-- The marker is as the calls so far say. -/
structure MarkerTracks (s : MarkerRace n) : Prop where
  marked : ∀ i, Access.lastSet s.accesses = some (i, true) →
    ∃ mode, s.world.fs.node cfg.killSwitchPath.resolve = some (.file (.text markerText) mode) ∧
      (s.phase i = .going cfg .restricting ∨
        mode = 0o600 ∧ s.phase i = .answered (.enforcementState true cfg.killSwitchPath))
  cleared : ∀ i, Access.lastSet s.accesses = some (i, false) →
    s.world.fs.node cfg.killSwitchPath.resolve = none ∧
      s.phase i = .answered (.enforcementState false cfg.killSwitchPath)
  untouched : Access.lastSet s.accesses = none →
    (s.world.fs.node cfg.killSwitchPath.resolve).isSome = found
  seen : s.world.fs.node cfg.killSwitchPath.resolve ≠ none →
    s.world.fs.find cfg.killSwitchPath = .ok cfg.killSwitchPath.resolve
  legal : Access.Legal found s.accesses

end

variable {c : Controller} {cfg : Config} {found : Bool} {s : MarkerRace n}

/-! ### What the calls leave of the temporary -/

section

variable {i : Fin n} {r : MarkerPhase × World}

/-- A call that does nothing to the temporary. -/
theorem TempTracks.quiet (h : TempTracks c cfg s)
    (hnode : r.2.fs.node (c.markerTmp cfg).resolve =
      s.world.fs.node (c.markerTmp cfg).resolve)
    (hnone : (Passed.between i (s.phase i) r.1).filterMap Passed.temp = [])
    (hfree : s.lastTemp ≠ some (i, true)) :
    TempTracks c cfg (s.record i r) := by
  have hlast : (s.record i r).lastTemp = s.lastTemp := by
    rw [record_lastTemp, hnone]
    rfl
  refine ⟨fun j hj => ?_, fun j hj => ?_⟩
  · rw [hlast] at hj
    have hji : j ≠ i := fun heq => hfree (heq ▸ hj)
    rw [record_phase_ne hji]
    exact ⟨hnode ▸ (h.staged j hj).1, (h.staged j hj).2⟩
  · rw [hlast] at hj
    exact hnode.trans (h.taken j hj)

/-- A request that is at other calls has not left the temporary there. -/
theorem TempTracks.free (h : TempTracks c cfg s) {ph : MarkerPhase} (hi : s.phase i = ph)
    (hph : ph.stages = false) : s.lastTemp ≠ some (i, true) := by
  intro hlast
  rcases (h.staged i hlast).2 with hphase | hphase
  · rw [← hi, hphase] at hph
    cases hph
  · rw [← hi, hphase] at hph
    cases hph

theorem TempTracks.wrote {w : World} {mode : Nat} (hi : s.phase i = .going cfg .writing)
    (hnode : w.fs.node (c.markerTmp cfg).resolve = some (.file (.text markerText) mode)) :
    TempTracks c cfg (s.record i (.going cfg .restrictingTmp, w)) := by
  have hlast : (s.record i (.going cfg .restrictingTmp, w)).lastTemp = some (i, true) := by
    rw [record_lastTemp, hi]
    rfl
  refine ⟨fun j hj => ?_, fun j hj => ?_⟩
  · rw [hlast] at hj
    obtain rfl : i = j := congrArg Prod.fst (Option.some.inj hj)
    rw [record_phase_self]
    exact ⟨⟨mode, hnode⟩, Or.inl rfl⟩
  · rw [hlast] at hj
    cases hj

theorem TempTracks.chmod (h : TempTracks c cfg s) {w : World}
    (hi : s.phase i = .going cfg .restrictingTmp)
    (hchmod : s.world.fs.setPermissions (c.markerTmp cfg).resolve 0o600 = .ok w.fs) :
    TempTracks c cfg (s.record i (.going cfg .replacing, w)) := by
  have hlast : (s.record i (.going cfg .replacing, w)).lastTemp = s.lastTemp := by
    rw [record_lastTemp, hi]
    rfl
  refine ⟨fun j hj => ?_, fun j hj => ?_⟩
  · rw [hlast] at hj
    obtain ⟨⟨mode, hnode⟩, hphase⟩ := h.staged j hj
    refine ⟨⟨_, FileSystem.setPermissions_file hnode hchmod⟩, ?_⟩
    by_cases hji : j = i
    · rw [hji, record_phase_self]
      exact Or.inr rfl
    · rwa [record_phase_ne hji]
  · rw [hlast] at hj
    rw [FileSystem.setPermissions_none (h.taken j hj)] at hchmod
    cases hchmod

theorem TempTracks.renamed {w : World} (hi : s.phase i = .going cfg .replacing)
    (hnode : w.fs.node (c.markerTmp cfg).resolve = none) :
    TempTracks c cfg (s.record i (.going cfg .restricting, w)) := by
  have hlast : (s.record i (.going cfg .restricting, w)).lastTemp = some (i, false) := by
    rw [record_lastTemp, hi]
    rfl
  refine ⟨fun j hj => ?_, fun j hj => hnode⟩
  rw [hlast] at hj
  cases hj

/-! ### What the calls leave of the marker -/

theorem MarkerTracks.frame (h : MarkerTracks cfg found s)
    (hnode : r.2.fs.node cfg.killSwitchPath.resolve =
      s.world.fs.node cfg.killSwitchPath.resolve)
    (hdirs : ∀ k, s.world.fs.isDir k = true → r.2.fs.isDir k = true)
    (hlast : Access.lastSet (s.record i r).accesses = Access.lastSet s.accesses)
    (hlegal : Access.Legal found (s.record i r).accesses)
    (hfree : ∀ b, Access.lastSet s.accesses ≠ some (i, b)) :
    MarkerTracks cfg found (s.record i r) where
  marked := by
    intro j hj
    rw [hlast] at hj
    have hji : j ≠ i := fun heq => hfree true (heq ▸ hj)
    rw [record_phase_ne hji]
    exact hnode ▸ h.marked j hj
  cleared := by
    intro j hj
    rw [hlast] at hj
    have hji : j ≠ i := fun heq => hfree false (heq ▸ hj)
    rw [record_phase_ne hji]
    exact ⟨hnode.trans (h.cleared j hj).1, (h.cleared j hj).2⟩
  untouched := by
    intro hnone
    rw [hlast] at hnone
    exact hnode ▸ h.untouched hnone
  seen := fun hthere => FileSystem.find_mono hdirs (h.seen (hnode ▸ hthere))
  legal := hlegal

/-- A call that does nothing to the marker. -/
theorem MarkerTracks.quiet (h : MarkerTracks cfg found s)
    (hnode : r.2.fs.node cfg.killSwitchPath.resolve =
      s.world.fs.node cfg.killSwitchPath.resolve)
    (hdirs : ∀ k, s.world.fs.isDir k = true → r.2.fs.isDir k = true)
    (hnone : (Passed.between i (s.phase i) r.1).filterMap Passed.access = [])
    (hfree : ∀ b, Access.lastSet s.accesses ≠ some (i, b)) :
    MarkerTracks cfg found (s.record i r) := by
  have haccesses : (s.record i r).accesses = s.accesses := by
    rw [record_accesses, hnone, List.append_nil]
  refine h.frame hnode hdirs ?_ ?_ hfree
  · rw [haccesses]
  · rw [haccesses]
    exact h.legal

theorem MarkerTracks.free (h : MarkerTracks cfg found s) {ph : MarkerPhase}
    (hi : s.phase i = ph) (hph : ph.marks = false) (b : Bool) :
    Access.lastSet s.accesses ≠ some (i, b) := by
  intro hlast
  cases b with
  | true =>
    obtain ⟨mode, -, hphase⟩ := h.marked i hlast
    rcases hphase with hphase | ⟨-, hphase⟩
    · rw [← hi, hphase] at hph
      cases hph
    · rw [← hi, hphase] at hph
      cases hph
  | false =>
    rw [← hi, (h.cleared i hlast).2] at hph
    cases hph

/-- What the path finds is what the register holds. -/
theorem MarkerTracks.present (h : MarkerTracks cfg found s) :
    s.world.fs.pathFound cfg.killSwitchPath = Access.value found s.accesses := by
  have hisSome : s.world.fs.pathFound cfg.killSwitchPath =
      (s.world.fs.node cfg.killSwitchPath.resolve).isSome := by
    cases hnode : s.world.fs.node cfg.killSwitchPath.resolve with
    | none => exact FileSystem.pathFound_of_none hnode
    | some node =>
      rw [FileSystem.pathFound_of_find (h.seen (by simp [hnode])), FileSystem.pathExists, hnode]
  rw [hisSome, Access.value_eq_lastSet]
  cases hlast : Access.lastSet s.accesses with
  | none => exact h.untouched hlast
  | some x =>
    obtain ⟨i, b⟩ := x
    cases b with
    | true =>
      obtain ⟨mode, hnode, -⟩ := h.marked i hlast
      rw [hnode]
      rfl
    | false =>
      rw [(h.cleared i hlast).1]
      rfl

theorem MarkerTracks.looked (h : MarkerTracks cfg found s)
    (hi : s.phase i = .going cfg .looking) :
    MarkerTracks cfg found (s.record i (.answered (.enforcementState
      (s.world.fs.pathFound cfg.killSwitchPath) cfg.killSwitchPath), s.world)) := by
  have haccesses : (s.record i (.answered (.enforcementState
      (s.world.fs.pathFound cfg.killSwitchPath) cfg.killSwitchPath), s.world)).accesses =
        s.accesses ++ [.get i (Access.value found s.accesses)] := by
    rw [record_accesses, hi, ← h.present]
    rfl
  refine h.frame rfl (fun _ hk => hk) ?_ ?_ (h.free hi rfl)
  · rw [haccesses, Access.lastSet_concat]
    rfl
  · rw [haccesses]
    exact Access.legal_concat_get h.legal i

theorem MarkerTracks.renamed (h : MarkerTracks cfg found s) {w : World} {mode : Nat}
    (hi : s.phase i = .going cfg .replacing)
    (hfind : w.fs.find cfg.killSwitchPath = .ok cfg.killSwitchPath.resolve)
    (hnode : w.fs.node cfg.killSwitchPath.resolve = some (.file (.text markerText) mode)) :
    MarkerTracks cfg found (s.record i (.going cfg .restricting, w)) := by
  have haccesses : (s.record i (.going cfg .restricting, w)).accesses =
      s.accesses ++ [.set i true] := by
    rw [record_accesses, hi]
    rfl
  have hlast : Access.lastSet (s.record i (.going cfg .restricting, w)).accesses =
      some (i, true) := by
    rw [haccesses, Access.lastSet_concat]
    rfl
  refine ⟨fun j hj => ?_, fun j hj => ?_, fun hnone => ?_, fun _ => hfind, ?_⟩
  · rw [hlast] at hj
    obtain rfl : i = j := congrArg Prod.fst (Option.some.inj hj)
    rw [record_phase_self]
    exact ⟨mode, hnode, Or.inl rfl⟩
  · rw [hlast] at hj
    cases hj
  · rw [hlast] at hnone
    cases hnone
  · rw [haccesses]
    exact Access.legal_concat_set h.legal i

theorem MarkerTracks.removed (h : MarkerTracks cfg found s) {w : World}
    (hi : s.phase i = .going cfg .removing)
    (hnode : w.fs.node cfg.killSwitchPath.resolve = none) :
    MarkerTracks cfg found
      (s.record i (.answered (.enforcementState false cfg.killSwitchPath), w)) := by
  have haccesses : (s.record i
      (.answered (.enforcementState false cfg.killSwitchPath), w)).accesses =
        s.accesses ++ [.set i false] := by
    rw [record_accesses, hi]
    rfl
  have hlast : Access.lastSet (s.record i
      (.answered (.enforcementState false cfg.killSwitchPath), w)).accesses =
        some (i, false) := by
    rw [haccesses, Access.lastSet_concat]
    rfl
  refine ⟨fun j hj => ?_, fun j hj => ?_, fun hnone => ?_, fun hthere => ?_, ?_⟩
  · rw [hlast] at hj
    cases hj
  · rw [hlast] at hj
    obtain rfl : i = j := congrArg Prod.fst (Option.some.inj hj)
    rw [record_phase_self]
    exact ⟨hnode, rfl⟩
  · rw [hlast] at hnone
    cases hnone
  · exact absurd hnode hthere
  · rw [haccesses]
    exact Access.legal_concat_set h.legal i

theorem MarkerTracks.chmod (h : MarkerTracks cfg found s) {w : World} {k : Fin n}
    (hi : s.phase i = .going cfg .restricting)
    (hlast : Access.lastSet s.accesses = some (k, true))
    (hchmod : s.world.fs.setPermissions cfg.killSwitchPath.resolve 0o600 = .ok w.fs) :
    MarkerTracks cfg found
      (s.record i (.answered (.enforcementState true cfg.killSwitchPath), w)) := by
  have haccesses : (s.record i
      (.answered (.enforcementState true cfg.killSwitchPath), w)).accesses = s.accesses := by
    rw [record_accesses, hi]
    exact List.append_nil _
  refine ⟨fun j hj => ?_, fun j hj => ?_, fun hnone => ?_, fun _ => ?_, ?_⟩
  · rw [haccesses] at hj
    obtain ⟨mode, hnode, hphase⟩ := h.marked j hj
    refine ⟨_, FileSystem.setPermissions_file hnode hchmod, ?_⟩
    by_cases hji : j = i
    · rw [hji, record_phase_self]
      exact Or.inr ⟨rfl, rfl⟩
    · rw [record_phase_ne hji]
      exact hphase.imp id fun hdone => ⟨rfl, hdone.2⟩
  · rw [haccesses, hlast] at hj
    cases hj
  · rw [haccesses, hlast] at hnone
    cases hnone
  · obtain ⟨mode, hnode, -⟩ := h.marked k hlast
    have hdirs := FileSystem.isDir_setPermissions hchmod
    exact FileSystem.find_mono (fun k hk => (hdirs k).trans hk) (h.seen (by simp [hnode]))
  · rw [haccesses]
    exact h.legal

end

end MarkerRace

end Daemon
end Konstantin
