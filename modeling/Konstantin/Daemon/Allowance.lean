import Konstantin.Daemon.Status

/-!
# When counters are given back

The startup, the ticks and the midnight resets of the daemon one after another,
on any dates: a clock or a zone that is changed moves the date either way.  Each
of them starts from a state, the one in the state file or the one in memory, and
rolls that state over to its date.

`Lineage` keeps the states the current counters came from, so that a law can
compare the counters of a date with all that were counted on it before.
-/

namespace Konstantin
namespace Daemon

structure Lineage where
  current : State
  past : List State

namespace Lineage

def extend (g : Lineage) (s : State) : Lineage := ⟨s, g.current :: g.past⟩

/-- What a save leaves in the state file. -/
def saved (g : Lineage) : Lineage := { g with current := g.current.persisted }

/-- No state of the past is of a later day, and those of the same day have
counted no more. -/
def Grown (g : Lineage) : Prop :=
  ∀ s ∈ g.past, (∀ d, s.day = some d → ∃ e, g.current.day = some e ∧ d ≤ e) ∧
    (s.day = g.current.day → ∀ u, s.used u ≤ g.current.used u)

theorem grown_saved {g : Lineage} (h : Grown g) : Grown g.saved := h

theorem grown_extend {g : Lineage} (h : Grown g) {s : State}
    (hday : ∀ d, g.current.day = some d → ∃ e, s.day = some e ∧ d ≤ e)
    (hused : g.current.day = s.day → ∀ u, g.current.used u ≤ s.used u) : Grown (g.extend s) := by
  intro r hr
  rcases List.mem_cons.mp hr with rfl | hpast
  · exact ⟨hday, hused⟩
  · obtain ⟨hle, hcount⟩ := h r hpast
    constructor
    · intro d hd
      obtain ⟨e, he, hde⟩ := hle d hd
      obtain ⟨f, hf, hef⟩ := hday e he
      exact ⟨f, hf, Int.le_trans hde hef⟩
    · intro (hsame : r.day = s.day) u
      have hbetween : r.day = g.current.day := by
        cases hr : r.day with
        | none =>
          cases hc : g.current.day with
          | none => rfl
          | some e =>
            obtain ⟨f, hf, -⟩ := hday e hc
            rw [← hsame, hr] at hf
            cases hf
        | some d =>
          obtain ⟨e, he, hde⟩ := hle d hr
          obtain ⟨f, hf, hef⟩ := hday e he
          rw [← hsame, hr] at hf
          cases hf
          rw [he, Int.le_antisymm hde hef]
      have hfirst := hcount hbetween u
      have hsecond := hused (hbetween ▸ hsame) u
      exact UInt32.le_trans hfirst hsecond

end Lineage

/-- The state file, and the configuration and the state of a running daemon. -/
structure Sequential where
  file : Lineage
  memory : Option (Config × Lineage)

inductive Event where
  | startup (cfg : Config) (today : NaiveDate) (initial : UserSet)
  | tick (today : NaiveDate) (active : UserSet) (saved : Bool)
  | midnight (today : NaiveDate) (saved : Bool)

def Event.today : Event → NaiveDate
  | .startup _ today _ => today
  | .tick today _ _ => today
  | .midnight today _ => today

namespace Sequential

def initial (file : State) : Sequential := { file := ⟨file, []⟩, memory := none }

/-- A daemon goes on with `s`, and saves it or fails to. -/
def proceed (q : Sequential) (cfg : Config) (g : Lineage) (s : State) (saved : Bool) :
    Sequential where
  file := if saved then (g.extend s).saved else q.file
  memory := some (cfg, g.extend s)

def step (q : Sequential) : Event → Option Sequential
  | .startup cfg today initial =>
    some { q with
      memory := some (cfg,
        q.file.extend { (q.file.current.resetIfNewDay today).1 with activeNow := initial }) }
  | .tick today active saved =>
    q.memory.map fun (cfg, g) =>
      q.proceed cfg g (g.current.advance today active cfg.tickSeconds) saved
  | .midnight today saved =>
    q.memory.map fun (cfg, g) => q.proceed cfg g (g.current.resetIfNewDay today).1 saved

def base (q : Sequential) : Event → Option State
  | .startup .. => some q.file.current
  | _ => q.memory.map fun m => m.2.current

/-- Counters are cleared for a later date only; on a date they have ever counted
they stand where they stood or higher, so that whoever had reached a limit on
that date still has. -/
def GivesBackLater (q : Sequential) (e : Event) (q' : Sequential) : Prop :=
  (∀ s, q.base e = some s → (s.resetIfNewDay e.today).2 = true →
      ∀ d, s.day = some d → d < e.today) ∧
    ∀ cfg g, q'.memory = some (cfg, g) → ∀ s ∈ g.past, s.day = g.current.day →
      (∀ u, s.used u ≤ g.current.used u) ∧
        ∀ limits u active active',
          (sessionState limits u (s.used u) active).1 = .limitReached →
            (sessionState limits u (g.current.used u) active').1 = .limitReached

/-- The date is not before the day of the state, and the seconds a tick adds to
that day still fit. -/
def InOrder (q : Sequential) (e : Event) (_ : Sequential) : Prop :=
  (∀ s d, q.base e = some s → s.day = some d → d ≤ e.today) ∧
    match e with
    | .tick today active _ =>
      ∀ cfg g, q.memory = some (cfg, g) → g.current.day = some today →
        ∀ u ∈ active, (g.current.used u).toNat + cfg.tickSeconds.toNat < 2 ^ 32
    | _ => True

/-! ## One rollover, one tick -/

theorem rolled_iff (s : State) (today : NaiveDate) :
    (s.resetIfNewDay today).2 = true ↔ s.day ≠ some today := by
  by_cases h : s.day = some today
  · simp [State.resetIfNewDay_same h, h]
  · simp [State.resetIfNewDay_other h, h]

theorem le_add_iff (a b : UInt32) : a ≤ a + b ↔ a.toNat + b.toNat < 2 ^ 32 := by
  have ha := a.toNat_lt
  have hb := b.toNat_lt
  rw [UInt32.le_iff_toNat_le, UInt32.toNat_add]
  omega

theorem used_reset_le {s : State} {today : NaiveDate} (h : s.day = some today) (u : String) :
    s.used u ≤ (s.resetIfNewDay today).1.used u := by
  rw [State.resetIfNewDay_same h]
  exact UInt32.le_refl _

theorem used_advance {s : State} {today : NaiveDate} (h : s.day = some today) (active : UserSet)
    (seconds : UInt32) (u : String) :
    (s.advance today active seconds).used u =
      if u ∈ active then s.used u + seconds else s.used u := by
  rw [State.advance, State.resetIfNewDay_same h, State.used_tick]

def AllGrown (q : Sequential) : Prop :=
  q.file.Grown ∧ ∀ cfg g, q.memory = some (cfg, g) → g.Grown

theorem allGrown_initial (file : State) : AllGrown (initial file) := by
  constructor
  · intro s hs
    cases hs
  · intro cfg g hg
    cases hg

theorem allGrown_proceed {q : Sequential} {cfg : Config} {g : Lineage} {s : State}
    (h : AllGrown q) (hg : (g.extend s).Grown) (saved : Bool) :
    AllGrown (q.proceed cfg g s saved) := by
  constructor
  · cases saved with
    | true => exact Lineage.grown_saved hg
    | false => exact h.1
  · intro cfg' g' hg'
    cases hg'
    exact hg

theorem grown_reset {g : Lineage} (h : g.Grown) {today : NaiveDate}
    (hle : ∀ d, g.current.day = some d → d ≤ today) (active : UserSet) :
    (g.extend { (g.current.resetIfNewDay today).1 with activeNow := active }).Grown := by
  have hday := State.resetIfNewDay_day g.current today
  refine Lineage.grown_extend h (fun d hd => ⟨today, hday, hle d hd⟩) ?_
  intro hsame u
  have hcur : g.current.day = some today := hsame.trans hday
  exact used_reset_le hcur u

theorem grown_advance {g : Lineage} (h : g.Grown) {today : NaiveDate}
    (hle : ∀ d, g.current.day = some d → d ≤ today) {active : UserSet} {seconds : UInt32}
    (hfits : g.current.day = some today → ∀ u ∈ active,
      (g.current.used u).toNat + seconds.toNat < 2 ^ 32) :
    (g.extend (g.current.advance today active seconds)).Grown := by
  have hday := State.advance_day g.current today active seconds
  refine Lineage.grown_extend h (fun d hd => ⟨today, hday, hle d hd⟩) ?_
  intro hsame u
  have hcur : g.current.day = some today := hsame.trans hday
  rw [used_advance hcur]
  by_cases hu : u ∈ active
  · rw [if_pos hu]
    exact (le_add_iff _ _).mpr (hfits hcur u hu)
  · rw [if_neg hu]
    exact UInt32.le_refl _

theorem allGrown_step {q q' : Sequential} {e : Event} (h : AllGrown q)
    (hstep : q.step e = some q') (hg : InOrder q e q') : AllGrown q' := by
  cases e with
  | startup cfg today initial =>
    cases hstep
    refine ⟨h.1, fun cfg' g hm => ?_⟩
    cases hm
    exact grown_reset h.1 (fun d hd => hg.1 _ d rfl hd) initial
  | tick today active saved =>
    obtain ⟨⟨cfg, g⟩, hm, rfl⟩ := Option.map_eq_some_iff.mp hstep
    refine allGrown_proceed h (grown_advance (h.2 cfg g hm) ?_ ?_) saved
    · intro d hd
      exact hg.1 g.current d (by simp only [base, hm, Option.map_some]) hd
    · exact fun hcur u hu => hg.2 cfg g hm hcur u hu
  | midnight today saved =>
    obtain ⟨⟨cfg, g⟩, hm, rfl⟩ := Option.map_eq_some_iff.mp hstep
    refine allGrown_proceed h ?_ saved
    refine grown_reset (h.2 cfg g hm) (fun d hd => ?_) (g.current.resetIfNewDay today).1.activeNow
    exact hg.1 g.current d (by simp only [base, hm, Option.map_some]) hd

theorem givesBackLater_of_inOrder {q q' : Sequential} {e : Event} (h : AllGrown q)
    (hstep : q.step e = some q') (hg : InOrder q e q') : GivesBackLater q e q' := by
  constructor
  · intro s hs hrolled d hd
    have hle : d ≤ e.today := hg.1 s d hs hd
    have hne : d ≠ e.today := by
      intro heq
      exact (rolled_iff s e.today).mp hrolled (heq ▸ hd)
    exact Int.lt_iff_le_and_ne.mpr ⟨hle, hne⟩
  · intro cfg g hm s hs hday
    have hused := ((allGrown_step h hstep hg).2 cfg g hm s hs).2 hday
    exact ⟨hused, fun limits u active active' => sessionState_limitReached_mono (hused u)⟩

theorem inOrder_of_givesBackLater {q q' : Sequential} {e : Event}
    (hstep : q.step e = some q') (hp : GivesBackLater q e q') : InOrder q e q' := by
  constructor
  · intro s d hs hd
    by_cases hsame : s.day = some e.today
    · have heq : d = e.today := Option.some.inj (hd.symm.trans hsame)
      exact heq ▸ Int.le_refl d
    · exact Int.le_of_lt (hp.1 s hs ((rolled_iff s e.today).mpr hsame) d hd)
  · cases e with
    | startup => trivial
    | midnight => trivial
    | tick today active saved =>
      intro cfg g hm hcur u hu
      obtain ⟨m, hm', rfl⟩ := Option.map_eq_some_iff.mp hstep
      rw [hm] at hm'
      cases hm'
      have hsame : g.current.day = (g.current.advance today active cfg.tickSeconds).day :=
        hcur.trans (State.advance_day g.current today active cfg.tickSeconds).symm
      have hle := (hp.2 cfg _ rfl g.current List.mem_cons_self hsame).1 u
      rw [← le_add_iff]
      have hnew : (g.current.advance today active cfg.tickSeconds).used u = _ :=
        used_advance hcur active cfg.tickSeconds u
      rw [if_pos hu] at hnew
      exact hnew ▸ hle

/-- A run gives counters back only for later days exactly when its dates are in
order. -/
theorem givesBackLater_iff_inOrder (file : State) (es : List Event) :
    Transition.Along step GivesBackLater (initial file) es ↔
      Transition.Along step InOrder (initial file) es := by
  symm
  refine Transition.along_iff (I := AllGrown) ?_ ?_ es (allGrown_initial file)
  · intro q e q' hstep h
    exact ⟨givesBackLater_of_inOrder h hstep, inOrder_of_givesBackLater hstep⟩
  · exact fun q e q' hstep h hg => allGrown_step h hstep hg

/-- The date is moved back by one day: the tick on the earlier date clears what
was counted on the later one. -/
theorem givesBackLater_fails :
    ¬ ∀ (file : State) (es : List Event),
      Transition.Along step GivesBackLater (initial file) es := by
  intro h
  have hrun := h .fresh ([.startup .defaults 2 {"alice"}, .tick 2 {"alice"} true] ++
    .tick 1 {"alice"} true :: [])
  have hlast := Transition.along_at hrun rfl rfl
  have hback : (2 : Int) < 1 := hlast.1 _ rfl rfl 2 rfl
  omega

end Sequential

end Daemon
end Konstantin
