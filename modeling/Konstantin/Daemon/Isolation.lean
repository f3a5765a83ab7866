import Konstantin.Daemon.Enforcement
import Konstantin.Daemon.Freshness

/-!
# Users do not influence each other

Two runs of the daemon that differ in what they know of other users: their
counters, limits and sessions.  One user's connection carries the same bytes in
both, and enforcement decides the same of that user.
-/

namespace Konstantin
namespace Daemon

open Proto Streams

/-! ## What two runs agree on -/

structure Config.SameFor (u : String) (cfg cfg' : Config) : Prop where
  tickSeconds : cfg.tickSeconds = cfg'.tickSeconds
  warnThresholdsMinutes : cfg.warnThresholdsMinutes = cfg'.warnThresholdsMinutes
  defaultPolicy : cfg.defaultPolicy = cfg'.defaultPolicy
  entry : cfg.userByName u = cfg'.userByName u

structure State.SameFor (u : String) (s s' : State) : Prop where
  day : s.day = s'.day
  used : s.used u = s'.used u
  active : u ∈ s.activeNow ↔ u ∈ s'.activeNow

inductive Ticker.SameFor (u : String) : Ticker → Ticker → Prop
  | waiting : SameFor u .waiting .waiting
  | dated {active active' : UserSet} (today : NaiveDate) (hactive : u ∈ active ↔ u ∈ active') :
      SameFor u (.dated active today) (.dated active' today)
  | saving {active active' : UserSet} (today : NaiveDate) {snap snap' : Snapshot}
      (hactive : u ∈ active ↔ u ∈ active') (hsnap : State.SameFor u snap.state snap'.state) :
      SameFor u (.saving active today snap) (.saving active' today snap')
  | sending {active active' : UserSet} (today : NaiveDate) {snap snap' : Snapshot}
      (hactive : u ∈ active ↔ u ∈ active') (hsnap : State.SameFor u snap.state snap'.state) :
      SameFor u (.sending active today snap) (.sending active' today snap')
  | enforcing {active active' : UserSet} (today : NaiveDate) {snap snap' : Snapshot}
      (hactive : u ∈ active ↔ u ∈ active') (hsnap : State.SameFor u snap.state snap'.state) :
      SameFor u (.enforcing active today snap) (.enforcing active' today snap')

inductive Resetter.Same : Resetter → Resetter → Prop
  | sleeping : Same .sleeping .sleeping
  | dated (today : NaiveDate) : Same (.dated today) (.dated today)
  | saving (rolled : Bool) (snap snap' : Snapshot) :
      Same (.saving rolled snap) (.saving rolled snap')
  | sending : Same .sending .sending

structure Process.SameFor (u : String) (p p' : Process) : Prop where
  cfg : Config.SameFor u p.cfg p'.cfg
  state : State.SameFor u p.state p'.state
  ticker : Ticker.SameFor u p.ticker p'.ticker
  resetter : Resetter.Same p.resetter p'.resetter

/-- The same step, but for the other users of the active set. -/
inductive TaskStep.SameFor (u : String) : TaskStep → TaskStep → Prop
  | tickerRead {active active' : UserSet} (today : NaiveDate)
      (hactive : u ∈ active ↔ u ∈ active') :
      SameFor u (.tickerRead active today) (.tickerRead active' today)
  | same (l : TaskStep) : SameFor u l l

/-! ## The operations on the state -/

namespace State.SameFor

variable {u : String} {s s' : State}

theorem resetIfNewDay (h : SameFor u s s') (today : NaiveDate) :
    SameFor u (s.resetIfNewDay today).1 (s'.resetIfNewDay today).1 ∧
      (s.resetIfNewDay today).2 = (s'.resetIfNewDay today).2 := by
  by_cases hday : s.day = some today
  · have hday' : s'.day = some today := h.day ▸ hday
    rw [State.resetIfNewDay_same hday, State.resetIfNewDay_same hday']
    exact ⟨h, rfl⟩
  · have hday' : s'.day ≠ some today := h.day ▸ hday
    rw [State.resetIfNewDay_other hday, State.resetIfNewDay_other hday']
    exact ⟨⟨rfl, rfl, h.active⟩, rfl⟩

theorem tick (h : SameFor u s s') {active active' : UserSet} (hactive : u ∈ active ↔ u ∈ active')
    (deltaSeconds : UInt32) :
    SameFor u (s.tick active deltaSeconds) (s'.tick active' deltaSeconds) where
  day := h.day
  used := by
    rw [State.used_tick, State.used_tick, h.used]
    by_cases hu : u ∈ active
    · rw [if_pos hu, if_pos (hactive.mp hu)]
    · rw [if_neg hu, if_neg fun hu' => hu (hactive.mpr hu')]
  active := hactive

theorem advance (h : SameFor u s s') (today : NaiveDate) {active active' : UserSet}
    (hactive : u ∈ active ↔ u ∈ active') (deltaSeconds : UInt32) :
    SameFor u (s.advance today active deltaSeconds) (s'.advance today active' deltaSeconds) :=
  (h.resetIfNewDay today).1.tick hactive deltaSeconds

end State.SameFor

/-! ## The tasks -/

namespace Process.SameFor

variable {u : String} {p p' : Process}

theorem lockTicker (h : SameFor u p p') {active active' : UserSet} (today : NaiveDate)
    (hactive : u ∈ active ↔ u ∈ active') :
    SameFor u (p.lockTicker active today) (p'.lockTicker active' today) := by
  have hstate : State.SameFor u (p.state.advance today active p.cfg.tickSeconds)
      (p'.state.advance today active' p'.cfg.tickSeconds) := by
    rw [h.cfg.tickSeconds]
    exact h.state.advance today hactive _
  exact ⟨h.cfg, hstate, .saving today hactive hstate, h.resetter⟩

theorem lockResetter (h : SameFor u p p') (today : NaiveDate) :
    SameFor u (p.lockResetter today) (p'.lockResetter today) := by
  obtain ⟨hstate, hrolled⟩ := h.state.resetIfNewDay today
  refine ⟨h.cfg, hstate, h.ticker, ?_⟩
  show Resetter.Same (.saving (p.state.resetIfNewDay today).2 _)
    (.saving (p'.state.resetIfNewDay today).2 _)
  rw [hrolled]
  exact .saving _ _ _

/-- A step is enabled in both processes or in none, and keeps them alike. -/
theorem step (h : SameFor u p p') {l l' : TaskStep} (hl : TaskStep.SameFor u l l') :
    Option.Rel (SameFor u) (p.step l) (p'.step l') := by
  obtain ⟨cfg, state, ticker, resetter, clones, ticks⟩ := p
  obtain ⟨cfg', state', ticker', resetter', clones', ticks'⟩ := p'
  obtain ⟨hcfg, hstate, hticker, hresetter⟩ := h
  cases hl with
  | tickerRead today hactive =>
    cases hticker with
    | waiting => exact .some ⟨hcfg, hstate, .dated today hactive, hresetter⟩
    | _ => exact .none
  | same l =>
    cases l with
    | tickerRead active today =>
      cases hticker with
      | waiting => exact .some ⟨hcfg, hstate, .dated today Iff.rfl, hresetter⟩
      | _ => exact .none
    | tickerLock =>
      cases hticker with
      | dated today hactive =>
        exact .some (lockTicker ⟨hcfg, hstate, .dated today hactive, hresetter⟩ today hactive)
      | _ => exact .none
    | tickerSaved =>
      cases hticker with
      | saving today hactive hsnap =>
        exact .some ⟨hcfg, hstate, .sending today hactive hsnap, hresetter⟩
      | _ => exact .none
    | tickerSent =>
      cases hticker with
      | sending today hactive hsnap =>
        exact .some ⟨hcfg, hstate, .enforcing today hactive hsnap, hresetter⟩
      | _ => exact .none
    | tickerEnforced =>
      cases hticker with
      | enforcing today hactive hsnap => exact .some ⟨hcfg, hstate, .waiting, hresetter⟩
      | _ => exact .none
    | resetterRead today =>
      cases hresetter with
      | sleeping => exact .some ⟨hcfg, hstate, hticker, .dated today⟩
      | _ => exact .none
    | resetterLock =>
      cases hresetter with
      | dated today => exact .some (lockResetter ⟨hcfg, hstate, hticker, .dated today⟩ today)
      | _ => exact .none
    | resetterSaved =>
      cases hresetter with
      | saving rolled snap snap' =>
        cases rolled with
        | true => exact .some ⟨hcfg, hstate, hticker, .sending⟩
        | false => exact .some ⟨hcfg, hstate, hticker, .sleeping⟩
      | _ => exact .none
    | resetterSent =>
      cases hresetter with
      | sending => exact .some ⟨hcfg, hstate, hticker, .sleeping⟩
      | _ => exact .none

end Process.SameFor

/-! ## The connection -/

namespace Connection

theorem username_pollRead (codec : Codec Request) (c : Connection)
    {handle : Connection → Except FrameError Request → Connection}
    (h : ∀ d result, (handle d result).username = d.username) :
    (c.pollRead codec handle).username = c.username := by
  rcases c.pollRead_cases codec handle with ⟨r, rest, heq⟩ | ⟨result, rest, heq⟩
  · rw [heq]
  · rw [heq, h]

theorem username_ignore (c : Connection) (result : Except FrameError Request) :
    (c.ignore result).username = c.username := by
  unfold ignore
  split <;> rfl

theorem username_serve (channel : Channel) (c : Connection)
    (result : Except FrameError Request) : (c.serve channel result).username = c.username := by
  unfold serve
  split <;> rfl

theorem username_poll {codec : Codec Request} {channel : Channel} {c d : Connection}
    (h : c.poll codec channel = some d) : d.username = c.username := by
  unfold poll at h
  split at h
  · cases h
    exact username_pollRead codec c (username_serve channel)
  · cases h
    rcases c.select_cases codec channel with ⟨-, heq⟩ | ⟨-, heq⟩ | ⟨-, heq⟩
    · rw [heq]
      exact username_pollRead codec c username_ignore
    · rw [heq]
    · rw [heq]
  · cases h

theorem username_compute {cfg : Config} {s : State} {resetsAt : Int} {c d : Connection}
    (h : c.compute cfg s resetsAt = some d) : d.username = c.username := by
  rcases compute_eq_some h with ⟨-, response, rfl⟩ | ⟨-, rfl⟩ <;> rfl

theorem username_written {c d : Connection} (h : c.written = some d) :
    d.username = c.username := by
  obtain ⟨subscribed, response, -, rfl⟩ := written_eq_some h
  cases subscribed <;> rfl

end Connection

theorem computeStatus_same {u : String} {cfg cfg' : Config} {s s' : State}
    (hcfg : Config.SameFor u cfg cfg') (hs : State.SameFor u s s') (uid : UInt32)
    (resetsAt : Int) :
    computeStatus u uid cfg s resetsAt = computeStatus u uid cfg' s' resetsAt := by
  have hactive : s.isActive u = s'.isActive u := decide_eq_decide.mpr hs.active
  have hsession : sessionState cfg u (s.used u) (s.isActive u) =
      sessionState cfg' u (s'.used u) (s'.isActive u) := by
    rw [sessionState, sessionState, hcfg.entry, hs.used, hactive]
  unfold computeStatus
  dsimp only
  rw [hsession, hs.used, hcfg.warnThresholdsMinutes]

theorem compute_same {cfg cfg' : Config} {s s' : State} {c : Connection}
    (hcfg : Config.SameFor c.username cfg cfg') (hs : State.SameFor c.username s s')
    (resetsAt : Int) : c.compute cfg s resetsAt = c.compute cfg' s' resetsAt := by
  rw [Connection.compute, Connection.compute, computeStatus_same hcfg hs]

theorem decide_same {u : String} {cfg cfg' : Config} (hcfg : Config.SameFor u cfg cfg')
    (used : UInt32) (lastKicked : Option Nat) (now : Nat) :
    Enforcement.decide cfg u used lastKicked now =
      Enforcement.decide cfg' u used lastKicked now := by
  have hwanted : Enforcement.wanted cfg u used = Enforcement.wanted cfg' u used := by
    rw [Enforcement.wanted, Enforcement.wanted, hcfg.entry, hcfg.defaultPolicy]
  cases lastKicked with
  | none => exact hwanted
  | some t =>
    show (if now - t < bootoutBackoff then _ else _) = if now - t < bootoutBackoff then _ else _
    rw [hwanted]

/-! ## Whole runs -/

/-- The same step, with the user's own requests. -/
inductive PushStep.SameFor (u : String) : PushStep → PushStep → Prop
  | task {l l' : TaskStep} (hl : TaskStep.SameFor u l l') : SameFor u (.task l) (.task l')
  | connect (uid : UInt32) : SameFor u (.connect u uid) (.connect u uid)
  | arrive (bytes : List UInt8) : SameFor u (.arrive bytes) (.arrive bytes)
  | hangUp : SameFor u .hangUp .hangUp
  | poll : SameFor u .poll .poll
  | compute (resetsAt : Int) : SameFor u (.compute resetsAt) (.compute resetsAt)
  | written : SameFor u .written .written
  | writeFailed : SameFor u .writeFailed .writeFailed

structure Pushing.SameFor (u : String) (p p' : Pushing) : Prop where
  process : Process.SameFor u p.process p'.process
  channel : p.channel = p'.channel
  connection : p.connection = p'.connection
  user : ∀ c, p.connection = some c → c.username = u

namespace Pushing.SameFor

variable {u : String} {p p' : Pushing}

theorem onConnection (h : SameFor u p p') {f f' : Connection → Option Connection}
    (hf : ∀ c, p.connection = some c → f c = f' c)
    (huser : ∀ c d, f c = some d → d.username = c.username) :
    Option.Rel (SameFor u) (p.onConnection f) (p'.onConnection f') := by
  unfold Pushing.onConnection
  rw [← h.connection]
  cases hc : p.connection with
  | none => exact .none
  | some c =>
    rw [Option.bind_some, Option.bind_some, ← hf c hc]
    cases hd : f c with
    | none => exact .none
    | some d =>
      refine .some ⟨h.process, h.channel, rfl, fun e he => ?_⟩
      cases he
      exact (huser c d hd).trans (h.user c hc)

theorem step (codec : Codec Request) (h : SameFor u p p') {l l' : PushStep}
    (hl : PushStep.SameFor u l l') :
    Option.Rel (SameFor u) (p.step codec l) (p'.step codec l') := by
  cases hl with
  | @task l l' hl =>
    have hwakes : l.wakes = l'.wakes := by cases hl <;> rfl
    have hnext := h.process.step hl
    unfold Pushing.step
    dsimp only
    rw [← hwakes, ← h.channel]
    generalize p.process.step l = next at hnext ⊢
    generalize p'.process.step l' = next' at hnext ⊢
    cases hnext with
    | some hprocess => exact .some ⟨hprocess, rfl, h.connection, h.user⟩
    | none => exact .none
  | connect uid =>
    unfold Pushing.step
    dsimp only
    rw [← h.connection]
    split
    · refine .some ⟨h.process, h.channel, rfl, fun c hc => ?_⟩
      cases hc
      rfl
    · exact .none
  | arrive bytes =>
    refine h.onConnection (fun _ _ => rfl) fun c d hd => ?_
    split at hd <;> cases hd
    rfl
  | hangUp =>
    refine h.onConnection (fun _ _ => rfl) fun c d hd => ?_
    cases hd
    rfl
  | poll =>
    refine h.onConnection (fun c _ => ?_) fun c d hd => Connection.username_poll hd
    rw [h.channel]
  | compute resetsAt =>
    refine h.onConnection (fun c hc => ?_) fun c d hd => Connection.username_compute hd
    obtain rfl := h.user c hc
    exact compute_same h.process.cfg h.process.state resetsAt
  | written => exact h.onConnection (fun _ _ => rfl) fun c d hd => Connection.username_written hd
  | writeFailed =>
    refine h.onConnection (fun _ _ => rfl) fun c d hd => ?_
    rw [Connection.writeFailed_eq_some hd]

end Pushing.SameFor

/-- Nothing of the user differs: what the connection has written and read so far,
and what is decided of the user, from the counters as they are and from the
snapshot that is being enforced. -/
structure Indistinguishable (u : String) (p p' : Pushing) : Prop where
  connection : p.connection = p'.connection
  decided : ∀ lastKicked now,
    Enforcement.decide p.process.cfg u (p.process.state.used u) lastKicked now =
      Enforcement.decide p'.process.cfg u (p'.process.state.used u) lastKicked now
  enforced : ∀ active active' today today' snap snap' lastKicked now,
    p.process.ticker = .enforcing active today snap →
    p'.process.ticker = .enforcing active' today' snap' →
    Enforcement.decide p.process.cfg u (snap.state.used u) lastKicked now =
      Enforcement.decide p'.process.cfg u (snap'.state.used u) lastKicked now

theorem Pushing.SameFor.indistinguishable {u : String} {p p' : Pushing} (h : SameFor u p p') :
    Indistinguishable u p p' where
  connection := h.connection
  decided := by
    intro lastKicked now
    rw [h.process.state.used]
    exact decide_same h.process.cfg _ lastKicked now
  enforced := by
    intro active active' today today' snap snap' lastKicked now hticker hticker'
    have hsame := h.process.ticker
    rw [hticker, hticker'] at hsame
    cases hsame with
    | enforcing _ _ hsnap =>
      rw [hsnap.used]
      exact decide_same h.process.cfg _ lastKicked now

/-- Two runs that differ in other users only give one user the same answers and
the same decisions. -/
theorem isolated (codec : Codec Request) {u : String} {cfg cfg' : Config}
    {loaded loaded' : State} {initial initial' : UserSet} {ls ls' : List PushStep}
    (hcfg : Config.SameFor u cfg cfg') (hday : loaded.day = loaded'.day)
    (hused : loaded.used u = loaded'.used u) (hinitial : u ∈ initial ↔ u ∈ initial')
    (hsteps : List.Forall₂ (PushStep.SameFor u) ls ls') (today : NaiveDate) :
    Option.Rel (Indistinguishable u)
      (Transition.exec (Pushing.step codec) (Pushing.start cfg loaded today initial) ls)
      (Transition.exec (Pushing.step codec) (Pushing.start cfg' loaded' today initial') ls') := by
  have hstate : State.SameFor u
      { (loaded.resetIfNewDay today).1 with activeNow := initial }
      { (loaded'.resetIfNewDay today).1 with activeNow := initial' } := by
    refine ⟨?_, ?_, hinitial⟩
    · show (loaded.resetIfNewDay today).1.day = (loaded'.resetIfNewDay today).1.day
      rw [State.resetIfNewDay_day, State.resetIfNewDay_day]
    · show (loaded.resetIfNewDay today).1.used u = (loaded'.resetIfNewDay today).1.used u
      rw [State.used_resetIfNewDay, State.used_resetIfNewDay, hday, hused]
  have hstart : Pushing.SameFor u (Pushing.start cfg loaded today initial)
      (Pushing.start cfg' loaded' today initial') :=
    ⟨⟨hcfg, hstate, .waiting, .sleeping⟩, rfl, rfl, fun c hc => by cases hc⟩
  have hrun := Transition.exec_rel (fun p p' l l' h hl => h.step codec hl) hsteps hstart
  generalize Transition.exec (Pushing.step codec) (Pushing.start cfg loaded today initial) ls = r
    at hrun ⊢
  generalize Transition.exec (Pushing.step codec) (Pushing.start cfg' loaded' today initial') ls'
    = r' at hrun ⊢
  cases hrun with
  | some h => exact .some h.indistinguishable
  | none => exact .none

/-! ## A run with a second user -/

def oneUser : Config := { Config.defaults with users := List.toAList [⟨"alice", ⟨1⟩⟩] }

def twoUsers : Config :=
  { Config.defaults with users := List.toAList [⟨"bob", ⟨30⟩⟩, ⟨"alice", ⟨1⟩⟩] }

def both : UserSet := ⟨["bob", "alice"], by decide⟩

def aloneSteps (active : UserSet) : List PushStep :=
  [.connect "alice" 501, .arrive (frame getStatusText), .poll,
    .task (.tickerRead active 1), .task .tickerLock, .compute 86400, .written]

theorem isolated_alice :
    Option.Rel (Indistinguishable "alice")
      (Transition.exec (Pushing.step sampleCodec) (Pushing.start oneUser .fresh 0 ∅)
        (aloneSteps {"alice"}))
      (Transition.exec (Pushing.step sampleCodec) (Pushing.start twoUsers .fresh 0 {"bob"})
        (aloneSteps both)) := by
  have hcfg : Config.SameFor "alice" oneUser twoUsers := ⟨rfl, rfl, rfl, by decide +kernel⟩
  have hinitial : "alice" ∈ (∅ : UserSet) ↔ "alice" ∈ ({"bob"} : UserSet) := by decide
  have hactive : "alice" ∈ ({"alice"} : UserSet) ↔ "alice" ∈ both := by decide
  refine isolated sampleCodec hcfg rfl rfl hinitial ?_ 0
  exact .cons (.connect 501) (.cons (.arrive _) (.cons .poll
    (.cons (.task (.tickerRead 1 hactive)) (.cons (.task (.same _)) (.cons (.compute 86400)
      (.cons .written .nil))))))

end Daemon
end Konstantin
