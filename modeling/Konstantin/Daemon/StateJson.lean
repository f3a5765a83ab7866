import Konstantin.Daemon.Isolation
import Konstantin.Proto.StatusJson

/-!
# The state file

The derived encoding of `State` in `crates/daemon/src/state.rs`, and `State::load` from
the bytes of the file on.  A `HashMap` is written in the order in which it is iterated,
which is another one in every process, so a state that is read back is not the same
value; the daemon that starts on it cannot be told from one that kept the state.
-/

namespace Konstantin
namespace Daemon

open Json Text

namespace State

/-- A `NaiveDate` as `chrono` writes and reads it. -/
structure DayText where
  toText : NaiveDate → String
  parse : String → Option NaiveDate
  reads : ∀ d, parse (toText d) = some d

/-- An entry of `counters`. -/
abbrev Entry := Sigma fun _ : String => UInt32

def ofDay (days : DayText) : Option NaiveDate → Value
  | none => .null
  | some d => .string (days.toText d)

/-- `active_now` is skipped. -/
def members (days : DayText) (day : Option NaiveDate) (entries : List Entry) :
    List (String × Value) :=
  [("day", ofDay days day),
    ("counters", .object (entries.map fun e => (e.1, .unsigned e.2.toNat)))]

def asDay (days : DayText) : Value → Option (Option NaiveDate)
  | .null => some none
  | .string s => (days.parse s).map some
  | _ => none

/-- Of a name that stands there twice the last number counts. -/
def asCounters : Value → Option (AList fun _ : String => UInt32)
  | .object members => members.foldlM
      (fun counters m => (Proto.asU32 m.2).map fun n => counters.insert m.1 n) ∅
  | _ => none

/-- The names the state is read from. -/
def names : List String := ["day", "counters"]

/-- An `Option` may be missing from an object, and has to stand in an array. -/
def fields : Value → Option (Value × Value)
  | .object ms => do return (← memberOr ms "day" .null, ← memberOr ms "counters" (.object []))
  | .array [day] => some (day, .object [])
  | .array [day, counters] => some (day, counters)
  | _ => none

def deserialize (days : DayText) (v : Value) : Option State := do
  let (day, counters) ← fields v
  return { day := ← asDay days day, counters := ← asCounters counters, activeNow := ∅ }

/-- `serde_json::from_slice`. -/
def fromSlice (days : DayText) (json : Json.Codec) (bytes : List UInt8) : Option State :=
  (fromUtf8 bytes).bind fun cs => (json.parse (String.ofList cs)).bind (deserialize days)

/-- `State::load`, of what could be read of the file. -/
def loadFile (days : DayText) (json : Json.Codec) (file : Option (List UInt8)) : State :=
  (file.bind (fromSlice days json)).getD fresh

/-! ## What is read back -/

theorem insert_entries {l : List Entry} (hl : l.NodupKeys)
    (counters : AList fun _ : String => UInt32) :
    ∃ read, (l.map fun e => (e.1, Value.unsigned e.2.toNat)).foldlM
        (fun counters m => (Proto.asU32 m.2).map fun n => counters.insert m.1 n) counters =
          some read ∧
      ∀ u, read.lookup u = (l.dlookup u).or (counters.lookup u) := by
  induction l generalizing counters with
  | nil => exact ⟨counters, rfl, fun u => rfl⟩
  | cons e l ih =>
    obtain ⟨name, n⟩ := e
    rw [List.nodupKeys_cons] at hl
    obtain ⟨read, hread, hlookup⟩ := ih hl.2 (counters.insert name n)
    refine ⟨read, ?_, fun u => ?_⟩
    · rw [List.map_cons, List.foldlM_cons, Proto.asU32_unsigned]
      exact hread
    · rw [hlookup]
      by_cases hu : u = name
      · subst hu
        rw [List.dlookup_eq_none.mpr hl.1, List.dlookup_cons_eq, AList.lookup_insert]
        rfl
      · rw [List.dlookup_cons_ne l _ hu, AList.lookup_insert_ne hu]

/-- Whatever the order of the entries, every name has its number again. -/
theorem asCounters_entries {counters : AList fun _ : String => UInt32} {entries : List Entry}
    (h : entries.Perm counters.entries) :
    ∃ read, asCounters (.object (entries.map fun e => (e.1, .unsigned e.2.toNat))) = some read ∧
      ∀ u, read.lookup u = counters.lookup u := by
  have hkeys : entries.NodupKeys := (List.perm_nodupKeys h).mpr counters.nodupKeys
  obtain ⟨read, hread, hlookup⟩ := insert_entries hkeys ∅
  refine ⟨read, hread, fun u => ?_⟩
  rw [hlookup, List.perm_dlookup u hkeys h, AList.lookup_empty, Option.or_none]
  rfl

theorem asDay_ofDay (days : DayText) (day : Option NaiveDate) :
    asDay days (ofDay days day) = some day := by
  cases day with
  | none => rfl
  | some d =>
    show (days.parse (days.toText d)).map some = some (some d)
    rw [days.reads]
    rfl

theorem fields_agree {ms ms' : List (String × Value)} (h : Agree names ms ms') :
    fields (.object ms) = fields (.object ms') := by
  unfold fields
  dsimp only
  rw [memberOr_agree h List.mem_cons_self, memberOr_agree h (List.mem_cons_of_mem _
    (List.mem_singleton_self "counters"))]

/-- The day and the counters are those that were written, and nobody is active. -/
theorem deserialize_members (days : DayText) {s : State} {entries : List Entry}
    {ms : List (String × Value)} (hentries : entries.Perm s.counters.entries)
    (hms : Agree names (members days s.day entries) ms) :
    ∃ t, deserialize days (.object ms) = some t ∧ t.day = s.day ∧ ∀ u, t.used u = s.used u := by
  obtain ⟨read, hread, hlookup⟩ := asCounters_entries hentries
  refine ⟨{ day := s.day, counters := read, activeNow := ∅ }, ?_, rfl, fun u => ?_⟩
  · have hfields : fields (.object ms) = some (ofDay days s.day,
        .object (entries.map fun e => (e.1, .unsigned e.2.toNat))) := fields_agree hms ▸ rfl
    unfold deserialize
    rw [hfields]
    simp only [Option.bind_eq_bind, Option.bind_some, asDay_ofDay, hread]
    rfl
  · show (read.lookup u).getD 0 = s.used u
    rw [hlookup]
    rfl

theorem activeNow_loadFile (days : DayText) (json : Json.Codec) (file : Option (List UInt8)) :
    (loadFile days json file).activeNow = ∅ := by
  unfold loadFile
  cases hread : file.bind (fromSlice days json) with
  | none => rfl
  | some s =>
    obtain ⟨bytes, -, hbytes⟩ := Option.bind_eq_some_iff.mp hread
    obtain ⟨cs, -, hcs⟩ := Option.bind_eq_some_iff.mp hbytes
    obtain ⟨v, -, hv⟩ := Option.bind_eq_some_iff.mp hcs
    simp only [deserialize, Option.bind_eq_bind, Option.bind_eq_some_iff] at hv
    obtain ⟨⟨day, counters⟩, -, day', -, counters', -, hs⟩ := hv
    cases hs
    rfl

/-- What is loaded from a file that holds the members of the state. -/
theorem loadFile_members (days : DayText) {json : Json.Codec} {s : State} {entries : List Entry}
    {ms : List (String × Value)} (hentries : entries.Perm s.counters.entries)
    (hms : Agree names (members days s.day entries) ms) (hjson : json.Faithful (.object ms)) :
    (loadFile days json (some (utf8 (json.print (.object ms)).toList))).day = s.day ∧
      ∀ u, (loadFile days json (some (utf8 (json.print (.object ms)).toList))).used u =
        s.used u := by
  obtain ⟨t, hread, hday, hused⟩ := deserialize_members days hentries hms
  have hload : loadFile days json (some (utf8 (json.print (.object ms)).toList)) = t := by
    rw [loadFile, Option.bind_some, fromSlice, fromUtf8_utf8, Option.bind_some,
      String.ofList_toList, hjson.1, Option.bind_some, hread, Option.getD_some]
  rw [hload]
  exact ⟨hday, hused⟩

end State

/-! ## The daemon that starts on the file -/

theorem PushStep.sameFor_self {u : String} {l : PushStep}
    (h : ∀ v uid, l = .connect v uid → v = u) : PushStep.SameFor u l l := by
  cases l with
  | task l => exact .task (.same l)
  | connect v uid =>
    obtain rfl := h v uid rfl
    exact .connect uid
  | arrive bytes => exact .arrive bytes
  | hangUp => exact .hangUp
  | poll => exact .poll
  | compute resetsAt => exact .compute resetsAt
  | written => exact .written
  | writeFailed => exact .writeFailed

theorem Process.sameFor_start {s t : State} (hday : t.day = s.day) {u : String}
    (hused : t.used u = s.used u) (cfg : Config) (today : NaiveDate) (initial : UserSet) :
    Process.SameFor u (.start cfg t today initial) (.start cfg s today initial) := by
  have hstate : State.SameFor u { (t.resetIfNewDay today).1 with activeNow := initial }
      { (s.resetIfNewDay today).1 with activeNow := initial } := by
    refine ⟨?_, ?_, Iff.rfl⟩
    · show (t.resetIfNewDay today).1.day = (s.resetIfNewDay today).1.day
      rw [State.resetIfNewDay_day, State.resetIfNewDay_day]
    · show (t.resetIfNewDay today).1.used u = (s.resetIfNewDay today).1.used u
      rw [State.used_resetIfNewDay, State.used_resetIfNewDay, hday, hused]
  exact ⟨⟨rfl, rfl, rfl, rfl⟩, hstate, .waiting, .sleeping⟩

/-- The counters may be written in any order, and other members may stand around them: to
every user the daemon that starts on the file answers, in any interleaving of its tasks with
the connection, what one that had the state itself answers, and it decides the same.
Whatever the file holds, nobody is active after it was read. -/
theorem restart_indistinguishable (codec : Proto.Codec Request) (days : State.DayText)
    {json : Json.Codec} {s : State} {entries : List State.Entry} {ms : List (String × Value)}
    (hentries : entries.Perm s.counters.entries)
    (hms : Agree State.names (State.members days s.day entries) ms)
    (hjson : json.Faithful (.object ms)) {u : String} {ls : List PushStep}
    (hown : ∀ v uid, PushStep.connect v uid ∈ ls → v = u) (cfg : Config) (today : NaiveDate)
    (initial : UserSet) :
    Option.Rel (Indistinguishable u)
        (Transition.exec (Pushing.step codec) (Pushing.start cfg
          (State.loadFile days json (some (utf8 (json.print (.object ms)).toList))) today
          initial) ls)
        (Transition.exec (Pushing.step codec) (Pushing.start cfg s today initial) ls) ∧
      ∀ file, (State.loadFile days json file).activeNow = ∅ := by
  refine ⟨?_, State.activeNow_loadFile days json⟩
  obtain ⟨hday, hused⟩ := State.loadFile_members days hentries hms hjson
  have hstart : Pushing.SameFor u (Pushing.start cfg
      (State.loadFile days json (some (utf8 (json.print (.object ms)).toList))) today initial)
      (Pushing.start cfg s today initial) :=
    ⟨Process.sameFor_start hday (hused u) cfg today initial, rfl, rfl, fun c hc => by cases hc⟩
  have hsteps : List.Forall₂ (PushStep.SameFor u) ls ls :=
    List.forall₂_same.mpr fun l hl => PushStep.sameFor_self fun v uid heq =>
      hown v uid (heq ▸ hl)
  have hrun := Transition.exec_rel (fun p p' l l' h hl => h.step codec hl) hsteps hstart
  exact Transition.rel_imp (fun p p' h => h.indistinguishable) hrun

/-! ## A file of two users -/

def saved : State where
  day := some 20569
  counters := List.toAList [⟨"alice", 42⟩, ⟨"bob", 7⟩]
  activeNow := {"bob"}

/-- Days since 1970, with the text of the one day that is written out here. -/
def savedDays : State.DayText where
  toText d := if d = 20569 then "2026-04-26" else Proto.plainDates.toRfc3339 d
  parse text := if text = "2026-04-26" then some 20569 else Proto.plainDates.parse text
  reads d := by
    by_cases hd : d = 20569
    · rw [if_pos hd, if_pos rfl, hd]
    · have hne : Proto.plainDates.toRfc3339 d ≠ "2026-04-26" := by
        intro heq
        have hread := Proto.plainDates.reads d
        rw [heq] at hread
        cases hread
      rw [if_neg hd, if_neg hne, Proto.plainDates.reads]

/-- The file with `bob` first and a member that a hand has added. -/
def savedMembers : List (String × Value) :=
  [("active_now", .array [.string "alice"]), ("day", .string "2026-04-26"),
    ("counters", .object [("bob", .unsigned 7), ("alice", .unsigned 42)])]

def savedText : String :=
  "\x7b\"active_now\":[\"alice\"],\"day\":\"2026-04-26\"," ++
    "\"counters\":\x7b\"bob\":7,\"alice\":42\x7d\x7d"

/-- `serde_json` on this text. -/
def savedJson : Json.Codec where
  print _ := savedText
  parse text := if text = savedText then some (.object savedMembers) else none

theorem restart_indistinguishable_alice :
    Option.Rel (Indistinguishable "alice")
        (Transition.exec (Pushing.step sampleCodec) (Pushing.start oneUser
          (State.loadFile savedDays savedJson (some (utf8 savedText.toList))) 20569 ∅)
          (aloneSteps {"alice"}))
        (Transition.exec (Pushing.step sampleCodec) (Pushing.start oneUser saved 20569 ∅)
          (aloneSteps {"alice"})) ∧
      ∀ file, (State.loadFile savedDays savedJson file).activeNow = ∅ := by
  have hentries : List.Perm [⟨"bob", 7⟩, ⟨"alice", 42⟩] saved.counters.entries :=
    List.Perm.swap _ _ _
  have hms : Agree State.names (State.members savedDays saved.day [⟨"bob", 7⟩, ⟨"alice", 42⟩])
      savedMembers :=
    agree_insert [] _ (by decide)
  have hjson : savedJson.Faithful (.object savedMembers) := by
    refine ⟨?_, by decide +kernel⟩
    show (if savedText = savedText then some (Value.object savedMembers) else none) = _
    rw [if_pos rfl]
  refine restart_indistinguishable sampleCodec savedDays hentries hms hjson ?_ oneUser 20569 ∅
  intro v uid hmem
  simp only [aloneSteps, List.mem_cons, List.not_mem_nil, or_false, reduceCtorEq,
    PushStep.connect.injEq] at hmem
  exact hmem.1

end Daemon
end Konstantin
