import Konstantin.Daemon.Subscribe
import Konstantin.Json
import Konstantin.Text.Hex
import Konstantin.Tray.Display

/-!
# The messages of the socket as JSON

The derived encodings of `crates/proto/src/lib.rs`.  A struct is read from the members
of an object by their names, so their order does not matter and members of other names
are ignored; `Agree` says that two objects are the same to such a reader.
-/

namespace Konstantin
namespace Proto

open Json Daemon Text

/-! ## Numbers, dates and names -/

/-- RFC 3339 with an offset, as `chrono` writes and reads an instant. -/
structure DateText where
  toRfc3339 : Int → String
  parse : String → Option Int
  reads : ∀ t, parse (toRfc3339 t) = some t

def asU32 : Value → Option UInt32
  | .unsigned n => if n < 2 ^ 32 then some (UInt32.ofNat n) else none
  | _ => none

/-- A negative number that fits; `-0` is a float. -/
def asI64 : Value → Option Int
  | .unsigned n => if n < 2 ^ 63 then some n else none
  | .number text =>
    match text.toList with
    | '-' :: digits =>
      (digitsValue digits).bind fun n => if 0 < n ∧ n ≤ 2 ^ 63 then some (-(n : Int)) else none
    | _ => none
  | _ => none

def ofI64 (i : Int) : Value :=
  if 0 ≤ i then .unsigned i.toNat
  else .number (String.ofList ('-' :: Nat.toDigits 10 i.natAbs))

/-- The values of an `i64`. -/
def InI64 (i : Int) : Prop := -2 ^ 63 ≤ i ∧ i < 2 ^ 63

instance (i : Int) : Decidable (InI64 i) := inferInstanceAs (Decidable (_ ∧ _))

theorem asU32_unsigned (n : UInt32) : asU32 (.unsigned n.toNat) = some n := by
  rw [asU32, if_pos n.toNat_lt, UInt32.ofNat_toNat]

theorem asI64_ofI64 {i : Int} (h : InI64 i) : asI64 (ofI64 i) = some i := by
  obtain ⟨hlow, hhigh⟩ := h
  unfold ofI64
  split
  · rename_i hpos
    have hlt : i.toNat < 2 ^ 63 := by omega
    rw [asI64, if_pos hlt, Int.toNat_of_nonneg hpos]
  · rename_i hneg
    have hrange : 0 < i.natAbs ∧ i.natAbs ≤ 2 ^ 63 := by omega
    simp only [asI64, String.toList_ofList, digitsValue_toDigits, Option.bind_some,
      if_pos hrange, Option.some.injEq]
    omega

namespace SessionState

def name : Daemon.SessionState → String
  | .active => "active"
  | .paused => "paused"
  | .limitReached => "limit_reached"
  | .offline => "offline"
  | .notConfigured => "not_configured"

def ofName : String → Option Daemon.SessionState
  | "active" => some .active
  | "paused" => some .paused
  | "limit_reached" => some .limitReached
  | "offline" => some .offline
  | "not_configured" => some .notConfigured
  | _ => none

/-- The name of a variant, or an object of it alone. -/
def deserialize : Value → Option Daemon.SessionState
  | .string s => ofName s
  | .object [(s, .null)] => ofName s
  | .object [(s, .object [])] => ofName s
  | _ => none

theorem ofName_name (state : Daemon.SessionState) : ofName (name state) = some state := by
  cases state <;> rfl

end SessionState

/-! ## The messages -/

namespace UserStatus

def required : List String :=
  ["uid", "username", "state", "daily_limit_seconds", "used_seconds", "remaining_seconds",
    "resets_at"]

def members (dates : DateText) (s : Daemon.UserStatus) : List (String × Value) :=
  [("uid", .unsigned s.uid.toNat), ("username", .string s.username),
    ("state", .string (SessionState.name s.state)),
    ("daily_limit_seconds", .unsigned s.dailyLimitSeconds.toNat),
    ("used_seconds", .unsigned s.usedSeconds.toNat),
    ("remaining_seconds", ofI64 s.remainingSeconds),
    ("resets_at", .string (dates.toRfc3339 s.resetsAt)),
    ("warn_thresholds_minutes",
      .array (s.warnThresholdsMinutes.map fun n => .unsigned n.toNat))]

/-- Without `warn_thresholds_minutes` there are none. -/
def deserialize (dates : DateText) (v : Value) : Option Daemon.UserStatus := do
  match ← v.recordDefault required "warn_thresholds_minutes" (.array []) with
  | [uid, username, state, dailyLimitSeconds, usedSeconds, remainingSeconds, resetsAt,
      thresholds] =>
    return { uid := ← asU32 uid
             username := ← username.asString
             state := ← SessionState.deserialize state
             dailyLimitSeconds := ← asU32 dailyLimitSeconds
             usedSeconds := ← asU32 usedSeconds
             remainingSeconds := ← asI64 remainingSeconds
             resetsAt := ← resetsAt.asString.bind dates.parse
             warnThresholdsMinutes := ← thresholds.asArray asU32 }
  | _ => none

end UserStatus

namespace Request

def members : Daemon.Request → List (String × Value)
  | .getStatus => [("kind", .string "get_status")]
  | .subscribe => [("kind", .string "subscribe")]
  | .reportSessionState locked idleSeconds =>
    [("kind", .string "report_session_state"), ("locked", .boolean locked),
      ("idle_seconds", .unsigned idleSeconds.toNat)]

def ofVariant (v : Value) : String → Option Daemon.Request
  | "get_status" => (v.record []).map fun _ => .getStatus
  | "subscribe" => (v.record []).map fun _ => .subscribe
  | "report_session_state" => do
    match ← v.record ["locked", "idle_seconds"] with
    | [locked, idleSeconds] => return .reportSessionState (← locked.asBool) (← asU32 idleSeconds)
    | _ => none
  | _ => none

def deserialize (v : Value) : Option Daemon.Request :=
  (v.tagged "kind").bind fun (kind, fields) => ofVariant fields kind

/-- The names a request is read from. -/
def names : List String := ["kind", "locked", "idle_seconds"]

end Request

namespace Response

def members (dates : DateText) : Daemon.Response → List (String × Value)
  | .status s => ("kind", .string "status") :: UserStatus.members dates s
  | .statusUpdate s => ("kind", .string "status_update") :: UserStatus.members dates s
  | .ack => [("kind", .string "ack")]
  | .error message => [("kind", .string "error"), ("message", .string message)]

def ofVariant (dates : DateText) (v : Value) : String → Option Daemon.Response
  | "status" => (UserStatus.deserialize dates v).map .status
  | "status_update" => (UserStatus.deserialize dates v).map .statusUpdate
  | "ack" => (v.record []).map fun _ => .ack
  | "error" => do
    match ← v.record ["message"] with
    | [message] => message.asString.map .error
    | _ => none
  | _ => none

def deserialize (dates : DateText) (v : Value) : Option Daemon.Response :=
  (v.tagged "kind").bind fun (kind, fields) => ofVariant dates fields kind

def names : List String :=
  "kind" :: "message" :: (UserStatus.required ++ ["warn_thresholds_minutes"])

/-- The `i64` of a response. -/
def InRange : Daemon.Response → Prop
  | .status s => InI64 s.remainingSeconds
  | .statusUpdate s => InI64 s.remainingSeconds
  | _ => True

instance : DecidablePred InRange
  | .status s => inferInstanceAs (Decidable (InI64 s.remainingSeconds))
  | .statusUpdate s => inferInstanceAs (Decidable (InI64 s.remainingSeconds))
  | .ack => .isTrue trivial
  | .error _ => .isTrue trivial

/-- The update of a daemon that knows of no thresholds. -/
def olderMembers (dates : DateText) (s : Daemon.UserStatus) : List (String × Value) :=
  ("kind", .string "status_update") :: (UserStatus.members dates s).take 7

end Response

/-! ## What a message is read as -/

theorem asArray_asU32 (ns : List UInt32) :
    (Value.array (ns.map fun n => .unsigned n.toNat)).asArray asU32 = some ns := by
  show (ns.map fun n => Value.unsigned n.toNat).mapM asU32 = some ns
  induction ns with
  | nil => rfl
  | cons n ns ih =>
    rw [List.map_cons, List.mapM_cons, asU32_unsigned, ih]
    rfl

namespace UserStatus

/-- The eight values of a status, read one by one. -/
theorem deserialize_values (dates : DateText) {s : Daemon.UserStatus} {v thresholds : Value}
    {minutes : List UInt32} (hremaining : InI64 s.remainingSeconds)
    (hthresholds : thresholds.asArray asU32 = some minutes)
    (h : v.recordDefault required "warn_thresholds_minutes" (.array []) =
      some (((members dates s).take 7).map Prod.snd ++ [thresholds])) :
    deserialize dates v = some { s with warnThresholdsMinutes := minutes } := by
  have hdate : (Value.asString (.string (dates.toRfc3339 s.resetsAt))).bind dates.parse =
      some s.resetsAt := dates.reads s.resetsAt
  have hstate : SessionState.deserialize (.string (SessionState.name s.state)) = some s.state :=
    SessionState.ofName_name s.state
  unfold deserialize
  rw [h]
  simp only [members, List.take_succ_cons, List.take_zero, List.map_cons, List.map_nil,
    List.cons_append, List.nil_append, Option.bind_eq_bind, Option.bind_some, asU32_unsigned,
    hstate, hdate, asI64_ofI64 hremaining, hthresholds]
  rfl

end UserStatus

theorem Request.deserialize_members (req : Daemon.Request) :
    deserialize (.object (members req)) = some req := by
  cases req with
  | getStatus => rfl
  | subscribe => rfl
  | reportSessionState locked idleSeconds =>
    show ((asU32 (.unsigned idleSeconds.toNat)).bind fun n =>
      some (Daemon.Request.reportSessionState locked n)) = _
    rw [asU32_unsigned]
    rfl

theorem Request.deserialize_agree {ms ms' : List (String × Value)} (h : Agree names ms ms') :
    deserialize (.object ms) = deserialize (.object ms') := by
  unfold deserialize
  rcases Value.tagged_agree h List.mem_cons_self with heq | ⟨kind, hkind, hkind'⟩
  · rw [heq]
  · have hnone : ∀ ms ms' : List (String × Value), Value.record [] (.object ms) =
        Value.record [] (.object ms') := fun _ _ => rfl
    have hfields := Value.record_agree ((h.without "kind").mono
      (List.subset_cons_self "kind" ["locked", "idle_seconds"]))
    rw [hkind, hkind', Option.bind_some, Option.bind_some]
    dsimp only
    unfold ofVariant
    split
    · rw [hnone]
    · rw [hnone]
    · rw [hfields]
    · rfl

theorem UserStatus.deserialize_members (dates : DateText) {s : Daemon.UserStatus}
    (h : InI64 s.remainingSeconds) : deserialize dates (.object (members dates s)) = some s :=
  deserialize_values dates h (asArray_asU32 s.warnThresholdsMinutes) rfl

theorem Response.deserialize_members (dates : DateText) {resp : Daemon.Response}
    (h : InRange resp) : deserialize dates (.object (members dates resp)) = some resp := by
  cases resp with
  | status s =>
    show (UserStatus.deserialize dates (.object (UserStatus.members dates s))).map
      Daemon.Response.status = _
    rw [UserStatus.deserialize_members dates h]
    rfl
  | statusUpdate s =>
    show (UserStatus.deserialize dates (.object (UserStatus.members dates s))).map
      Daemon.Response.statusUpdate = _
    rw [UserStatus.deserialize_members dates h]
    rfl
  | ack => rfl
  | error message => rfl

theorem Response.deserialize_older (dates : DateText) {s : Daemon.UserStatus}
    (h : InI64 s.remainingSeconds) : deserialize dates (.object (olderMembers dates s)) =
      some (.statusUpdate { s with warnThresholdsMinutes := [] }) := by
  have hread : UserStatus.deserialize dates (.object ((UserStatus.members dates s).take 7)) =
      some { s with warnThresholdsMinutes := [] } :=
    UserStatus.deserialize_values dates h (asArray_asU32 []) rfl
  show (UserStatus.deserialize dates (.object ((UserStatus.members dates s).take 7))).map
    Daemon.Response.statusUpdate = _
  rw [hread]
  rfl

theorem Response.deserialize_agree {dates : DateText} {ms ms' : List (String × Value)}
    (h : Agree names ms ms') :
    deserialize dates (.object ms) = deserialize dates (.object ms') := by
  unfold deserialize
  rcases Value.tagged_agree h List.mem_cons_self with heq | ⟨kind, hkind, hkind'⟩
  · rw [heq]
  · have hwithout := (h.without "kind").mono (List.subset_cons_self "kind" _)
    have hnone : ∀ ms ms' : List (String × Value), Value.record [] (.object ms) =
        Value.record [] (.object ms') := fun _ _ => rfl
    have hstatus := Value.recordDefault_agree
      (hwithout.mono (List.subset_cons_self "message" _)) (.array [])
    have hmessage := Value.record_agree (hwithout.mono
      (List.cons_subset_cons "message" (List.nil_subset _)))
    rw [hkind, hkind', Option.bind_some, Option.bind_some]
    dsimp only
    unfold ofVariant UserStatus.deserialize
    split
    · rw [hstatus]
    · rw [hstatus]
    · rw [hnone]
    · rw [hmessage]
    · rfl

/-! ## The codecs of the two streams -/

/-- `serde_json` at this type, with texts that are read back. -/
def Request.codec (json : Json.Codec) (h : ∀ req, json.Faithful (.object (members req))) :
    Proto.Codec Daemon.Request where
  toVec req := .ok (utf8 (json.print (.object (members req))).toList)
  fromSlice bytes :=
    match (fromUtf8 bytes).bind fun cs => (json.parse (String.ofList cs)).bind deserialize with
    | some req => .ok req
    | none => .error "not a request"
  unexpectedEof := "early eof"
  decodes req payload hvec := by
    cases hvec
    rw [fromUtf8_utf8, Option.bind_some, String.ofList_toList, (h req).1, Option.bind_some,
      deserialize_members]

/-- A response out of range cannot occur, since its field is an `i64`. -/
def Response.codec (dates : DateText) (json : Json.Codec)
    (h : ∀ resp, InRange resp → json.Faithful (.object (members dates resp))) :
    Proto.Codec Daemon.Response where
  toVec resp :=
    if InRange resp then .ok (utf8 (json.print (.object (members dates resp))).toList)
    else .error "out of range"
  fromSlice bytes :=
    match (fromUtf8 bytes).bind fun cs =>
      (json.parse (String.ofList cs)).bind (deserialize dates) with
    | some resp => .ok resp
    | none => .error "not a response"
  unexpectedEof := "early eof"
  decodes resp payload hvec := by
    split at hvec
    · rename_i hrange
      cases hvec
      rw [fromUtf8_utf8, Option.bind_some, String.ofList_toList, (h resp hrange).1,
        Option.bind_some, deserialize_members dates hrange]
    · cases hvec

/-- Requests and responses are read back from any object that has their members, in any
order of the names and among members of other names.  An update of a daemon that knows
of no thresholds is read too, and no tracker announces anything at it. -/
theorem messages_read (dates : DateText) :
    (∀ (req : Daemon.Request) (ms : List (String × Value)),
      Agree Request.names (Request.members req) ms →
        Request.deserialize (.object ms) = some req) ∧
      (∀ (resp : Daemon.Response) (ms : List (String × Value)), Response.InRange resp →
        Agree Response.names (Response.members dates resp) ms →
          Response.deserialize dates (.object ms) = some resp) ∧
      ∀ (s : Daemon.UserStatus) (ms : List (String × Value)), InI64 s.remainingSeconds →
        Agree Response.names (Response.olderMembers dates s) ms →
          Response.deserialize dates (.object ms) =
              some (.statusUpdate { s with warnThresholdsMinutes := [] }) ∧
            ∀ t : Tray.NotifTracker,
              (t.evaluate { s with warnThresholdsMinutes := [] }).2 = none := by
  refine ⟨fun req ms h => ?_, fun resp ms hrange h => ?_, fun s ms hrange h => ⟨?_, fun t => ?_⟩⟩
  · rw [← Request.deserialize_agree h, Request.deserialize_members]
  · rw [← Response.deserialize_agree h, Response.deserialize_members dates hrange]
  · rw [← Response.deserialize_agree h, Response.deserialize_older dates hrange]
  · cases hminutes : (t.evaluate { s with warnThresholdsMinutes := [] }).2 with
    | none => rfl
    | some minutes =>
      obtain ⟨seconds, hwarns, -⟩ := Tray.Display.evaluate_minutes hminutes
      obtain ⟨⟨m, hm, -⟩, -⟩ := hwarns.2.2.2.1
      exact absurd hm List.not_mem_nil

/-- Instants as plain numbers. -/
def plainDates : DateText where
  toRfc3339 t := String.ofList (if 0 ≤ t then Nat.toDigits 10 t.toNat
    else '-' :: Nat.toDigits 10 t.natAbs)
  parse text :=
    match text.toList with
    | '-' :: digits => (digitsValue digits).map fun n : Nat => -(n : Int)
    | digits => (digitsValue digits).map Int.ofNat
  reads t := by
    by_cases hpos : 0 ≤ t
    · rw [if_pos hpos, String.toList_ofList]
      split
      · rename_i digits heq
        have habs := isDigit_toDigits t.toNat '-' (by rw [heq]; exact List.mem_cons_self)
        cases habs
      · rw [digitsValue_toDigits, Option.map_some]
        exact congrArg some (Int.toNat_of_nonneg hpos)
    · rw [if_neg hpos, String.toList_ofList]
      show (digitsValue (Nat.toDigits 10 t.natAbs)).map (fun n : Nat => -(n : Int)) = some t
      rw [digitsValue_toDigits, Option.map_some, Option.some.injEq]
      omega

/-- A report with its members in another order and one more. -/
theorem messages_read_report :
    Request.deserialize (.object [("kind", .string "report_session_state"),
      ("idle_seconds", .unsigned 30), ("screen", .null), ("locked", .boolean true)]) =
      some (.reportSessionState true 30) := by
  refine (messages_read plainDates).1 (.reportSessionState true 30) _ fun name hname => ?_
  have hswap : Agree Request.names (Request.members (.reportSessionState true 30))
      [("kind", .string "report_session_state"), ("idle_seconds", .unsigned 30),
        ("locked", .boolean true)] :=
    agree_swap [_] [] (by decide)
  exact (hswap name hname).trans (agree_insert [_, _] [_] (by decide) name hname)

end Proto
end Konstantin
