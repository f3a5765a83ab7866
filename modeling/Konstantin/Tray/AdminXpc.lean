import Konstantin.Daemon.Xpc
import Konstantin.Fs.Spelling

/-!
# The tray's end of the admin channel

`crates/tray/src/admin_xpc.rs`, and an exchange from the request of the tray to the
response it is given: two encodings, two decodings and three checks on the way.
-/

namespace Konstantin
namespace Tray

open Fs Json Daemon Proto
open Toml (Parser)

/-- What the call that waits for a reply returns: nothing, an error dictionary with
or without a description, or the reply. -/
inductive XpcReply where
  | null
  | error (description : Option String)
  | answer (reply : Reply)

namespace AdminClient

def receive (codec : Codec) (requestId : String) : XpcReply → Except String AdminResponse
  | .null => .error "admin XPC request did not receive a reply"
  | .error (some description) => .error ("admin XPC failed: " ++ description)
  | .error none => .error "admin XPC reply missing payload_json"
  | .answer reply => do
    let env ← ResponseEnvelope.fromJson codec reply.payloadJson
    if env.requestId ≠ requestId then
      throw ("admin XPC reply id mismatch: got " ++ env.requestId ++ ", expected " ++ requestId)
    return env.response

/-- `send_blocking` over a connection that is up. -/
def sendBlocking {σ : Type} (codec : Codec) (requestId : String) (request : AdminRequest)
    (send : String → σ → XpcReply × σ) (s : σ) : Except String AdminResponse × σ :=
  match setString ((RequestEnvelope.new requestId request).toJson codec) with
  | .error e => (.error e, s)
  | .ok payload =>
    let r := send payload s
    (receive codec requestId r.1, r.2)

end AdminClient

section

variable (toml : Parser) (codec : Codec) (paths : PathText) (c : Controller)
  (operator : Operator)

/-- The connection to the daemon.  `lost` is what XPC returns when the daemon sends
no reply. -/
def transport (lost : XpcReply) (payload : String) (w : World) : XpcReply × World :=
  let r := c.handlePeerMessage toml codec paths operator (.text payload) w
  (match r.1 with
    | none => lost
    | some reply => .answer reply, r.2)

def exchange (lost : XpcReply) (requestId : String) (req : AdminRequest) (w : World) :
    Except String AdminResponse × World :=
  AdminClient.sendBlocking codec requestId req (transport toml codec paths c operator lost) w

end

/-! ## One end at a time -/

theorem setString_faithful {codec : Codec} {v : Value} (h : codec.Faithful v) :
    setString (codec.print v) = .ok (codec.print v) := if_neg h.2

section

variable {toml : Parser} {codec : Codec} {paths : PathText} {c : Controller}
  {operator : Operator}

theorem ensureProtocolVersion_ne {version : UInt64} (h : version ≠ protocolVersion) :
    ensureProtocolVersion version =
      .error ("unsupported admin XPC protocol version " ++ toString version.toNat) := if_pos h

/-- A request of this version is executed, and the reply has its id. -/
theorem handleRequestJson_accepted (toml : Parser) (c : Controller) (operator : Operator)
    {json : String} {env : RequestEnvelope}
    (hdecode : RequestEnvelope.decoder codec json = some env)
    (hversion : env.version = protocolVersion) (w : World) :
    c.handleRequestJson toml (RequestEnvelope.decoder codec) operator json w =
      (.new env.requestId (c.handle toml operator env.request w).1,
        (c.handle toml operator env.request w).2) := by
  have hfrom : RequestEnvelope.fromJson (RequestEnvelope.decoder codec) json = .ok env := by
    rw [RequestEnvelope.fromJson, hdecode]
    show (ensureProtocolVersion env.version).map (fun _ => env) = .ok env
    rw [hversion]
    rfl
  rw [Controller.handleRequestJson, hfrom]

theorem handleRequestJson_rejected (toml : Parser) (c : Controller) (operator : Operator)
    {json : String} {env : RequestEnvelope}
    (hdecode : RequestEnvelope.decoder codec json = some env)
    (hversion : env.version ≠ protocolVersion) (w : World) :
    c.handleRequestJson toml (RequestEnvelope.decoder codec) operator json w =
      (.new "" (.error ("unsupported admin XPC protocol version " ++
        toString env.version.toNat)), w) := by
  have hfrom : RequestEnvelope.fromJson (RequestEnvelope.decoder codec) json =
      .error ("unsupported admin XPC protocol version " ++ toString env.version.toNat) := by
    rw [RequestEnvelope.fromJson, hdecode]
    show (ensureProtocolVersion env.version).map (fun _ => env) = _
    rw [ensureProtocolVersion_ne hversion]
    rfl
  rw [Controller.handleRequestJson, hfrom]

theorem receive_rejected {requestId json : String} {env : ResponseEnvelope}
    (hdecode : (codec.parse json).bind ResponseEnvelope.deserialize = some env)
    (hversion : env.version ≠ protocolVersion) (ok : Bool) :
    AdminClient.receive codec requestId (.answer ⟨json, ok⟩) =
      .error ("unsupported admin XPC protocol version " ++ toString env.version.toNat) := by
  rw [AdminClient.receive, ResponseEnvelope.fromJson, hdecode]
  show (ensureProtocolVersion env.version).map (fun _ => env) >>= _ = _
  rw [ensureProtocolVersion_ne hversion]
  rfl

/-- What is answered to a text has a path that can be written. -/
theorem parsed_handleRequestJson (toml : Parser) (c : Controller) (operator : Operator)
    (decode : Decoder) (json : String) (w : World) :
    (c.handleRequestJson toml decode operator json w).1.response.PathParsed := by
  unfold Controller.handleRequestJson
  split
  · trivial
  · exact Controller.parsed_handle toml c operator _ w

theorem version_handleRequestJson (toml : Parser) (c : Controller) (operator : Operator)
    (decode : Decoder) (json : String) (w : World) :
    (c.handleRequestJson toml decode operator json w).1.version = protocolVersion := by
  unfold Controller.handleRequestJson
  split <;> rfl

theorem responseJson_written (codec : Codec) (paths : PathText) {env : ResponseEnvelope}
    (h : env.response.PathParsed) :
    ∃ v, env.serialize paths = some v ∧ ResponseEnvelope.deserialize v = some env ∧
      responseJson codec paths env = codec.print v := by
  obtain ⟨v, hv, hread⟩ := ResponseEnvelope.deserialize_serialize paths h
  refine ⟨v, hv, hread, ?_⟩
  rw [responseJson, ResponseEnvelope.toJson, hv]

theorem fromJson_print {env : ResponseEnvelope} {v : Value} (hv : codec.Faithful v)
    (hread : ResponseEnvelope.deserialize v = some env) (hversion : env.version = protocolVersion) :
    ResponseEnvelope.fromJson codec (codec.print v) = .ok env := by
  rw [ResponseEnvelope.fromJson, hv.1, Option.bind_some, hread]
  show (ensureProtocolVersion env.version).map (fun _ => env) = .ok env
  rw [hversion]
  rfl

/-- The flag beside a reply tells whether it is a refusal. -/
theorem replyWith_print {env : ResponseEnvelope} {v : Value} (hv : codec.Faithful v)
    (hread : ResponseEnvelope.deserialize v = some env) (hversion : env.version = protocolVersion) :
    replyWith codec (codec.print v) = some ⟨codec.print v, !env.response.refused⟩ := by
  rw [replyWith, setString_faithful hv, fromJson_print hv hread hversion]

theorem receive_answer {env : ResponseEnvelope} {v : Value} (hv : codec.Faithful v)
    (hread : ResponseEnvelope.deserialize v = some env) (hversion : env.version = protocolVersion)
    (ok : Bool) :
    AdminClient.receive codec env.requestId (.answer ⟨codec.print v, ok⟩) =
      .ok env.response := by
  rw [AdminClient.receive, fromJson_print hv hread hversion]
  show (if env.requestId ≠ env.requestId then _ else _) = _
  rw [if_neg (not_not_intro rfl)]
  rfl

theorem decoder_toJson {env : RequestEnvelope} (h : codec.Faithful env.serialize) :
    RequestEnvelope.decoder codec (env.toJson codec) = some env := by
  rw [RequestEnvelope.decoder, RequestEnvelope.toJson, h.1, Option.bind_some,
    RequestEnvelope.deserialize_serialize]

/-- The request is executed once, as it is, and its response is what comes back. -/
theorem exchange_eq {requestId : String} {req : AdminRequest} {w : World}
    (hreq : codec.Faithful (RequestEnvelope.new requestId req).serialize)
    (hresp : ∀ v, (ResponseEnvelope.new requestId (c.handle toml operator req w).1).serialize
      paths = some v → codec.Faithful v) (lost : XpcReply) :
    exchange toml codec paths c operator lost requestId req w =
      (.ok (c.handle toml operator req w).1, (c.handle toml operator req w).2) := by
  have hrun : c.handleRequestJson toml (RequestEnvelope.decoder codec) operator
      ((RequestEnvelope.new requestId req).toJson codec) w =
        (.new requestId (c.handle toml operator req w).1, (c.handle toml operator req w).2) :=
    handleRequestJson_accepted toml c operator (decoder_toJson hreq) rfl w
  have hparsed : (ResponseEnvelope.new requestId (c.handle toml operator req w).1).response
      |>.PathParsed := Controller.parsed_handle toml c operator req w
  obtain ⟨v, hv, hread, hwritten⟩ := responseJson_written codec paths hparsed
  have hsend : transport toml codec paths c operator lost
      ((RequestEnvelope.new requestId req).toJson codec) w =
        (.answer ⟨codec.print v, !(c.handle toml operator req w).1.refused⟩,
          (c.handle toml operator req w).2) := by
    rw [transport, Controller.handlePeerMessage]
    simp only [hrun, hwritten, replyWith_print (hresp v hv) hread rfl]
    rfl
  have hset : setString ((RequestEnvelope.new requestId req).toJson codec) =
      .ok ((RequestEnvelope.new requestId req).toJson codec) := setString_faithful hreq
  rw [exchange, AdminClient.sendBlocking, hset]
  simp only [hsend]
  exact congrArg (·, _) (receive_answer (hresp v hv) hread rfl _)

end

/-- Whatever is asked, what comes back is what the controller answers.  The daemon's
replies can always be written, carry the id of the request, and are flagged as
refusals when they are; an envelope of another version is refused at either end. -/
theorem exchange_transparent (toml : Parser) (codec : Codec) (paths : PathText) (c : Controller)
    (operator : Operator) (requestId : String) (req : AdminRequest) (w : World)
    (lost : XpcReply) (hreq : codec.Faithful (RequestEnvelope.new requestId req).serialize)
    (hresp : ∀ v, (ResponseEnvelope.new requestId (c.handle toml operator req w).1).serialize
      paths = some v → codec.Faithful v) :
    exchange toml codec paths c operator lost requestId req w =
        (.ok (c.handle toml operator req w).1, (c.handle toml operator req w).2) ∧
      (∃ v, (ResponseEnvelope.new requestId (c.handle toml operator req w).1).serialize paths =
          some v ∧
        c.handlePeerMessage toml codec paths operator
            (.text ((RequestEnvelope.new requestId req).toJson codec)) w =
          (some ⟨codec.print v, !(c.handle toml operator req w).1.refused⟩,
            (c.handle toml operator req w).2)) ∧
      (∀ json w, ∃ v env, env =
          (c.handleRequestJson toml (RequestEnvelope.decoder codec) operator json w).1 ∧
        env.serialize paths = some v ∧ responseJson codec paths env = codec.print v ∧
        (codec.Faithful v →
          (c.handlePeerMessage toml codec paths operator (.text json) w).1 =
            some ⟨codec.print v, !env.response.refused⟩)) ∧
      (∀ json env, RequestEnvelope.decoder codec json = some env → ∀ w,
        c.handleRequestJson toml (RequestEnvelope.decoder codec) operator json w =
          if env.version = protocolVersion then
            (.new env.requestId (c.handle toml operator env.request w).1,
              (c.handle toml operator env.request w).2)
          else
            (.new "" (.error ("unsupported admin XPC protocol version " ++
              toString env.version.toNat)), w)) ∧
      ∀ json env ok, (codec.parse json).bind ResponseEnvelope.deserialize = some env →
        env.version ≠ protocolVersion →
          AdminClient.receive codec requestId (.answer ⟨json, ok⟩) =
            .error ("unsupported admin XPC protocol version " ++ toString env.version.toNat) := by
  have hanswer : ∀ json w, ∃ v env, env =
        (c.handleRequestJson toml (RequestEnvelope.decoder codec) operator json w).1 ∧
      env.serialize paths = some v ∧ responseJson codec paths env = codec.print v ∧
      (codec.Faithful v → (c.handlePeerMessage toml codec paths operator (.text json) w).1 =
        some ⟨codec.print v, !env.response.refused⟩) := by
    intro json w
    obtain ⟨v, hv, hread, hwritten⟩ := responseJson_written codec paths
      (parsed_handleRequestJson toml c operator (RequestEnvelope.decoder codec) json w)
    refine ⟨v, _, rfl, hv, hwritten, fun hfaithful => ?_⟩
    show replyWith codec (responseJson codec paths _) = _
    rw [hwritten]
    exact replyWith_print hfaithful hread (version_handleRequestJson toml c operator _ json w)
  refine ⟨exchange_eq hreq hresp lost, ?_, hanswer, fun json env hdecode w => ?_,
    fun json env ok hdecode hversion => receive_rejected hdecode hversion ok⟩
  · have hrun := handleRequestJson_accepted toml c operator (decoder_toJson hreq) rfl w
    obtain ⟨v, env, henv, hv, -, hflag⟩ :=
      hanswer ((RequestEnvelope.new requestId req).toJson codec) w
    rw [hrun] at henv
    subst henv
    refine ⟨v, hv, Prod.ext (hflag (hresp v hv)) ?_⟩
    show (c.handleRequestJson toml (RequestEnvelope.decoder codec) operator _ w).2 = _
    rw [hrun]
    rfl
  · by_cases hversion : env.version = protocolVersion
    · rw [if_pos hversion]
      exact handleRequestJson_accepted toml c operator hdecode hversion w
    · rw [if_neg hversion]
      exact handleRequestJson_rejected toml c operator hdecode hversion w

/-! ## An exchange -/

/-- Paths in the spelling they are displayed in. -/
def displayed : PathText where
  toStr := fun p => some p.display
  spelled := fun raw => ⟨_, rfl, Path.parse_display (Path.spelled_parse raw)⟩

def stateRequest : String :=
  "\x7b\"version\":2,\"request_id\":\"77-1\",\"request\":\x7b\"kind\":\"set_config\"," ++
    "\"toml\":\"\"\x7d\x7d"

def stateReply : String :=
  "\x7b\"version\":2,\"request_id\":\"77-1\",\"response\":\x7b\"kind\":" ++
    "\"enforcement_state\",\"paused\":false,\"kill_switch_path\":" ++
    "\"/etc/screentimed/disable\"\x7d\x7d"

/-- The printer and the parser on the two envelopes. -/
def stateCodec : Codec where
  print
    | .object [_, _, ("request", _)] => stateRequest
    | _ => stateReply
  parse text :=
    if text = stateRequest then
      some (RequestEnvelope.new "77-1" (.setConfig "")).serialize
    else if text = stateReply then
      (ResponseEnvelope.new "77-1" (.enforcementState false
        Config.defaultKillSwitchPath)).serialize displayed
    else none

def emptyToml : Parser := fun text => if text = "" then some [] else none

theorem exchange_transparent_setConfig :
    (exchange emptyToml stateCodec displayed systemController allowedOperator .null "77-1"
      (.setConfig "") ⟨FileSystem.empty, false⟩).1 =
        .ok (.enforcementState false Config.defaultKillSwitchPath) := by
  have hhandle : (systemController.handle emptyToml allowedOperator (.setConfig "")
      ⟨FileSystem.empty, false⟩).1 = .enforcementState false Config.defaultKillSwitchPath := by
    decide +kernel
  have hresp : ∀ v, (ResponseEnvelope.new "77-1" (systemController.handle emptyToml
      allowedOperator (.setConfig "") ⟨FileSystem.empty, false⟩).1).serialize displayed =
        some v → stateCodec.Faithful v := by
    intro v hv
    rw [hhandle] at hv
    cases hv
    exact ⟨rfl, by decide +kernel⟩
  rw [(exchange_transparent emptyToml stateCodec displayed systemController allowedOperator
    "77-1" (.setConfig "") ⟨FileSystem.empty, false⟩ .null ⟨rfl, by decide +kernel⟩ hresp).1,
    hhandle]

end Tray
end Konstantin
