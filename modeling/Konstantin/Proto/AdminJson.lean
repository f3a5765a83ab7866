import Konstantin.Json
import Konstantin.Proto.Admin

/-!
# The admin messages as JSON

The derived encodings of `crates/proto/src/admin.rs`: two enums tagged by `kind`,
each in an envelope.  A path is written as its text, and a path that is not UTF-8
cannot be written.
-/

namespace Konstantin
namespace Proto

open Fs Json

/-- `Path::to_str`.  A `Path` has lost the text it was made of, so which of its
spellings is written is left open. -/
structure PathText where
  toStr : Path → Option String
  spelled : ∀ raw, ∃ text, toStr (Path.parse raw) = some text ∧ Path.parse text = Path.parse raw

def asPath (v : Value) : Option Path := v.asString.map Path.parse

namespace AdminRequest

def serialize : AdminRequest → Value
  | getConfig => .variant "kind" "get_config" []
  | validateConfig toml => .variant "kind" "validate_config" [("toml", .string toml)]
  | setConfig toml => .variant "kind" "set_config" [("toml", .string toml)]
  | reloadDaemon => .variant "kind" "reload_daemon" []
  | getDaemonInfo => .variant "kind" "get_daemon_info" []
  | getEnforcementState => .variant "kind" "get_enforcement_state" []
  | setEnforcementPaused paused =>
    .variant "kind" "set_enforcement_paused" [("paused", .boolean paused)]
  | prepareUninstall preserveConfig =>
    .variant "kind" "prepare_uninstall" [("preserve_config", .boolean preserveConfig)]

def ofVariant (v : Value) : String → Option AdminRequest
  | "get_config" => (v.record []).map fun _ => getConfig
  | "validate_config" => do
    match ← v.record ["toml"] with
    | [toml] => toml.asString.map validateConfig
    | _ => none
  | "set_config" => do
    match ← v.record ["toml"] with
    | [toml] => toml.asString.map setConfig
    | _ => none
  | "reload_daemon" => (v.record []).map fun _ => reloadDaemon
  | "get_daemon_info" => (v.record []).map fun _ => getDaemonInfo
  | "get_enforcement_state" => (v.record []).map fun _ => getEnforcementState
  | "set_enforcement_paused" => do
    match ← v.record ["paused"] with
    | [paused] => paused.asBool.map setEnforcementPaused
    | _ => none
  | "prepare_uninstall" => do
    match ← v.record ["preserve_config"] with
    | [preserveConfig] => preserveConfig.asBool.map prepareUninstall
    | _ => none
  | _ => none

def deserialize (v : Value) : Option AdminRequest :=
  (v.tagged "kind").bind fun (kind, fields) => ofVariant fields kind

theorem deserialize_serialize (req : AdminRequest) : deserialize req.serialize = some req := by
  cases req with
  | getConfig => rfl
  | validateConfig toml => rfl
  | setConfig toml => rfl
  | reloadDaemon => rfl
  | getDaemonInfo => rfl
  | getEnforcementState => rfl
  | setEnforcementPaused paused => rfl
  | prepareUninstall preserveConfig => rfl

end AdminRequest

namespace AdminResponse

def serialize (paths : PathText) : AdminResponse → Option Value
  | config toml enforcementPaused killSwitchPath => (paths.toStr killSwitchPath).map fun path =>
    .variant "kind" "config" [("toml", .string toml),
      ("enforcement_paused", .boolean enforcementPaused), ("kill_switch_path", .string path)]
  | validationOk => some (.variant "kind" "validation_ok" [])
  | daemonInfo version => some (.variant "kind" "daemon_info" [("version", .string version)])
  | enforcementState paused killSwitchPath => (paths.toStr killSwitchPath).map fun path =>
    .variant "kind" "enforcement_state"
      [("paused", .boolean paused), ("kill_switch_path", .string path)]
  | ok => some (.variant "kind" "ok" [])
  | unauthorized reason => some (.variant "kind" "unauthorized" [("reason", .string reason)])
  | error message => some (.variant "kind" "error" [("message", .string message)])

def ofVariant (v : Value) : String → Option AdminResponse
  | "config" => do
    match ← v.record ["toml", "enforcement_paused", "kill_switch_path"] with
    | [toml, enforcementPaused, killSwitchPath] =>
      return config (← toml.asString) (← enforcementPaused.asBool) (← asPath killSwitchPath)
    | _ => none
  | "validation_ok" => (v.record []).map fun _ => validationOk
  | "daemon_info" => do
    match ← v.record ["version"] with
    | [version] => version.asString.map daemonInfo
    | _ => none
  | "enforcement_state" => do
    match ← v.record ["paused", "kill_switch_path"] with
    | [paused, killSwitchPath] =>
      return enforcementState (← paused.asBool) (← asPath killSwitchPath)
    | _ => none
  | "ok" => (v.record []).map fun _ => ok
  | "unauthorized" => do
    match ← v.record ["reason"] with
    | [reason] => reason.asString.map unauthorized
    | _ => none
  | "error" => do
    match ← v.record ["message"] with
    | [message] => message.asString.map error
    | _ => none
  | _ => none

def deserialize (v : Value) : Option AdminResponse :=
  (v.tagged "kind").bind fun (kind, fields) => ofVariant fields kind

/-- The path of a response, as a text has given it. -/
def PathParsed : AdminResponse → Prop
  | config _ _ path => ∃ raw, path = Path.parse raw
  | enforcementState _ path => ∃ raw, path = Path.parse raw
  | _ => True

/-- A response whose path came from a text can be written, and is read back. -/
theorem deserialize_serialize (paths : PathText) {resp : AdminResponse} (h : resp.PathParsed) :
    ∃ v, resp.serialize paths = some v ∧ deserialize v = some resp := by
  cases resp with
  | config toml enforcementPaused killSwitchPath =>
    obtain ⟨raw, rfl⟩ := h
    obtain ⟨text, htext, hparse⟩ := paths.spelled raw
    refine ⟨_, by rw [serialize, htext, Option.map_some], ?_⟩
    show some (config toml enforcementPaused (Path.parse text)) = _
    rw [hparse]
  | validationOk => exact ⟨_, rfl, rfl⟩
  | daemonInfo version => exact ⟨_, rfl, rfl⟩
  | enforcementState paused killSwitchPath =>
    obtain ⟨raw, rfl⟩ := h
    obtain ⟨text, htext, hparse⟩ := paths.spelled raw
    refine ⟨_, by rw [serialize, htext, Option.map_some], ?_⟩
    show some (enforcementState paused (Path.parse text)) = _
    rw [hparse]
  | ok => exact ⟨_, rfl, rfl⟩
  | unauthorized reason => exact ⟨_, rfl, rfl⟩
  | error message => exact ⟨_, rfl, rfl⟩

end AdminResponse

/-! ## The envelopes -/

namespace RequestEnvelope

def new (requestId : String) (request : AdminRequest) : RequestEnvelope where
  version := protocolVersion
  requestId := requestId
  request := request

def serialize (env : RequestEnvelope) : Value :=
  .object [("version", .unsigned env.version.toNat), ("request_id", .string env.requestId),
    ("request", env.request.serialize)]

def deserialize (v : Value) : Option RequestEnvelope := do
  match ← v.record ["version", "request_id", "request"] with
  | [version, requestId, request] =>
    return { version := ← version.asU64, requestId := ← requestId.asString
             request := ← AdminRequest.deserialize request }
  | _ => none

theorem deserialize_serialize (env : RequestEnvelope) : deserialize env.serialize = some env := by
  show ((Value.unsigned env.version.toNat).asU64.bind fun version =>
    (AdminRequest.deserialize env.request.serialize).bind fun request =>
      some ({ version, requestId := env.requestId, request } : RequestEnvelope)) = some env
  rw [asU64_unsigned, AdminRequest.deserialize_serialize]
  rfl

def decoder (codec : Codec) : Decoder := fun json => (codec.parse json).bind deserialize

def toJson (codec : Codec) (env : RequestEnvelope) : String := codec.print env.serialize

end RequestEnvelope

namespace ResponseEnvelope

def serialize (paths : PathText) (env : ResponseEnvelope) : Option Value :=
  (env.response.serialize paths).map fun response =>
    .object [("version", .unsigned env.version.toNat), ("request_id", .string env.requestId),
      ("response", response)]

def deserialize (v : Value) : Option ResponseEnvelope := do
  match ← v.record ["version", "request_id", "response"] with
  | [version, requestId, response] =>
    return { version := ← version.asU64, requestId := ← requestId.asString
             response := ← AdminResponse.deserialize response }
  | _ => none

theorem deserialize_serialize (paths : PathText) {env : ResponseEnvelope}
    (h : env.response.PathParsed) :
    ∃ v, env.serialize paths = some v ∧ deserialize v = some env := by
  obtain ⟨response, hresponse, hread⟩ := AdminResponse.deserialize_serialize paths h
  refine ⟨_, by rw [serialize, hresponse, Option.map_some], ?_⟩
  show ((Value.unsigned env.version.toNat).asU64.bind fun version =>
    (AdminResponse.deserialize response).bind fun response =>
      some ({ version, requestId := env.requestId, response } : ResponseEnvelope)) = some env
  rw [asU64_unsigned, hread]
  rfl

def toJson (codec : Codec) (paths : PathText) (env : ResponseEnvelope) : Except String String :=
  match env.serialize paths with
  | none => .error "serializing admin XPC response envelope"
  | some v => .ok (codec.print v)

def fromJson (codec : Codec) (json : String) : Except String ResponseEnvelope :=
  match (codec.parse json).bind deserialize with
  | none => .error "parsing admin XPC response envelope"
  | some env => (ensureProtocolVersion env.version).map fun _ => env

end ResponseEnvelope

end Proto
end Konstantin
