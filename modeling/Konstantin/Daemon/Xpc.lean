import Konstantin.Daemon.Answers
import Konstantin.Proto.AdminJson

/-!
# The daemon's end of the admin channel

The rest of `crates/daemon/src/control/xpc.rs`: the reply as a text, and the
dictionary it is sent in.  A dictionary holds C strings, which have no NUL in them.
-/

namespace Konstantin
namespace Daemon

open Fs Toml Json Effect Proto

/-- What a message has under `payload_json`. -/
inductive Payload where
  | text (json : String)
  | missing
  | notUtf8
  deriving DecidableEq

structure Reply where
  payloadJson : String
  ok : Bool
  deriving DecidableEq

def fatalJson : String :=
  "\x7b\"version\":1,\"request_id\":\"\",\"response\":\x7b\"kind\":\"error\",\"message\":" ++
    "\"fatal response serialization error\"\x7d\x7d"

def errorResponseJson (codec : Codec) (paths : PathText) (message : String) : String :=
  match (ResponseEnvelope.new "" (.error message)).toJson codec paths with
  | .ok json => json
  | .error _ => fatalJson

/-- The end of `handle_request_json`. -/
def responseJson (codec : Codec) (paths : PathText) (env : ResponseEnvelope) : String :=
  match env.toJson codec paths with
  | .ok json => json
  | .error e =>
    errorResponseJson codec paths ("serializing admin XPC response envelope: " ++ e)

def setString (value : String) : Except String String :=
  if '\x00' ∈ value.toList then
    .error "dictionary string value contains an interior NUL byte"
  else .ok value

/-- The reply dictionary, unless it cannot be filled. -/
def replyWith (codec : Codec) (json : String) : Option Reply :=
  match setString json with
  | .error _ => none
  | .ok payload => some
    { payloadJson := payload
      ok := match ResponseEnvelope.fromJson codec json with
        | .ok env => !env.response.refused
        | .error _ => false }

namespace Controller

def handlePeerMessage (toml : Parser) (codec : Codec) (paths : PathText) (c : Controller)
    (operator : Operator) (payload : Payload) (w : World) : Option Reply × World :=
  match payload with
  | .text json =>
    let r := c.handleRequestJson toml (RequestEnvelope.decoder codec) operator json w
    (replyWith codec (responseJson codec paths r.1), r.2)
  | .missing =>
    (replyWith codec (errorResponseJson codec paths "admin XPC request missing payload_json"), w)
  | .notUtf8 =>
    (replyWith codec (errorResponseJson codec paths "XPC string was not UTF-8"), w)

end Controller

/-! ## Paths in responses are spelled by a text -/

theorem Config.killSwitchPath_parsed {toml : Parser} {text : String} {cfg : Config}
    (h : Config.parseToml toml text = .ok cfg) : ∃ raw, cfg.killSwitchPath = Path.parse raw := by
  obtain ⟨⟨t, -, hread⟩, -⟩ := (Config.parseToml_ok_iff toml text cfg).mp h
  obtain ⟨-, -, -, -, -, -, hpath, -⟩ := (Config.deserialize_eq_some_iff t cfg).mp hread
  unfold Table.getOr at hpath
  split at hpath
  · exact ⟨"/etc/screentimed/disable", (Option.some.inj hpath).symm⟩
  · rename_i v hv
    obtain ⟨raw, -, hraw⟩ := Option.map_eq_some_iff.mp hpath
    exact ⟨raw, hraw.symm⟩

theorem Config.load_parsed {toml : Parser} {path : Path} {fs : FileSystem} {cfg : Config}
    (h : Config.load toml path fs = .ok cfg) : ∃ raw, cfg.killSwitchPath = Path.parse raw := by
  obtain ⟨text, -, -, -, hparse⟩ := Config.load_eq_ok h
  exact Config.killSwitchPath_parsed hparse

namespace Controller

variable (toml : Parser) (c : Controller)

theorem ifOk_any {α : Type} (x : Fallible World α) (w : World) :
    IfOk (x.outcome w).1 fun _ => True :=
  fun _ _ => trivial

theorem parsed_handleAuthorized (req : AdminRequest) (w : World) :
    IfOk ((c.handleAuthorized toml req).outcome w).1 AdminResponse.PathParsed := by
  have hparse : ∀ (text : String) (w : World),
      IfOk ((Fallible.query fun _ : World => Config.parseToml toml text).outcome w).1
        fun cfg => ∃ raw, cfg.killSwitchPath = Path.parse raw :=
    fun text w cfg h => Config.killSwitchPath_parsed h
  have hload : ∀ w : World, IfOk ((c.loadConfig toml).outcome w).1
      fun cfg => ∃ raw, cfg.killSwitchPath = Path.parse raw :=
    fun w cfg h => Config.load_parsed h
  revert w
  cases req with
  | getConfig =>
    refine Fallible.ifOk_bind (ifOk_any _) fun text _ => ?_
    refine Fallible.ifOk_bind (hparse text) fun cfg hcfg => ?_
    exact Fallible.ifOk_bind (ifOk_any _) fun paused _ => Fallible.ifOk_pure hcfg
  | validateConfig text =>
    exact Fallible.ifOk_bind (ifOk_any _) fun _ _ => Fallible.ifOk_pure trivial
  | setConfig text =>
    refine Fallible.ifOk_bind (hparse text) fun cfg hcfg => ?_
    refine Fallible.ifOk_bind (ifOk_any _) fun _ _ => ?_
    refine Fallible.ifOk_bind (ifOk_any _) fun _ _ => ?_
    exact Fallible.ifOk_bind (ifOk_any _) fun paused _ => Fallible.ifOk_pure hcfg
  | reloadDaemon =>
    refine Fallible.ifOk_bind (ifOk_any _) fun _ _ => ?_
    exact Fallible.ifOk_bind (ifOk_any _) fun _ _ => Fallible.ifOk_pure trivial
  | getDaemonInfo => exact Fallible.ifOk_pure trivial
  | getEnforcementState =>
    refine Fallible.ifOk_bind hload fun cfg hcfg => ?_
    exact Fallible.ifOk_bind (ifOk_any _) fun paused _ => Fallible.ifOk_pure hcfg
  | setEnforcementPaused paused =>
    refine Fallible.ifOk_bind hload fun cfg hcfg => ?_
    exact Fallible.ifOk_bind (ifOk_any _) fun _ _ => Fallible.ifOk_pure hcfg
  | prepareUninstall preserveConfig =>
    rw [handleAuthorized]
    split
    · intro w resp hresp
      cases hresp
    · exact Fallible.ifOk_bind (ifOk_any _) fun _ _ => Fallible.ifOk_pure trivial

theorem parsed_handle (operator : Operator) (req : AdminRequest) (w : World) :
    (c.handle toml operator req w).1.PathParsed := by
  by_cases hallowed : operator.allowed = true
  · rw [handle_allowed toml c hallowed]
    cases h : ((c.handleAuthorized toml req).outcome w).1 with
    | ok resp => exact parsed_handleAuthorized toml c req w resp h
    | error message => trivial
  · rw [handle, if_pos (by simpa using hallowed)]
    trivial

end Controller

end Daemon
end Konstantin
