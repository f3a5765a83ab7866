import Konstantin.Fs.Path

/-!
# The admin channel's messages

`crates/proto/src/admin.rs`.  A request arrives as a JSON text; `Decoder` stands
for the JSON parser, which gives an envelope or fails.
-/

namespace Konstantin
namespace Proto

open Fs

def protocolVersion : UInt64 := 2

inductive AdminRequest where
  | getConfig
  | validateConfig (toml : String)
  | setConfig (toml : String)
  | reloadDaemon
  | getDaemonInfo
  | getEnforcementState
  | setEnforcementPaused (paused : Bool)
  | prepareUninstall (preserveConfig : Bool)
  deriving DecidableEq

/-- A condition on the two requests that write or remove a file, and on no other. -/
def AdminRequest.IfWrites (onConfig : String → Prop) (onPaused : Bool → Prop) :
    AdminRequest → Prop
  | setConfig toml => onConfig toml
  | setEnforcementPaused paused => onPaused paused
  | _ => True

instance (onConfig : String → Prop) (onPaused : Bool → Prop) [DecidablePred onConfig]
    [DecidablePred onPaused] : DecidablePred (AdminRequest.IfWrites onConfig onPaused) := by
  intro req
  unfold AdminRequest.IfWrites
  split <;> infer_instance

inductive AdminResponse where
  | config (toml : String) (enforcementPaused : Bool) (killSwitchPath : Path)
  | validationOk
  | daemonInfo (version : String)
  | enforcementState (paused : Bool) (killSwitchPath : Path)
  | ok
  | unauthorized (reason : String)
  | error (message : String)
  deriving DecidableEq

def AdminResponse.refused : AdminResponse → Bool
  | unauthorized _ => true
  | error _ => true
  | _ => false

structure RequestEnvelope where
  version : UInt64
  requestId : String
  request : AdminRequest
  deriving DecidableEq

structure ResponseEnvelope where
  version : UInt64
  requestId : String
  response : AdminResponse
  deriving DecidableEq

abbrev Decoder := String → Option RequestEnvelope

def ensureProtocolVersion (version : UInt64) : Except String Unit :=
  if version ≠ protocolVersion then
    .error ("unsupported admin XPC protocol version " ++ toString version.toNat)
  else .ok ()

def RequestEnvelope.fromJson (decode : Decoder) (json : String) : Except String RequestEnvelope :=
  match decode json with
  | none => .error "parsing admin XPC request envelope"
  | some env => (ensureProtocolVersion env.version).map fun _ => env

def ResponseEnvelope.new (requestId : String) (response : AdminResponse) : ResponseEnvelope where
  version := protocolVersion
  requestId := requestId
  response := response

end Proto
end Konstantin
