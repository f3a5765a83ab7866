import Konstantin.Daemon.Config
import Konstantin.Effect.Fallible
import Konstantin.Proto.Admin

/-!
# The admin control plane

`crates/daemon/src/control/mod.rs` and `handle_request_json` of
`crates/daemon/src/control/xpc.rs`.  An error carries its outermost message, which
is what the reply shows.  A restart of the daemon is a flag here: the source
schedules it in a thread of its own, after the reply.
-/

namespace Konstantin
namespace Daemon

open Fs Toml Effect Proto

def systemConfigPath : Path := Path.parse "/etc/screentimed/config.toml"

structure Operator where
  uid : UInt32
  username : String
  allowed : Bool
  reason : String
  deriving DecidableEq

/-- The controller, with the id of its process and the version of its package. -/
structure Controller where
  configPath : Path
  pid : Nat
  version : String

structure World where
  fs : FileSystem
  restartPending : Bool

def onFiles {α : Type} (x : Fallible FileSystem α) : Fallible World α :=
  x.onPart World.fs fun w fs => { w with fs := fs }

def createDirAll (message : String) (p : Path) : Fallible FileSystem Unit := fun fs =>
  ((fs.createDirAll p.trail).1.mapError fun _ => message, (fs.createDirAll p.trail).2)

def setMode0600 (p : Path) : Fallible FileSystem Unit :=
  .change ("chmod 0600 " ++ p.display) fun fs =>
    fs.atPath p fun fs l => fs.setPermissions l 0o600

def tmpPath (pid : Nat) (path : Path) (defaultExt : String) : Path :=
  path.withExtension (path.extension.getD defaultExt ++ ".tmp." ++ toString pid)

/-- The common end of `write_marker_atomic` and `write_config_atomic`. -/
def writeThrough (tmp path : Path) (text : String) : Fallible FileSystem Unit := do
  .change ("writing " ++ tmp.display) fun fs => fs.atPath tmp fun fs l => fs.write l text
  setMode0600 tmp
  .change ("renaming " ++ tmp.display ++ " to " ++ path.display) fun fs =>
    fs.atPath tmp fun fs src => fs.atPath path fun fs dst => fs.rename src dst
  setMode0600 path

def markerText : String := "disabled by Konstantin operator\n"

def writeMarkerAtomic (pid : Nat) (path : Path) : Fallible FileSystem Unit :=
  match path.parent with
  | none => throw "kill_switch_path unexpectedly has no parent"
  | some parent => do
    createDirAll ("creating kill-switch dir " ++ parent.display) parent
    writeThrough (tmpPath pid path "marker") path markerText

def createConfigDir (path : Path) : Fallible FileSystem Unit :=
  match path.parent with
  | none => pure ()
  | some parent =>
    if parent.isEmpty then pure ()
    else createDirAll ("creating config dir " ++ parent.display) parent

def writeConfigAtomic (pid : Nat) (path : Path) (toml : String) : Fallible FileSystem Unit := do
  createConfigDir path
  writeThrough (tmpPath pid path "toml") path toml

def validateKillSwitchPath (path : Path) : Except String Path :=
  if path.isEmpty then .error "kill_switch_path must not be empty"
  else if path.absolute = false then
    .error ("kill_switch_path must be absolute: " ++ path.display)
  else if path.parent = none then
    .error ("kill_switch_path must have a parent: " ++ path.display)
  else .ok path

def killSwitchPaused (cfg : Config) : Fallible FileSystem Bool := do
  let _ ← .query fun _ => validateKillSwitchPath cfg.killSwitchPath
  .query fun fs => .ok (fs.pathFound cfg.killSwitchPath)

/-- A removal of what is not there is no failure. -/
def ifExists (fs : FileSystem) : Except IoError FileSystem → Except IoError FileSystem
  | .error .notFound => .ok fs
  | r => r

theorem ifExists_eq_ok {fs fs' : FileSystem} {r : Except IoError FileSystem}
    (h : ifExists fs r = .ok fs') : r = .ok fs' ∨ r = .error .notFound ∧ fs' = fs := by
  cases r with
  | ok after => exact Or.inl h
  | error e =>
    cases e with
    | notFound =>
      cases h
      exact Or.inr ⟨rfl, rfl⟩
    | _ => cases h

def removeFileIfExists (path : Path) : Fallible FileSystem Unit :=
  .change ("removing " ++ path.display) fun fs =>
    ifExists fs (fs.atPath path FileSystem.removeFile)

/-- The removal is that of `remove_file_if_exists`, written out in the source. -/
def setEnforcementPaused (pid : Nat) (cfg : Config) (paused : Bool) :
    Fallible FileSystem Unit := do
  let path ← .query fun _ => validateKillSwitchPath cfg.killSwitchPath
  if paused then writeMarkerAtomic pid path else removeFileIfExists path

def removeDirIfExists (path : Path) : Fallible FileSystem Unit :=
  .change ("removing " ++ path.display) fun fs =>
    ifExists fs (fs.atPath path FileSystem.removeDirAll)

def prepareUninstall (preserveConfig : Bool) : Fallible FileSystem Unit := do
  removeFileIfExists (Path.parse "/var/run/screentimed.sock")
  removeDirIfExists (Path.parse "/var/db/screentimed")
  if preserveConfig then pure () else removeDirIfExists (Path.parse "/etc/screentimed")

namespace Controller

def kickstartDaemonAfterReply (c : Controller) : Fallible World Unit :=
  .modify fun w =>
    if c.configPath.same systemConfigPath then { w with restartPending := true } else w

def loadConfig (toml : Parser) (c : Controller) : Fallible World Config :=
  .query fun w => Config.load toml c.configPath w.fs

def handleAuthorized (toml : Parser) (c : Controller) :
    AdminRequest → Fallible World AdminResponse
  | .getConfig => do
    let text ← .query fun w =>
      (w.fs.atPath c.configPath FileSystem.readToString).mapError fun _ =>
        "reading config file " ++ c.configPath.display
    let cfg ← .query fun _ => Config.parseToml toml text
    let paused ← onFiles (killSwitchPaused cfg)
    return .config text paused cfg.killSwitchPath
  | .validateConfig text => do
    let _ ← .query fun _ => Config.parseToml toml text
    return .validationOk
  | .setConfig text => do
    let cfg ← .query fun _ => Config.parseToml toml text
    onFiles (writeConfigAtomic c.pid c.configPath text)
    c.kickstartDaemonAfterReply
    let paused ← onFiles (killSwitchPaused cfg)
    return .enforcementState paused cfg.killSwitchPath
  | .reloadDaemon => do
    let _ ← c.loadConfig toml
    c.kickstartDaemonAfterReply
    return .ok
  | .getDaemonInfo => return .daemonInfo c.version
  | .getEnforcementState => do
    let cfg ← c.loadConfig toml
    let paused ← onFiles (killSwitchPaused cfg)
    return .enforcementState paused cfg.killSwitchPath
  | .setEnforcementPaused paused => do
    let cfg ← c.loadConfig toml
    onFiles (Daemon.setEnforcementPaused c.pid cfg paused)
    return .enforcementState paused cfg.killSwitchPath
  | .prepareUninstall preserveConfig => do
    if !c.configPath.same systemConfigPath then
      throw "uninstall preparation is only available for the system daemon"
    onFiles (prepareUninstall preserveConfig)
    return .ok

def handle (toml : Parser) (c : Controller) (operator : Operator) (req : AdminRequest)
    (w : World) : AdminResponse × World :=
  if operator.allowed = false then (.unauthorized operator.reason, w)
  else
    match (c.handleAuthorized toml req).outcome w with
    | (.ok resp, w') => (resp, w')
    | (.error message, w') => (.error message, w')

/-- `handle_request_json`, up to the printing of the envelope. -/
def handleRequestJson (toml : Parser) (decode : Decoder) (c : Controller) (operator : Operator)
    (json : String) (w : World) : ResponseEnvelope × World :=
  match RequestEnvelope.fromJson decode json with
  | .error message => (.new "" (.error message), w)
  | .ok env =>
    let r := c.handle toml operator env.request w
    (.new env.requestId r.1, r.2)

end Controller

/-! ## The operators of the module's tests, and the controller of the system daemon -/

def allowedOperator : Operator where
  uid := 501
  username := "admin"
  allowed := true
  reason := "admin"

def deniedOperator : Operator where
  uid := 502
  username := "standard"
  allowed := false
  reason := "not an administrator"

def systemController : Controller where
  configPath := systemConfigPath
  pid := 312
  version := "0.1.0"

end Daemon
end Konstantin
