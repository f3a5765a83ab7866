import Konstantin.Effect.Contract
import Konstantin.Tray.BundleWatch

/-!
# The start of the tray

`main` of `crates/tray/src/bin/tray.rs` up to the menu, with its modules
`service_management` and `install`: the tray looks after the registration of the daemon
and of its own agent, and asks before it changes the daemon's.

Instants of the monotonic clock are counted in nanoseconds.  The text of an error is its
outermost message.
-/

namespace Konstantin
namespace Tray

open Fs Effect Proto

/-- An alert with two buttons. -/
structure Question where
  title : String
  body : String
  primary : String
  secondary : String

inductive StartupOp where
  | lock
  | currentExe
  | isFile (p : Path)
  | service (s : ManagedService)
  | status (s : ManagedService)
  | register (s : ManagedService)
  | unregister (s : ManagedService)
  | connect
  | send (req : AdminRequest) (timeout : Nat)
  | currentUserIsAdmin
  | confirm (q : Question)
  | message (title body : String)
  | openLoginItemsSettings
  | now
  | sleep (duration : Nat)
  /-- A loop that goes on behind the turns that the model gives it. -/
  | unending
  /-- The menu with its timer and its subscriber. -/
  | run

def StartupOp.Reply : StartupOp → Type
  | lock => Except String Bool
  | currentExe => Except String Path
  | isFile _ => Bool
  | service _ => Except String Unit
  | status _ => Int
  | register _ => Except String Unit
  | unregister _ => Except String Unit
  | connect => Bool
  | send .. => Except String AdminResponse
  | currentUserIsAdmin => Except String Bool
  | confirm _ => Bool
  | message .. => Unit
  | openLoginItemsSettings => Unit
  | now => Nat
  | sleep _ => Unit
  | unending => Empty
  | run => Unit

abbrev StartupProgram (α : Type) : Type := Program StartupOp StartupOp.Reply α

/-! ## Where the tray runs from -/

inductive Source where
  | bundle
  | devTree
  deriving DecidableEq

structure BundlePaths where
  daemonBinary : Path
  source : Source
  bundleRoot : Option Path

/-- `Path::join` of one name. -/
def joined (p : Path) (name : String) : Path :=
  { p with components := p.components ++ [.normal name], ending := .plain }

/-- `Paths::resolve`. -/
def BundlePaths.resolve : StartupProgram (Except String BundlePaths) :=
  .ask .currentExe fun (exe : Except String Path) =>
    match exe with
    | .error e => .done (.error ("reading current_exe: " ++ e))
    | .ok exe =>
      match exe.parent with
      | none => .done (.error "exe has no parent dir")
      | some exeDir =>
        let devTree : BundlePaths := ⟨joined exeDir "screentimed", .devTree, none⟩
        match exeDir.parent with
        | none => .done (.ok devTree)
        | some contents =>
          let bundledDaemon := joined (joined contents "Resources") "screentimed"
          .ask (.isFile bundledDaemon) fun (there : Bool) =>
            .done (.ok (if there then ⟨bundledDaemon, .bundle, contents.parent⟩ else devTree))

/-! ## Managed services -/

namespace ServiceStatus

def fromRaw (raw : Int) : ServiceStatus :=
  if raw = 0 then .notRegistered
  else if raw = 1 then .enabled
  else if raw = 2 then .requiresApproval
  else if raw = 3 then .notFound
  else .unknown raw

/-- The derived printing. -/
def debug : ServiceStatus → String
  | notRegistered => "NotRegistered"
  | enabled => "Enabled"
  | requiresApproval => "RequiresApproval"
  | notFound => "NotFound"
  | unknown raw => "Unknown(" ++ toString raw ++ ")"

end ServiceStatus

/-- `daemon_status` and `agent_status`. -/
def statusOf (s : ManagedService) : StartupProgram (Except String ServiceStatus) :=
  .ask (.service s) fun (found : Except String Unit) =>
    match found with
    | .error e => .done (.error e)
    | .ok () => .ask (.status s) fun (raw : Int) => .done (.ok (.fromRaw raw))

def registerService (s : ManagedService) : StartupProgram (Except String ServiceStatus) :=
  .ask (.register s) fun (registered : Except String Unit) =>
    match registered with
    | .ok () => statusOf s
    | .error e =>
      (statusOf s).bind fun current =>
        match current with
        | .ok .enabled => .done (.ok .enabled)
        | .ok .requiresApproval => .done (.ok .requiresApproval)
        | _ => .done (.error e)

/-- `register_daemon`, and the registration at the end of `ensure_agent_registered`. -/
def registerFound (s : ManagedService) : StartupProgram (Except String ServiceStatus) :=
  .ask (.service s) fun (found : Except String Unit) =>
    match found with
    | .error e => .done (.error e)
    | .ok () => registerService s

def ensureAgentRegistered : StartupProgram (Except String ServiceStatus) :=
  (statusOf .agent).bind fun status =>
    match status with
    | .error e => .done (.error e)
    | .ok .enabled => .done (.ok .enabled)
    | .ok .requiresApproval => .done (.ok .requiresApproval)
    | .ok _ => registerFound .agent

def refreshDaemonRegistration : StartupProgram (Except String ServiceStatus) :=
  .ask (.service .daemon) fun (found : Except String Unit) =>
    match found with
    | .error e => .done (.error e)
    | .ok () =>
      .ask (.unregister .daemon) fun (unregistered : Except String Unit) =>
        match unregistered with
        | .error e => .done (.error e)
        | .ok () => registerFound .daemon

/-! ## The daemon behind its registration -/

inductive DaemonLifecycleState where
  | notRegistered
  | requiresApproval
  | enabledHealthy
  | enabledMissingSocket
  | enabledMissingAdminEndpoint
  deriving DecidableEq

def classifyDaemonLifecycle (status : ServiceStatus) (socketReachable adminReachable : Bool) :
    DaemonLifecycleState :=
  match status with
  | .notRegistered => .notRegistered
  | .notFound => .notRegistered
  | .unknown _ => .notRegistered
  | .requiresApproval => .requiresApproval
  | .enabled =>
    if !socketReachable then .enabledMissingSocket
    else if !adminReachable then .enabledMissingAdminEndpoint
    else .enabledHealthy

def second : Nat := 10 ^ 9

/-- Between two attempts to reach the daemon. -/
def retryInterval : Nat := 250 * 10 ^ 6

/-- The attempts that are left. -/
def controlAttempts : Nat → StartupProgram Bool
  | 0 => .done false
  | left + 1 =>
    .ask (.send .getDaemonInfo second) fun (reply : Except String AdminResponse) =>
      match reply with
      | .ok (.daemonInfo _) => .done true
      | .ok (.unauthorized _) => .done true
      | _ =>
        if left = 0 then .done false
        else .ask (.sleep retryInterval) fun _ => controlAttempts left

def adminControlReachable : StartupProgram Bool := controlAttempts 3

def daemonLifecycleState : StartupProgram (Except String DaemonLifecycleState) :=
  (statusOf .daemon).bind fun status =>
    match status with
    | .error e => .done (.error e)
    | .ok status =>
      .ask .connect fun (socketReachable : Bool) =>
        if socketReachable then
          adminControlReachable.bind fun adminReachable =>
            .done (.ok (classifyDaemonLifecycle status true adminReachable))
        else .done (.ok (classifyDaemonLifecycle status false false))

section

-- `CARGO_PKG_VERSION`, and the turns that a loop is given.
variable (bundled : String) (turns : Nat)

def notExposed : String :=
  "registered daemon did not expose the expected socket, version, and admin endpoint"

/-- The loop of `verify_enabled_daemon`. -/
def verifyLoop (status : ServiceStatus) (deadline : Nat) :
    Nat → StartupProgram (Except String ServiceStatus)
  | 0 => .ask .unending fun (never : Empty) => nomatch never
  | turns + 1 =>
    let again : StartupProgram (Except String ServiceStatus) :=
      .ask .now fun (t : Nat) =>
        if deadline ≤ t then .done (.error notExposed)
        else .ask (.sleep retryInterval) fun _ => verifyLoop status deadline turns
    .ask .connect fun (reachable : Bool) =>
      if reachable then
        .ask (.send .getDaemonInfo second) fun (reply : Except String AdminResponse) =>
          match reply with
          | .ok (.daemonInfo version) => if version = bundled then .done (.ok status) else again
          | _ => again
      else again

def verifyEnabledDaemon (status : ServiceStatus) :
    StartupProgram (Except String ServiceStatus) :=
  if status ≠ .enabled then .done (.ok status)
  else .ask .now fun (t : Nat) => verifyLoop bundled status (t + 15 * second) turns

def verified (registration : StartupProgram (Except String ServiceStatus)) :
    StartupProgram (Except String ServiceStatus) :=
  registration.bind fun status =>
    match status with
    | .error e => .done (.error e)
    | .ok status => verifyEnabledDaemon bundled turns status

def registerAndVerifyDaemon : StartupProgram (Except String ServiceStatus) :=
  verified bundled turns (registerFound .daemon)

def refreshAndVerifyDaemon : StartupProgram (Except String ServiceStatus) :=
  verified bundled turns refreshDaemonRegistration

/-! ## What the user is asked and told -/

def askApproval (title body : String) : StartupProgram Unit :=
  .ask .openLoginItemsSettings fun _ => .ask (.message title body) fun _ => .done ()

def approvalNeeded : StartupProgram Unit :=
  askApproval "Approval Needed" "Enable Konstantin in System Settings, then open Konstantin again."

/-- The end of `run_smappservice_install` and of `run_smappservice_repair`. -/
def settle (attention failed couldNot : String) :
    Except String ServiceStatus → StartupProgram Bool
  | .ok .enabled => .done true
  | .ok .requiresApproval => approvalNeeded.bind fun _ => .done false
  | .ok status =>
    .ask (.message attention ("Unexpected ServiceManagement status: " ++ status.debug)) fun _ =>
      .done false
  | .error e => .ask (.message failed (couldNot ++ "\n\n" ++ e)) fun _ => .done false

def runSmappserviceInstall : StartupProgram Bool :=
  (registerAndVerifyDaemon bundled turns).bind
    (settle "Konstantin install needs attention." "Konstantin install failed."
      "macOS couldn't register the bundled service with ServiceManagement.")

def runSmappserviceRepair : StartupProgram Bool :=
  (refreshAndVerifyDaemon bundled turns).bind
    (settle "Konstantin repair needs attention." "Konstantin repair failed."
      "macOS couldn't refresh the bundled service with ServiceManagement.")

/-- What `run_first_launch_install` and `run_admin_control_repair` have in common. -/
def withConsent (q : Question) (outsideBundle : String) (work : StartupProgram Bool) :
    StartupProgram Bool :=
  .ask (.confirm q) fun (yes : Bool) =>
    if !yes then .done false
    else
      BundlePaths.resolve.bind fun paths =>
        match paths with
        | .error e => .ask (.message "Could not locate bundled resources." e) fun _ => .done false
        | .ok paths =>
          if paths.source ≠ .bundle then
            .ask (.message "Build App First" outsideBundle) fun _ => .done false
          else work

def setUpQuestion : Question where
  title := "Set up Konstantin"
  body := "Konstantin needs to install its background service. " ++
    "macOS may ask an administrator to approve it."
  primary := "Set Up…"
  secondary := "Quit"

def runFirstLaunchInstall : StartupProgram Bool :=
  withConsent setUpQuestion
    ("Konstantin setup is only available from the packaged app bundle. " ++
      "For development, build the release binaries, run " ++
      "./packaging/build-app.sh, then launch target/Konstantin.app.")
    (runSmappserviceInstall bundled turns)

def repairQuestion : Question where
  title := "Repair Konstantin"
  body := "Konstantin's background service is running, but its administrator control " ++
    "channel is unavailable. macOS may ask an administrator to refresh the service."
  primary := "Repair…"
  secondary := "Later"

def runAdminControlRepair : StartupProgram Bool :=
  withConsent repairQuestion
    "Konstantin service repair is only available from the packaged app bundle."
    (runSmappserviceRepair bundled turns)

def maybeRunAdminControlRepair : StartupProgram Unit :=
  (statusOf .daemon).bind fun status =>
    match status with
    | .ok .requiresApproval => approvalNeeded
    | .ok .enabled =>
      .ask .currentUserIsAdmin fun (admin : Except String Bool) =>
        match admin with
        | .ok true => (runAdminControlRepair bundled turns).bind fun _ => .done ()
        | _ => .done ()
    | _ => .done ()

def maybeRefreshDaemonVersion : StartupProgram Unit :=
  .ask (.send .getDaemonInfo (2 * second)) fun (reply : Except String AdminResponse) =>
    match reply with
    | .ok (.daemonInfo running) =>
      if running = bundled then .done ()
      else
        BundlePaths.resolve.bind fun paths =>
          match paths with
          | .error _ => .done ()
          | .ok paths =>
            if paths.source ≠ .bundle then .done ()
            else (runSmappserviceRepair bundled turns).bind fun _ => .done ()
    | _ => .done ()

def ensureUserAgent : StartupProgram Unit :=
  ensureAgentRegistered.bind fun status =>
    match status with
    | .ok .requiresApproval =>
      askApproval "Login Startup Approval Needed"
        "Enable Konstantin in System Settings so its menu-bar app starts after login."
    | .ok _ => .done ()
    | .error e =>
      .ask (.message "Login Startup Setup Failed"
        ("macOS couldn't register Konstantin's login agent.\n\n" ++ e)) fun _ => .done ()

/-- From the registration of the agent to the menu. -/
def showMenu : StartupProgram (Except String Unit) :=
  BundlePaths.resolve.bind fun paths =>
    match paths with
    | .ok ⟨_, .bundle, _⟩ =>
      ensureUserAgent.bind fun _ => .ask .run fun _ => .done (.ok ())
    | _ => .ask .run fun _ => .done (.ok ())

/-- `main` without arguments. -/
def startTray : StartupProgram (Except String Unit) :=
  .ask .lock fun (locked : Except String Bool) =>
    match locked with
    | .error e => .done (.error e)
    | .ok false => .done (.ok ())
    | .ok true =>
      BundlePaths.resolve.bind fun _ =>
        daemonLifecycleState.bind fun state =>
          match state with
          | .ok .enabledHealthy => (maybeRefreshDaemonVersion bundled turns).bind fun _ => showMenu
          | .ok .enabledMissingSocket => showMenu
          | .ok .enabledMissingAdminEndpoint =>
            (maybeRunAdminControlRepair bundled turns).bind fun _ => showMenu
          | _ =>
            (runFirstLaunchInstall bundled turns).bind fun installed =>
              if !installed then .done (.ok ()) else showMenu

end

end Tray
end Konstantin
