import Konstantin.Transition
import Konstantin.Effect.Fallible
import Konstantin.Effect.Program
import Konstantin.Fs.Path
import Konstantin.Fs.Spelling
import Konstantin.Fs.Tree
import Konstantin.Fs.Replace
import Konstantin.Toml
import Konstantin.Calendar.Zone
import Konstantin.Json
import Konstantin.Proto.Admin
import Konstantin.Proto.AdminJson
import Konstantin.Daemon.Config
import Konstantin.Daemon.State
import Konstantin.Daemon.Time
import Konstantin.Daemon.Process
import Konstantin.Daemon.Ledger
import Konstantin.Daemon.Status
import Konstantin.Daemon.Allowance
import Konstantin.Daemon.Machine
import Konstantin.Daemon.Durability
import Konstantin.Daemon.Enforcement
import Konstantin.Daemon.Backoff
import Konstantin.Daemon.KillSwitch
import Konstantin.Daemon.Host
import Konstantin.Daemon.Control
import Konstantin.Daemon.AtomicWrite
import Konstantin.Daemon.Room
import Konstantin.Daemon.Answers
import Konstantin.Daemon.Xpc
import Konstantin.Daemon.Atomicity
import Konstantin.Daemon.Pause
import Konstantin.Streams.Tightening
import Konstantin.Tray.Notifications
import Konstantin.Proto.Frame
import Konstantin.Proto.Reading
import Konstantin.Streams.Broadcast
import Konstantin.Streams.Register
import Konstantin.Daemon.Subscribe
import Konstantin.Daemon.Freshness
import Konstantin.Daemon.Server
import Konstantin.Daemon.Isolation
import Konstantin.Daemon.ExtraFrames
import Konstantin.Daemon.Acceptance
import Konstantin.Daemon.ConcurrentSet
import Konstantin.Daemon.Uninstall
import Konstantin.Text.Numbers
import Konstantin.Tray.Configure
import Konstantin.Tray.Saving
import Konstantin.Tray.Rebuilding
import Konstantin.Tray.Reopening
import Konstantin.Tray.LostUpdates
import Konstantin.Tray.AdminXpc
import Konstantin.Tray.PauseItem
import Konstantin.Tray.Warnings
import Konstantin.Tray.Watching
import Konstantin.Effect.Cuts
import Konstantin.Daemon.Secrecy
import Konstantin.Effect.Polling
import Konstantin.Tray.BundleWatch
import Konstantin.Daemon.LogoutSuccess
import Konstantin.Daemon.Agreement
import Konstantin.Text.Lines
import Konstantin.Daemon.Auth
import Konstantin.Tray.Users
import Konstantin.Daemon.Dscl
import Konstantin.Text.Hex
import Konstantin.Tray.Pictures
import Konstantin.Tray.Display
import Konstantin.Proto.Truncated
import Konstantin.Daemon.CleanClose
import Konstantin.Daemon.Conversation
import Konstantin.Tray.Subscription
import Konstantin.Tray.StatusTool
import Konstantin.Tray.MenuBar
import Konstantin.Proto.StatusJson
import Konstantin.Daemon.Overflow
import Konstantin.Tray.Handshake
import Konstantin.Effect.Contract
import Konstantin.Tray.Startup
import Konstantin.Tray.Consent
import Konstantin.Tray.Enumeration
import Konstantin.Daemon.StateJson
import Konstantin.Daemon.RealTime
import Konstantin.Daemon.ConcurrentPause
