import Konstantin.Text.Numbers
import Konstantin.Toml

/-!
# The settings window

The `Configure…` window of `crates/tray/src/bin/tray.rs`, from the TOML value it
was opened on to the `SetConfig` it sends.  The window keeps the value it was
opened on; the fields are texts, and what they stand for is worked out when the
operator saves.
-/

namespace Konstantin
namespace Tray

open Toml Text

/-- `toml::to_string_pretty`, of a table. -/
abbrev Printer := Table → Except String String

structure LocalUser where
  username : String
  deriving DecidableEq

/-- The accounts `users::enumerate` lists, each once. -/
structure Accounts where
  users : List LocalUser
  distinct : (users.map LocalUser.username).Nodup

/-! ## Filling the fields -/

def currentThresholds (cfg : Value) : String :=
  match (cfg.asTable.bind fun t => t.get "warn_thresholds_minutes").bind Value.items with
  | some a => ", ".intercalate ((a.filterMap Value.asInteger).map toString)
  | none => "15, 5, 1"

structure InitialUserSetting where
  limited : Bool
  minutes : UInt32
  deriving DecidableEq

def initialUserSetting (entry : Option Value) : InitialUserSetting where
  limited := entry.isSome
  minutes :=
    ((entry.bind Value.asTable).bind fun t =>
      (t.get "daily_limit_minutes").bind Value.asInteger).elim 60 fun n => UInt32.ofInt (max n 1)

def collectUserSettings (users : List LocalUser) (cfg : Value) : List InitialUserSetting :=
  let usersTable := cfg.asTable.bind fun t => (t.get "users").bind Value.asTable
  users.map fun u => initialUserSetting (usersTable.bind fun t => t.get u.username)

structure Row where
  user : LocalUser
  limitCheck : Bool
  minutesField : String
  deriving DecidableEq

/-- The window, with one row for an account. -/
structure UiHandle where
  configValue : Value
  rows : List Row
  thresholdsField : String
  distinct : (rows.map fun r => r.user.username).Nodup

def buildRow (user : LocalUser) (init : InitialUserSetting) : Row where
  user := user
  limitCheck := init.limited
  minutesField := toString init.minutes.toNat

theorem zipWith_buildRow (users : List LocalUser) (cfg : Value) :
    List.zipWith buildRow users (collectUserSettings users cfg) =
      users.map fun u => buildRow u
        (initialUserSetting ((cfg.asTable.bind fun t => (t.get "users").bind Value.asTable).bind
          fun t => t.get u.username)) := by
  rw [collectUserSettings, List.zipWith_map_right, List.zipWith_self]

/-- The window as `open` builds it from the value of the config text. -/
def openWindow (configValue : Value) (accounts : Accounts) : UiHandle where
  configValue := configValue
  rows := List.zipWith buildRow accounts.users (collectUserSettings accounts.users configValue)
  thresholdsField := currentThresholds configValue
  distinct := by
    rw [zipWith_buildRow, List.map_map]
    exact accounts.distinct

/-! ## Reading the fields -/

def parseU32 (cs : List Char) : Option UInt32 := (parseUnsigned (2 ^ 32) cs).map UInt32.ofNat

def isSeparator (c : Char) : Bool := c == ',' || isWhitespace c

def parsePieces : List (List Char) → Except String (List UInt32)
  | [] => .ok []
  | piece :: pieces =>
    if trim piece = [] then parsePieces pieces
    else
      match parseU32 (trim piece) with
      | none => .error ("'" ++ String.ofList (trim piece) ++ "' is not a non-negative whole number")
      | some n => (parsePieces pieces).map (n :: ·)

def parseThresholds (text : String) : Except String (List UInt32) :=
  parsePieces (text.toList.splitOnP isSeparator)

structure RowSnapshot where
  username : String
  limited : Bool
  minutes : UInt32
  deriving DecidableEq

structure Snapshot where
  thresholds : List UInt32
  rows : List RowSnapshot
  configValue : Value

def captureRow (row : Row) : RowSnapshot where
  username := row.user.username
  limited := row.limitCheck
  minutes := (parseU32 (trim row.minutesField.toList)).getD 0

def captureSnapshot (h : UiHandle) : Snapshot where
  thresholds := ((parseThresholds h.thresholdsField).toOption).getD []
  rows := h.rows.map captureRow
  configValue := h.configValue

/-! ## Saving -/

/-- The first checked row whose minutes are out of range, as its message. -/
def checkRows : List RowSnapshot → Except String Unit
  | [] => .ok ()
  | row :: rows =>
    if row.limited = true ∧ row.minutes = 0 then
      .error (row.username ++ ": minutes must be greater than 0 when 'Limit daily' is on")
    else if row.limited = true ∧ 1440 < row.minutes then
      .error (row.username ++ ": minutes must be at most 1440 (24 hours)")
    else checkRows rows

def userEntry (row : RowSnapshot) : Value :=
  .table (Table.insert [] "daily_limit_minutes" (.integer row.minutes.toNat))

def usersTable (rows : List RowSnapshot) : Table :=
  rows.foldl (fun t row => if row.limited then t.insert row.username (userEntry row) else t) []

/-- The table of the config text, with the two keys of the window in it. -/
def newTable (t : Table) (snap : Snapshot) : Table :=
  (t.insert "warn_thresholds_minutes"
    (.array (snap.thresholds.map fun n => .integer n.toNat))).insert "users"
      (.table (usersTable snap.rows))

def buildNewConfigToml (print : Printer) (snap : Snapshot) : Except String String := do
  checkRows snap.rows
  match snap.configValue.asTable with
  | none => throw "config root is not a table"
  | some t => (print (newTable t snap)).mapError fun e => "serializing TOML: " ++ e

/-- What a tap on Save leads to first: an alert, or a `SetConfig` with a text. -/
inductive SaveFlow where
  | invalidConfiguration (message : String)
  | setConfig (toml : String)
  deriving DecidableEq

def saveFlow (print : Printer) (h : UiHandle) : SaveFlow :=
  match buildNewConfigToml print (captureSnapshot h) with
  | .error message => .invalidConfiguration message
  | .ok text => .setConfig text

end Tray
end Konstantin
