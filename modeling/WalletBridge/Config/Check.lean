import WalletBridge.Config.Settings
import WalletBridge.Device.Error
import WalletBridge.Log.Level

/-!
# Checking settings

`complete` reads the mode and the list of hosts, replaces a `~` at the front of the data directory
and lists every setting that is wrong. What can be changed is changed even when something is wrong.
-/

namespace WalletBridge.Config

open Device Text

structure Problem where
  field : String
  message : String
deriving DecidableEq, Repr

def Problem.describe (p : Problem) : String := p.field ++ ": " ++ p.message

/-- The hosts of a list that is separated by commas; blanks around them and empty entries do not
count. -/
def parseWhitelist (s : String) : List String :=
  (((s.toList.splitOn ',').map trimChars).filter (!·.isEmpty)).map String.ofList

/-- The home directory: the one that the environment names, unless that is empty, and otherwise
the one of the account. -/
def homeDirectory (named account : Option String) : Option String :=
  (named.filter (!·.isEmpty)).or account

/-- Replaces a `~` that is the first part of a path; `none` without a home directory. -/
def expandHome (home : Option String) (path : String) : Option String :=
  match path.toList with
  | '~' :: rest =>
    if rest.isEmpty || rest.head? == some '/' then home.map fun h => h ++ String.ofList rest
    else some path
  | _ => some path

def problemIf (wrong : Bool) (field message : String) : List Problem :=
  if wrong then [{ field, message }] else []

def problems (home : Option String) (app : App) : List Problem :=
  problemIf (Mode.ofText? app.daemonMode).isNone "daemon_mode"
      (Error.invalidArgument (Mode.unknown app.daemonMode)).describe
    ++ problemIf (app.port == 0) "web_interface_port" "must be non-zero"
    ++ problemIf (isBlankText app.address) "web_interface_addr" "must not be empty"
    ++ problemIf (app.shutdownTimeout == 0) "shutdown_timeout_secs" "must be greater than 0"
    ++ problemIf (app.requestTimeout == 0) "request_timeout_secs" "must be greater than 0"
    ++ problemIf (app.profileCpu && isBlankText app.profileCpuFile) "profile_cpu_file"
      "required when profile_cpu is set"
    ++ problemIf (expandHome home app.dataDirectory).isNone "data_directory"
      "cannot expand ~ without a home directory"

def fillIn (home : Option String) (app : App) : App :=
  { app with
    mode := (Mode.ofText? app.daemonMode).getD app.mode
    whitelist := parseWhitelist app.hostWhitelist
    dataDirectory := (expandHome home app.dataDirectory).getD app.dataDirectory }

/-- Checks and completes a configuration: the changed configuration, and what is wrong with it. -/
def complete (home : Option String) (s : Settings) : Settings × List Problem :=
  ({ s with app := fillIn home s.app }, problems home s.app)

inductive Failure where
  /-- The file could not be read. -/
  | unreadable (error : Os.Error)
  /-- The file is not a configuration; the reason is known when a value is of a wrong type. -/
  | malformed (mismatch : Option String)
  | invalid (problems : List Problem)
  | unknownLogLevel (level : String)
deriving DecidableEq, Repr

/-- The text of a failure; of a malformed file only what comes before its reason is fixed. -/
def Failure.describe : Failure → String
  | .unreadable e => "IO error: " ++ e.describe
  | .malformed _ => "Parse error: "
  | .invalid problems =>
    "Validation failed: " ++ String.intercalate ", " (problems.map Problem.describe)
  | .unknownLogLevel level => Log.Level.unknown level

/-- The completed configuration, if nothing is wrong with it. -/
def finish (home : Option String) (s : Settings) : Except Failure Settings :=
  match complete home s with
  | (s, []) => .ok s
  | (_, problems) => .error (.invalid problems)

end WalletBridge.Config
