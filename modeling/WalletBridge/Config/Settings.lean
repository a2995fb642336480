import WalletBridge.Device.Mode

/-!
# Settings

The settings of the bridge with their default values. `App.fields` is the one list of them: files,
flags and answers all go through it.
-/

namespace WalletBridge.Config

open Device Json Text

/-- The settings of the bridge. The mode and the list of hosts are kept as they were given;
`mode` and `whitelist` are what the last check read from them. -/
structure App where
  address : String := "127.0.0.1"
  port : Nat := 9510
  logLevel : String := "INFO"
  colorLog : Bool := true
  logToFile : Bool := false
  dataDirectory : String := "~/.skycoin-hw-daemon"
  profileCpu : Bool := false
  profileCpuFile : String := "cpu.prof"
  httpProf : Bool := false
  httpProfHost : String := "localhost:6060"
  enableCsrf : Bool := true
  disableHeaderCheck : Bool := false
  hostWhitelist : String := ""
  daemonMode : String := "USB"
  shutdownTimeout : Nat := 30
  requestTimeout : Nat := 60
  mode : Mode := .usb
  whitelist : List String := []
deriving DecidableEq, Repr, Inhabited

structure Build where
  version : String := "0.1.0"
  commit : String := ""
  branch : String := ""
deriving DecidableEq, Repr, Inhabited

structure Settings where
  app : App := {}
  build : Build := {}
deriving DecidableEq, Repr, Inhabited

inductive Slot (ρ : Type) where
  | text (get : ρ → String) (set : ρ → String → ρ)
  | truth (get : ρ → Bool) (set : ρ → Bool → ρ)
  | number (range : Range) (get : ρ → Nat) (set : ρ → Nat → ρ)

structure Field (ρ : Type) where
  name : String
  slot : Slot ρ

def natural16 : Range := ⟨"u16", 0, 0xFFFF⟩

def App.fields : List (Field App) := [
  ⟨"web_interface_addr", .text App.address fun r a => { r with address := a }⟩,
  ⟨"web_interface_port", .number natural16 App.port fun r a => { r with port := a }⟩,
  ⟨"log_level", .text App.logLevel fun r a => { r with logLevel := a }⟩,
  ⟨"color_log", .truth App.colorLog fun r a => { r with colorLog := a }⟩,
  ⟨"log_to_file", .truth App.logToFile fun r a => { r with logToFile := a }⟩,
  ⟨"data_directory", .text App.dataDirectory fun r a => { r with dataDirectory := a }⟩,
  ⟨"profile_cpu", .truth App.profileCpu fun r a => { r with profileCpu := a }⟩,
  ⟨"profile_cpu_file", .text App.profileCpuFile fun r a => { r with profileCpuFile := a }⟩,
  ⟨"http_prof", .truth App.httpProf fun r a => { r with httpProf := a }⟩,
  ⟨"http_prof_host", .text App.httpProfHost fun r a => { r with httpProfHost := a }⟩,
  ⟨"enable_csrf", .truth App.enableCsrf fun r a => { r with enableCsrf := a }⟩,
  ⟨"disable_header_check",
    .truth App.disableHeaderCheck fun r a => { r with disableHeaderCheck := a }⟩,
  ⟨"host_whitelist", .text App.hostWhitelist fun r a => { r with hostWhitelist := a }⟩,
  ⟨"daemon_mode", .text App.daemonMode fun r a => { r with daemonMode := a }⟩,
  ⟨"shutdown_timeout_secs",
    .number .natural64 App.shutdownTimeout fun r a => { r with shutdownTimeout := a }⟩,
  ⟨"request_timeout_secs",
    .number .natural64 App.requestTimeout fun r a => { r with requestTimeout := a }⟩]

def Build.fields : List (Field Build) := [
  ⟨"version", .text Build.version fun r a => { r with version := a }⟩,
  ⟨"commit", .text Build.commit fun r a => { r with commit := a }⟩,
  ⟨"branch", .text Build.branch fun r a => { r with branch := a }⟩]

def Slot.write (r : ρ) : Slot ρ → Json
  | .text get _ => .text (get r)
  | .truth get _ => .truth (get r)
  | .number _ get _ => .natural (get r)

def writeFields (fields : List (Field ρ)) (r : ρ) : Json :=
  .object (fields.map fun f => (f.name, f.slot.write r))

namespace Build

/-- The members of a build's description; each has a default. -/
def shape : Shape Build where
  title := "struct BuildInfo"
  members := [
    .defaulted "version" .text "0.1.0" version fun a r => { r with version := a },
    .defaulted "commit" .text "" commit fun a r => { r with commit := a },
    .defaulted "branch" .text "" branch fun a r => { r with branch := a }]
  start := {}

end Build

namespace App

def toJson (app : App) : Json := writeFields fields app

def host (app : App) : String := app.address ++ ":" ++ decimal app.port

end App

/-- A path inside a directory; a name that starts at the root stands for itself. -/
def joinPath (directory name : String) : String :=
  if directory.isEmpty || name.toList.head? == some '/' then name
  else if directory.toList.getLast? == some '/' then directory ++ name
  else directory ++ "/" ++ name

def App.logDirectory (app : App) : String := joinPath app.dataDirectory "logs"

structure Api where
  enableCsrf : Bool := true
  disableHeaderCheck : Bool := false
  hostWhitelist : List String := []
  mode : Mode := .usb
  build : Build := {}
  /-- The longest time for a request, in milliseconds. -/
  requestTimeout : Nat := 60000
deriving DecidableEq, Repr, Inhabited

def Settings.api (s : Settings) : Api where
  enableCsrf := s.app.enableCsrf
  disableHeaderCheck := s.app.disableHeaderCheck
  hostWhitelist := s.app.whitelist
  mode := s.app.mode
  build := s.build
  requestTimeout := s.app.requestTimeout * 1000

end WalletBridge.Config
