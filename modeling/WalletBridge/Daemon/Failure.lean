import WalletBridge.Config.Check
import WalletBridge.Http.Server

/-!
# Why a run of the daemon fails

A run fails because of its configuration, a file it cannot create, a server it cannot set up, or a
server that stopped by itself.
-/

namespace WalletBridge.Daemon

open Http

inductive Failure where
  | config (failure : Config.Failure)
  /-- A file or directory could not be created. -/
  | resource (action path : String) (source : Os.Error)
  /-- The server could not be set up. -/
  | construction (message : String)
  | serve (error : ServeError)
deriving DecidableEq, Repr

namespace Failure

def describe : Failure → String
  | .config failure => failure.describe
  | .resource action path source => action ++ "(" ++ path ++ ") failed: " ++ source.describe
  | .construction message => message
  | .serve error => error.describe

def logFile (app : Config.App) (source : Os.Error) : Failure :=
  .resource "create log file" app.logDirectory source

/-- The file of the profile could not be created. -/
def profile (app : Config.App) (source : Os.Error) : Failure :=
  .resource "create cpu profile" app.profileCpuFile source

def ofDevice (error : Device.Error) : Failure := .construction error.describe

end Failure

end WalletBridge.Daemon
