import WalletBridge.Config.Flags
import WalletBridge.Daemon.Run
import WalletBridge.Lifecycle.Signal

/-!
# The daemon as a program

Reads the command line and the configuration, and makes one run, which signals can end. The log
goes to the terminal and into the log file while there is one.
-/

namespace WalletBridge.Daemon

open Config Lifecycle

inductive Exit where
  | code (n : Nat)
  /-- It goes on until it is killed. -/
  | running
deriving DecidableEq, Repr

structure Report where
  exit : Exit
  /-- The lines on the terminal, without colours. -/
  lines : List String := []
  errors : String := ""
  tree : Os.FileTree
  /-- Whether its server was running. -/
  served : Bool := false
  /-- The pictures of a thread that were printed. -/
  pictures : Nat := 0

def signalEffects (figures : Http.Figures) : Bool → List Signal → List Signal.Effect
  | _, [] => []
  | ended, s :: signals =>
    let effect := s.effect figures ended
    effect :: signalEffects figures (ended || effect.quits) signals

def refusalLine (failure : Config.Failure) : Log.Line where
  level := .error
  source := "hardware_wallet_daemon"
  message := "Invalid configuration"
  fields := [("error", failure.describe)]

def Verdict.exit : Verdict → Exit × String
  | .returned (.ok _) => (.code 0, "")
  | .returned (.error failure) => (.code 1, failure.describe ++ "\n")
  | .broken => (.code 101, "")
  | .endless => (.running, "")

/-- Runs the program with a configuration. The signals come while it waits. -/
def runProgram (s : Surroundings) (figures : Http.Figures) (signals : List Signal)
    (settings : Settings) (tree : Os.FileTree) (network : Net.Network) : Report :=
  let effects := signalEffects figures false signals
  let quit := if effects.any (·.quits) then some 1 else none
  let s := { s with quit, overheard := effects.flatMap (·.lines) }
  let outcome := run s settings tree network
  let start : Log.Output := {}
  let acts := outcome.deeds.filterMap fun
    | .log act => some act
    | _ => none
  let (_, tree, lines) := start.run outcome.progress.tree acts
  let (exit, errors) := outcome.verdict.exit
  let served := outcome.progress.history.phases.contains .running
  { exit, lines, errors, tree, served
    pictures := if served then (effects.map (·.pictures)).foldl (· + ·) 0 else 0 }

def program (s : Surroundings) (figures : Http.Figures) (home : Option String)
    (args : List String) (signals : List Signal) (tree : Os.FileTree)
    (network : Net.Network) : Except Command.Refusal Report := do
  let parsed ← daemonProgram.parse args
  match fromCommandLine home (tree.read s.working) parsed.given with
  | .error failure =>
    return { exit := .code 1, lines := [(refusalLine failure).text], tree }
  | .ok settings => return runProgram s figures signals settings tree network

end WalletBridge.Daemon
