import WalletBridge.Daemon.Failure
import WalletBridge.Lifecycle.Phase
import WalletBridge.Log.FileName
import WalletBridge.Log.Output
import WalletBridge.Net.Listen
import WalletBridge.Observe.Profile

/-!
# What a run meets, and what it does

Everything that a run of the daemon cannot know beforehand: when it is told to quit, how its server
behaves, what the clock and the network say. And everything that a run does, one deed after another.
Times are milliseconds from the start of the run.
-/

namespace WalletBridge.Daemon

open Http

inductive Ending where
  | finished
  | failed (error : ServeError)
  /-- It breaks off with a message. -/
  | broken (message : String)
deriving DecidableEq, Repr

inductive Course where
  /-- It goes on until it is asked to stop, and then for a while. -/
  | untilAsked (after : Nat)
  | failsWhenAsked (error : ServeError)
  | forever
  | ends (after : Nat) (ending : Ending)
deriving DecidableEq, Repr

inductive Service where
  /-- A server that cannot be set up for the reason given, or serves as planned and needs some time
  to shut down. -/
  | planned (refusal : Option String) (course : Course) (closing : Nat)
  /-- The interface of the bridge, to which nobody is connected. -/
  | http
deriving DecidableEq, Repr

structure Surroundings where
  /-- When the run is told to quit; at the time 0 it was told before it began. -/
  quit : Option Nat := none
  /-- Whether the word to quit counts when the run, at its turn, finds its serve loop ended too. -/
  quitFirst : Bool := true
  /-- How long it takes until the run gets its turn once there is something to take up. -/
  lag : Nat := 0
  service : Service := .http
  /-- What the calendar and the clock show at the start. -/
  moment : Log.Moment
  working : Os.Place
  /-- Why the log file cannot be brought to the disk, if so. -/
  syncFailure : Option Os.Error := none
  /-- The lines that other parts of the program log while the run waits. -/
  overheard : List Log.Line := []
  /-- How long the listener for diagnostics goes on once it is told to end. -/
  lingers : Nat := 0
  /-- For how many seconds the machine has been up at the start. -/
  uptime : Nat := 0

inductive Deed where
  | log (act : Log.Act)
  /-- Sets up the server. -/
  | create (host : String) (settings : Config.Api)
  /-- The serve loop begins. -/
  | serve
  /-- The serve loop is over. -/
  | served
  /-- Asks the server to shut down. -/
  | shutDown
  /-- The server says that it has shut down. -/
  | closed
  /-- The task of the serve loop has ended and was joined. -/
  | joined
  | startProfile
  | stopProfile
deriving DecidableEq, Repr

end WalletBridge.Daemon
