import WalletBridge.Http.Diagnostics
import WalletBridge.Log.Line

/-!
# Signals

A request to end fires the quit notification of the run; the first one counts. Another signal asks
for figures and a picture of the thread that takes it, and lets the run go on.
-/

namespace WalletBridge.Lifecycle

inductive Signal where
  | interrupt
  | terminate
  | look
deriving DecidableEq, Repr

namespace Signal

def name : Signal → String
  | .interrupt => "SIGINT"
  | .terminate => "SIGTERM"
  | .look => "SIGUSR1"

def ofName? (s : String) : Option Signal := [interrupt, terminate, look].find? (·.name == s)

structure Effect where
  /-- Whether it fired the quit notification. -/
  quits : Bool := false
  lines : List Log.Line := []
  /-- The pictures of a thread that were printed. -/
  pictures : Nat := 0

def source : String := Log.source "lifecycle::signals"

/-- What a signal leads to, given whether an earlier one has ended the run. -/
def effect (figures : Http.Figures) (ended : Bool) : Signal → Effect
  | .look => {
      lines := [{
        level := .info, source, message := "SIGUSR1 received, dumping diagnostics"
        fields := figures.members.map fun (name, n) => (name, Text.decimal n) }]
      pictures := 1 }
  | s =>
    if ended then {}
    else {
      quits := true
      lines := [{
        level := .info, source, message := "Shutdown signal received"
        fields := [("signal", Text.quoted s.name)] }] }

end Signal

end WalletBridge.Lifecycle
