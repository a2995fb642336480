import WalletBridge.Text.Blank

/-!
# Log levels

An event is written when its level is at least as severe as the chosen one.
-/

namespace WalletBridge.Log

open Text

inductive Level where
  | trace
  | debug
  | info
  | warn
  | error
deriving DecidableEq, Repr

namespace Level

def name : Level → String
  | .trace => "trace"
  | .debug => "debug"
  | .info => "info"
  | .warn => "warn"
  | .error => "error"

def label : Level → String
  | .trace => "TRACE"
  | .debug => "DEBUG"
  | .info => "INFO"
  | .warn => "WARN"
  | .error => "ERROR"

def colour : Level → Nat
  | .trace => 35
  | .debug => 34
  | .info => 32
  | .warn => 33
  | .error => 31

def rank : Level → Nat
  | .trace => 0
  | .debug => 1
  | .info => 2
  | .warn => 3
  | .error => 4

def passes (event chosen : Level) : Bool := chosen.rank ≤ event.rank

def names : List (String × Level) := [
  ("trace", .trace), ("debug", .debug), ("info", .info), ("warn", .warn), ("warning", .warn),
  ("error", .error), ("fatal", .error), ("panic", .error)]

def ofText? (s : String) : Option Level :=
  let wanted := String.ofList ((trimChars s.toList).map Char.toLower)
  (names.find? (·.1 == wanted)).map (·.2)

def unknown (s : String) : String := "invalid -log-level: unknown level \"" ++ s ++ "\""

end Level

end WalletBridge.Log
