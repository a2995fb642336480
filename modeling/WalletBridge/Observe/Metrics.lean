import WalletBridge.Text.Decimal

/-!
# Counters

Answered requests are counted by method, route and status, their durations by method and route,
and device calls by operation and outcome. A counter is shown once it has counted something.
-/

namespace WalletBridge.Observe

open Text

structure Series where
  name : String
  labels : List (String × String)
deriving DecidableEq, Repr

/-- The state of `valueChars`: what is written for the characters so far, last first, and whether
a backslash is held back. -/
structure Escaping where
  written : List Char := []
  held : Bool := false

/-- Takes one more character of a label's value. A second backslash in a row writes two. -/
def Escaping.push (e : Escaping) (c : Char) : Escaping :=
  if c == '\n' then { e with written := 'n' :: '\\' :: e.written }
  else if c == '"' then { written := '"' :: '\\' :: e.written, held := false }
  else if c == '\\' then
    { written := if e.held then '\\' :: '\\' :: e.written else e.written, held := !e.held }
  else
    { written := c :: (if e.held then '\\' :: '\\' :: e.written else e.written), held := false }

def valueChars (s : String) : List Char :=
  let e := s.toList.foldl Escaping.push {}
  (if e.held then '\\' :: '\\' :: e.written else e.written).reverse

def labelText (label : String × String) : String :=
  label.1 ++ "=\"" ++ String.ofList (valueChars label.2) ++ "\""

def Series.text (s : Series) : String :=
  s.name ++ "\x7b" ++ String.intercalate "," (s.labels.map labelText) ++ "\x7d"

def requests (method path : String) (status : Nat) : Series where
  name := "hwd_requests_total"
  labels := [("method", method), ("path", path), ("status", decimal status)]

def durations (method path : String) : Series where
  name := "hwd_request_duration_seconds_count"
  labels := [("method", method), ("path", path)]

def deviceCalls (op outcome : String) : Series where
  name := "hwd_device_calls_total"
  labels := [("op", op), ("outcome", outcome)]

abbrev Counters := List (Series × Nat)

namespace Counters

def add (s : Series) : Counters → Counters
  | [] => [(s, 1)]
  | (t, n) :: rest => if t == s then (t, n + 1) :: rest else (t, n) :: add s rest

def count (c : Counters) (s : Series) : Nat := ((c.find? (·.1 == s)).map (·.2)).getD 0

def recordRequest (c : Counters) (method path : String) (status : Nat) : Counters :=
  add (durations method path) (add (requests method path status) c)

def outcomeName (success : Bool) : String := if success then "ok" else "error"

def recordCall (c : Counters) (op : String) (success : Bool) : Counters :=
  add (deviceCalls op (outcomeName success)) c

def lines (c : Counters) : List String :=
  (c.map fun (s, n) => s.text ++ " " ++ decimal n).mergeSort fun a b => decide (a ≤ b)

end Counters

def secondRecorder : String :=
  "failed to install exporter as global recorder: " ++
    "attempted to set a recorder after the metrics system was already initialized"

end WalletBridge.Observe
