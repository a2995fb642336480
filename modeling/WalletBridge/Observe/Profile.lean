import WalletBridge.Os.Error

/-!
# The profile of a run

A profile is a table with one line for each sample. A sample is taken when profiling begins, then
at regular intervals, and one more when it ends.
-/

namespace WalletBridge.Observe

def profileColumns : List String :=
  ["elapsed_ms", "user_cpu_ms", "system_cpu_ms", "workers", "alive_tasks"]

def profileHeader : String := String.intercalate "," profileColumns

def profileMode : Nat := 0o644

def profileInterval : Nat := 100

/-- When samples are taken in a profile that ends after `duration` milliseconds. A sample that is
due at the very end is taken before the last one. -/
def sampleTimes (interval duration : Nat) : List Nat :=
  (List.range (duration / interval + 1)).map (· * interval) ++ [duration]

/-- The times for which a program and the system on its behalf kept a processor busy, in
milliseconds, from the line that the system keeps about it: two numbers of hundredths of a second,
eleven fields after its name in round brackets. -/
def processorTimes? (stat : String) : Option (Nat × Nat) :=
  match (stat.splitOn ")").getLast? with
  | none => none
  | some fields =>
    match ((fields.splitOn " ").filter (· != "")).drop 11 with
    | user :: system :: _ => do
      return ((← Text.natural? user) * 10, (← Text.natural? system) * 10)
    | _ => none

/-- What one sample says: the milliseconds since profiling began, those for which the program and
the system on its behalf kept a processor busy, and the figures of the program. -/
def sampleLine (elapsed user system workers aliveTasks : Nat) : String :=
  String.intercalate "," ([elapsed, user, system, workers, aliveTasks].map Text.decimal)

/-- Why a profile could not be kept. -/
inductive ProfileFault where
  | io (error : Os.Error)
  /-- Samples cannot be taken at intervals of no length. -/
  | noInterval
deriving DecidableEq, Repr

def profileSamples (interval duration : Nat) (stored : Except Os.Error Unit) :
    Except ProfileFault (List Nat) :=
  if interval == 0 then .error .noInterval
  else match stored with
    | .error e => .error (.io e)
    | .ok _ => .ok (sampleTimes interval duration)

end WalletBridge.Observe
