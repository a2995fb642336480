/-!
# One call at a time

Callers queue for the device. A call enters when the one inside has finished or was dropped, first
come first served; a call that skips the queue enters at once, whatever is inside.
-/

namespace WalletBridge

/-- A call that has begun and not yet ended. -/
structure Pending (ι κ : Type) where
  id : ι
  call : κ
deriving DecidableEq, Repr

/-- The calls that have begun and not yet ended. -/
structure Gateway (ι κ : Type) where
  /-- The call that holds the device. -/
  inside : Option (Pending ι κ) := none
  /-- Those that wait for it, the first one first. -/
  queue : List (Pending ι κ) := []
  /-- Those that skipped the queue and are inside the device as well. -/
  urgent : List (Pending ι κ) := []
deriving Repr

namespace Gateway

variable {ι κ ρ : Type} [DecidableEq ι]

inductive Event (ι κ ρ : Type) where
  | begin (id : ι) (call : κ)
  /-- The device gives a call its result. -/
  | finish (id : ι) (result : ρ)
  /-- A caller gives up a call. -/
  | drop (id : ι)
deriving Repr

/-- What an event led to: the calls that entered the device, and those that ended with a result. -/
structure Effect (ι κ ρ : Type) where
  entered : List (Pending ι κ) := []
  done : List (ι × ρ) := []
deriving Repr

def has (calls : List (Pending ι κ)) (id : ι) : Bool := calls.any (·.id == id)

def without (calls : List (Pending ι κ)) (id : ι) : List (Pending ι κ) :=
  calls.filter (·.id != id)

def holds (g : Gateway ι κ) (id : ι) : Bool := g.inside.any (·.id == id)

def handOver (g : Gateway ι κ) : Gateway ι κ × List (Pending ι κ) :=
  match g.queue with
  | [] => ({ g with inside := none }, [])
  | next :: queue => ({ g with inside := some next, queue }, [next])

/-- The state after an event, and what it led to. `skips` tells which calls skip the queue. -/
def step (skips : κ → Bool) (g : Gateway ι κ) :
    Event ι κ ρ → Gateway ι κ × Effect ι κ ρ
  | .begin id call =>
    let p : Pending ι κ := { id, call }
    if skips call then ({ g with urgent := g.urgent ++ [p] }, { entered := [p] })
    else match g.inside with
      | none => ({ g with inside := some p }, { entered := [p] })
      | some _ => ({ g with queue := g.queue ++ [p] }, {})
  | .finish id result =>
    if has g.urgent id then ({ g with urgent := without g.urgent id }, { done := [(id, result)] })
    else if g.holds id then
      let (g, entered) := g.handOver
      (g, { entered, done := [(id, result)] })
    else (g, {})
  | .drop id =>
    if has g.urgent id then ({ g with urgent := without g.urgent id }, {})
    else if g.holds id then
      let (g, entered) := g.handOver
      (g, { entered })
    else ({ g with queue := without g.queue id }, {})

def callInside? (g : Gateway ι κ) (id : ι) : Option κ :=
  ((g.inside.toList ++ g.urgent).find? (·.id == id)).map (·.call)

def isInside (g : Gateway ι κ) (id : ι) : Bool := g.holds id || has g.urgent id

/-- The names of all calls that have begun and not yet ended. -/
def pending (g : Gateway ι κ) : List ι :=
  g.inside.toList.map (·.id) ++ g.queue.map (·.id) ++ g.urgent.map (·.id)

end Gateway

end WalletBridge
