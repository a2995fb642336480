import WalletBridge.Daemon.Surroundings

/-!
# A run under way

A run has one line of work that starts and releases everything, and tasks beside it: the serve loop
and the listener for diagnostics. A task gets its first turn when the line of work has to wait.
-/

namespace WalletBridge.Daemon

open Config Http Lifecycle Net Text

inductive Fate where
  | ended (ending : Ending)
  | aborted
deriving DecidableEq, Repr

structure Worker where
  course : Course
  /-- The address of the interface of the bridge; another server tells nothing of its address. -/
  address : Option SocketAddress := none
  /-- When it got its first turn. -/
  begun : Option Nat := none
  /-- When it was asked to stop. -/
  asked : Option Nat := none
  fate : Option Fate := none
deriving DecidableEq, Repr

def Worker.ask (w : Worker) (now : Nat) : Worker := { w with asked := some now }

/-- When and how a serve loop that has begun will end, as things stand. -/
def Worker.ending? (w : Worker) : Option (Nat × Ending) :=
  match w.begun with
  | none => none
  | some begun =>
    match w.course with
    | .untilAsked after => w.asked.map fun asked => (max begun asked + after, .finished)
    | .failsWhenAsked error => w.asked.map fun asked => (max begun asked, .failed error)
    | .forever => none
    | .ends after ending => some (begun + after, ending)

inductive ClosingTime where
  | after (duration : Nat)
  /-- Until its serve loop is over. -/
  | withLoop
deriving DecidableEq, Repr

inductive Listening where
  /-- It has not had its first turn. -/
  | waiting
  | listening (address : SocketAddress)
  | done
  /-- It was given up, and nobody waits until it is over. -/
  | abandoned
deriving DecidableEq, Repr

structure Diagnostics where
  host : String
  state : Listening := .waiting
  /-- When it is told to end. The word to quit reaches it too. -/
  told : Option Nat := none
  /-- How long it goes on once it listens and is told to end. -/
  lingers : Nat := 0
deriving DecidableEq, Repr

namespace Diagnostics

/-- Tells a listener to end, unless it was told so before. -/
def tell (d : Diagnostics) (now : Nat) : Diagnostics :=
  { d with told := d.told.merge min (some now) }

def over? (d : Diagnostics) : Option Nat :=
  match d.state with
  | .listening _ => d.told.map (· + d.lingers)
  | _ => none

end Diagnostics

structure Profile where
  path : String
  place : Os.Place
  since : Nat
  /-- Whether its sampling is over. -/
  ended : Bool := false
deriving DecidableEq, Repr

structure Progress where
  now : Nat := 0
  /-- What was done, the latest first. -/
  deeds : List Deed := []
  tree : Os.FileTree
  network : Network
  history : History := {}
  logFile : Option String := none
  profile : Option Profile := none
  /-- The samples of a profile that is complete. -/
  samples : Option (List Nat) := none
  diagnostics : Option Diagnostics := none
  closing : Option ClosingTime := none
  worker : Option Worker := none

namespace Progress

def note (p : Progress) (deed : Deed) : Progress := { p with deeds := deed :: p.deeds }

def say (p : Progress) (level : Log.Level) (part message : String)
    (fields : List (String × String)) : Progress :=
  p.note (.log (.emit { level, source := Log.source part, message, fields }))

def enter (p : Progress) (phase : Phase) : Progress :=
  { p with history := p.history.advance phase }

/-- Whether the serve loop still has to get its first turn. -/
def workerWaits (p : Progress) : Bool := p.worker.any fun w => w.begun.isNone && w.fate.isNone

/-- The first turn of the listener for diagnostics: it begins to listen, and hears only then what
it was told before. -/
def diagnosticsBegin (p : Progress) : Progress :=
  match p.diagnostics with
  | some ⟨host, .waiting, told, lingers⟩ =>
    match p.network.listen host with
    | .ok (address, network) =>
      { p with
        network
        diagnostics := some ⟨host, .listening address, told.map (max p.now), lingers⟩ }.say .info
          "profiling::diagnostics" "Diagnostics listener started" [("host", host)]
    | .error e =>
      { p with diagnostics := some ⟨host, .done, told, lingers⟩ }.say .error
        "profiling::diagnostics" "Listen on HTTP profiling interface failed"
        [("host", host), ("error", e.describe)]
  | _ => p

/-- The end of the listener for diagnostics, if it was told to end long enough ago. -/
def diagnosticsEnd (p : Progress) : Progress :=
  match p.diagnostics with
  | some ⟨host, .listening address, some told, lingers⟩ =>
    if told + lingers ≤ p.now then
      { p with
        network := p.network.release address
        diagnostics := some ⟨host, .done, some told, lingers⟩ }
    else p
  | _ => p

def diagnosticsTurn (p : Progress) : Progress := p.diagnosticsBegin.diagnosticsEnd

def conclude (p : Progress) (w : Worker) (time : Nat) (ending : Ending) : Progress :=
  let p := { p with
    now := max p.now time
    worker := some { w with fate := some (.ended ending) } }
  let p := match w.address with
    | some address =>
      { p with network := p.network.release address }.say .info "http::server"
        "API server stopped" []
    | none => p
  let p := p.note .served
  match ending with
  | .failed e => p.say .error "daemon" "API server failed" [("error", e.describe)]
  | _ => p

/-- The first turn of the serve loop. The interface of the bridge says that it listens; when it was
shut down before, its loop is over at once. -/
def workerTurn (p : Progress) : Progress :=
  match p.worker with
  | some w =>
    if p.workerWaits then
      let w := { w with begun := some p.now }
      let p := { p with worker := some w }.note .serve
      match w.address with
      | some address =>
        if w.asked.isSome then
          { p with worker := some { w with fate := some (.ended .finished) } }.note .served
        else p.say .info "http::server" "API server listening" [("address", address.text)]
      | none => p
    else p
  | none => p

def turn (p : Progress) : Progress := p.diagnosticsTurn.workerTurn

/-- When and how the serve loop will end, unless it is over. -/
def ending? (p : Progress) : Option (Worker × Nat × Ending) :=
  p.worker.bind fun w => if w.fate.isSome then none else w.ending?.map fun e => (w, e)

def loopBy (p : Progress) (limit : Nat) : Option Ending × Progress :=
  match p.ending? with
  | some (w, time, ending) =>
    if time ≤ limit then (some ending, p.conclude w time ending) else (none, p)
  | none => (none, p)

/-- Time passes up to `limit`; whatever of the serve loop ends before it, ends. -/
def passTo (p : Progress) (limit : Nat) : Progress :=
  let p := match p.ending? with
    | some (w, time, ending) => if time < limit then p.conclude w time ending else p
    | none => p
  { p with now := limit }

end Progress

end WalletBridge.Daemon
