/-!
# Starting and stopping a server

A server holds a listener until somebody takes it: a call to serve, which then owns it until its
loop ends, or a call to shut down. Serving takes the listener in one step. With the listener it makes
sure, in another step, that its end will be told, and then runs its loop; without, it looks in another
step whether the server was stopped. Shutting down asks all loops to stop in one step, takes the
listener in another, and otherwise waits until a loop that owned it has ended. A call can be given up
only while it waits: for its loop, or for that of another.
-/

namespace WalletBridge.Http

inductive ServeError where
  | io (message : String)
  /-- The server had already served. -/
  | alreadyStarted
deriving DecidableEq, Repr

def ServeError.describe : ServeError → String
  | .io message => "api server i/o error: " ++ message
  | .alreadyStarted => "api server already started"

inductive Serving where
  /-- It found no listener and has yet to look whether the server was stopped. -/
  | emptyHanded
  /-- It has taken the listener, and its end would not be told yet. -/
  | holding
  /-- Its loop runs on the listener, and its end will be told. -/
  | owning
deriving DecidableEq, Repr

inductive Closing where
  /-- It has asked the loops to stop. -/
  | asked
  /-- It waits until the loop that owned the listener has ended. -/
  | waiting
deriving DecidableEq, Repr

structure Server (ι : Type) where
  /-- Whether the listener is still there to be taken. -/
  listener : Bool := true
  /-- Whether the loops have been asked to stop. -/
  stop : Bool := false
  /-- Whether a loop that owned the listener has ended. -/
  stopped : Bool := false
  serving : List (ι × Serving) := []
  closing : List (ι × Closing) := []
deriving Repr

namespace Server

variable {ι : Type} [DecidableEq ι]

inductive Event (ι : Type) where
  /-- A call to serve begins and takes the listener if it is there. -/
  | serve (id : ι)
  /-- A call to serve without the listener looks whether the server was stopped. -/
  | look (id : ι)
  /-- A call to serve with the listener makes sure that its end will be told. -/
  | arm (id : ι)
  /-- The loop of a call ends, by itself or with an error. -/
  | finish (id : ι) (error : Option String)
  /-- A call to serve is given up while its loop runs. -/
  | drop (id : ι)
  /-- A call to shut down begins and asks the loops to stop. -/
  | shutDown (id : ι)
  /-- A call to shut down takes the listener if it is there. -/
  | take (id : ι)
  /-- A call to shut down that waits sees that the loop has ended. -/
  | leave (id : ι)
  /-- A call to shut down is given up while it waits. -/
  | giveUp (id : ι)
deriving Repr

inductive Effect (ι : Type) where
  | nothing
  /-- A call to serve returned. -/
  | served (id : ι) (result : Except ServeError Unit)
  /-- A call to shut down returned. -/
  | closed (id : ι)

def stateOf {α : Type} (calls : List (ι × α)) (id : ι) : Option α :=
  (calls.find? (·.1 == id)).map (·.2)

def without {α : Type} (calls : List (ι × α)) (id : ι) : List (ι × α) :=
  calls.filter (·.1 != id)

def loopResult : Option String → Except ServeError Unit
  | none => .ok ()
  | some message => .error (.io message)

def step (s : Server ι) : Event ι → Server ι × Effect ι
  | .serve id =>
    if s.listener then
      ({ s with listener := false, serving := s.serving ++ [(id, .holding)] }, .nothing)
    else ({ s with serving := s.serving ++ [(id, .emptyHanded)] }, .nothing)
  | .look id =>
    if stateOf s.serving id == some .emptyHanded then
      ({ s with serving := without s.serving id },
        .served id (if s.stop then .ok () else .error .alreadyStarted))
    else (s, .nothing)
  | .arm id =>
    if stateOf s.serving id == some .holding then
      ({ s with serving := without s.serving id ++ [(id, .owning)] }, .nothing)
    else (s, .nothing)
  | .finish id error =>
    if stateOf s.serving id == some .owning then
      ({ s with serving := without s.serving id, stopped := true }, .served id (loopResult error))
    else (s, .nothing)
  | .drop id =>
    if stateOf s.serving id == some .owning then
      ({ s with serving := without s.serving id, stopped := true }, .nothing)
    else (s, .nothing)
  | .shutDown id =>
    ({ s with stop := true, closing := s.closing ++ [(id, .asked)] }, .nothing)
  | .take id =>
    if stateOf s.closing id == some .asked then
      if s.listener then
        ({ s with listener := false, closing := without s.closing id }, .closed id)
      else ({ s with closing := without s.closing id ++ [(id, .waiting)] }, .nothing)
    else (s, .nothing)
  | .leave id =>
    if stateOf s.closing id == some .waiting && s.stopped then
      ({ s with closing := without s.closing id }, .closed id)
    else (s, .nothing)
  | .giveUp id =>
    if stateOf s.closing id == some .waiting then
      ({ s with closing := without s.closing id }, .nothing)
    else (s, .nothing)

def run (s : Server ι) : List (Event ι) → Server ι × List (Effect ι)
  | [] => (s, [])
  | e :: events =>
    let (s, effect) := s.step e
    let (s, effects) := run s events
    (s, effect :: effects)

def owners (s : Server ι) : List ι := (s.serving.filter (·.2 != .emptyHanded)).map (·.1)

/-- What happens by itself while nobody is connected: calls to serve go on as far as they can, loops
that were asked to stop end, and then those that wait for them leave. -/
def restless (s : Server ι) : List (Event ι) :=
  s.serving.map (.look ·.1) ++ s.serving.map (.arm ·.1)
    ++ (if s.stop then s.owners.map (.finish · none) else [])
    ++ s.closing.map (.take ·.1) ++ s.closing.map (.leave ·.1)

def settle (s : Server ι) (e : Event ι) : Server ι × List (Effect ι) :=
  let (s, effect) := s.step e
  let (s, effects) := s.run s.restless
  (s, effect :: effects)

def isOpen (s : Server ι) : Bool := s.listener || !s.owners.isEmpty

end Server

end WalletBridge.Http
