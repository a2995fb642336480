import WalletBridge.Daemon.Progress

/-!
# Giving back what a run took

Server, serve loop, listener for diagnostics, profile and log file are given back in this order.
The first three share one deadline: what is not over by then is given up.
-/

namespace WalletBridge.Daemon

open Http Net Text

namespace Progress

/-- Gives up the server, which has not shut down in time. -/
def closeLate (p : Progress) (seconds : Nat) : Progress :=
  p.say .warn "daemon" "API server drain timed out" [("timeout_secs", decimal seconds)]

/-- Waits until a server that needs some time has shut down. -/
def closeAfter (p : Progress) (seconds deadline duration : Nat) : Progress :=
  if duration == 0 then p.note .closed
  else if deadline ≤ p.now then p.closeLate seconds
  else
    let due := p.now + duration
    let p := p.turn
    if due ≤ deadline then (p.passTo due).note .closed
    else (p.passTo deadline).closeLate seconds

/-- Waits until a server whose loop has begun has shut down, which it has when the loop is over. -/
def closeWithLoop (p : Progress) (seconds deadline : Nat) : Progress :=
  if p.worker.any (·.fate.isSome) then p.note .closed
  else if deadline ≤ p.now then p.closeLate seconds
  else
    let p := p.turn
    match p.ending? with
    | some (w, time, ending) =>
      if time < deadline then (p.conclude w time ending).note .closed
      else (p.passTo deadline).closeLate seconds
    | none => (p.passTo deadline).closeLate seconds

/-- Asks the server to shut down, and waits for it until the deadline. The interface of the bridge
has shut down at once when its loop has not begun. -/
def closeServer (p : Progress) (seconds deadline : Nat) : Progress :=
  match p.closing with
  | none => p
  | some closing =>
    let p := (p.say .info "daemon" "Closing api server" []).note .shutDown
    let waits := p.workerWaits
    let p := { p with worker := p.worker.map fun (w : Worker) => w.ask p.now }
    match closing with
    | .after duration => p.closeAfter seconds deadline duration
    | .withLoop => if waits then p.note .closed else p.closeWithLoop seconds deadline

def abortWorker (p : Progress) (w : Worker) : Progress :=
  let p := (p.say .warn "daemon" "API server task still running, aborting" []).diagnosticsTurn
  let p := if w.begun.isSome then p.note .served else p
  let network := match w.address with
    | some address => p.network.release address
    | none => p.network
  { p with network, worker := some { w with fate := some .aborted } }.note .joined

/-- Joins a serve loop that is over. In the text of one that broke off, N stands for its number. -/
def joinEnded (p : Progress) (fate : Fate) : Progress :=
  match fate with
  | .ended (.broken message) =>
    (p.note .joined).say .error "daemon" "API server task failed"
      [("error", "task N panicked with message " ++ quoted message)]
  | _ => p.note .joined

/-- Waits for the serve loop until the deadline. -/
def joinWorker (p : Progress) (deadline : Nat) : Progress :=
  match p.worker with
  | none => p
  | some w =>
    let p := p.say .info "daemon" "Waiting for tasks to finish" []
    match w.fate with
    | some fate => p.joinEnded fate
    | none =>
      if deadline ≤ p.now then p.abortWorker w
      else
        let p := p.turn
        match p.worker.bind (·.fate), p.ending? with
        | some fate, _ => p.joinEnded fate
        | none, some (w, time, ending) =>
          if time < deadline then (p.conclude w time ending).joinEnded (.ended ending)
          else { p with now := deadline }.abortWorker w
        | none, none =>
          { p with now := deadline }.abortWorker (p.worker.getD w)

/-- Gives up the listener for diagnostics, and does not wait until it is over. -/
def abandonDiagnostics (p : Progress) : Progress :=
  { p with
    diagnostics := p.diagnostics.map fun (d : Diagnostics) => { d with state := .abandoned } }.say
      .warn "daemon" "Diagnostics listener still running, aborting" []

/-- Tells the listener for diagnostics to end, and waits for it until the deadline. One that was
told so with the run may be over by then. -/
def endDiagnostics (p : Progress) (deadline : Nat) : Progress :=
  match p.diagnostics with
  | none => p
  | some d =>
    if d.state == .done then p
    else if d.over?.any (· < p.now) then p.diagnosticsEnd
    else
      let p := { p with diagnostics := some (d.tell p.now) }
      if deadline ≤ p.now then p.abandonDiagnostics
      else
        let p := p.diagnosticsTurn
        match p.diagnostics.bind (·.over?) with
        | none => p
        | some due =>
          if due < deadline then { p with now := due }.diagnosticsEnd
          else { p with now := deadline }.abandonDiagnostics

/-- Ends the profile. What its samples say depends on the machine; the tree keeps the first
line. -/
def stopProfile (p : Progress) : Progress :=
  match p.profile with
  | none => p
  | some profile =>
    let p := ({ p with profile := some { profile with ended := true } }.note .stopProfile).say
      .info "profiling::cpu" "CPU profiling stopped" [("path", profile.path)]
    match p.tree.store profile.place (utf8 (Observe.profileHeader ++ "\n")) with
    | .ok tree =>
      { p with
        tree
        samples := some (Observe.sampleTimes Observe.profileInterval (p.now - profile.since)) }
    | .error e => p.say .error "daemon" "Failed to write CPU profile" [("error", e.describe)]

def closeLog (p : Progress) (syncFailure : Option Os.Error) : Progress :=
  match p.logFile with
  | none => p
  | some path =>
    let p := p.note (.log .detach)
    match syncFailure with
    | none => p
    | some e =>
      p.say .error "daemon" "Failed to sync log file" [("path", path), ("error", e.describe)]

/-- Gives everything back, within so many seconds. -/
def release (p : Progress) (seconds : Nat) (syncFailure : Option Os.Error) : Progress :=
  let deadline := p.now + seconds * 1000
  let p := (((p.closeServer seconds deadline).joinWorker deadline).endDiagnostics
    deadline).stopProfile
  (p.say .info "daemon" "Goodbye" []).closeLog syncFailure

end Progress

end WalletBridge.Daemon
