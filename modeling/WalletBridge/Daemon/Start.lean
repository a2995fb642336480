import WalletBridge.Daemon.Progress
import WalletBridge.Http.Hosted

/-!
# Starting a run

A run chooses its log level, opens its log file, starts its profile and its listener for
diagnostics, and sets up its server; the first of these that fails ends the start. Then it waits
until it is told to quit or its server has ended.
-/

namespace WalletBridge.Daemon

open Config Http Net Text

structure Stopped where
  failure : Failure
  progress : Progress

def chooseLog (app : App) (p : Progress) : Except Stopped (Log.Level × Progress) :=
  match Log.Level.ofText? app.logLevel with
  | none => .error ⟨.config (.unknownLogLevel app.logLevel), p⟩
  | some level =>
    .ok (level, (p.note (.log (.setLevel level))).note (.log (.setColours app.colorLog)))

def openLog (s : Surroundings) (app : App) (p : Progress) : Except Stopped Progress :=
  if app.logToFile then
    match Log.create p.tree s.working app.logDirectory s.moment with
    | (tree, .error e) => .error ⟨.logFile app e, { p with tree }⟩
    | (tree, .ok created) =>
      .ok (({ p with tree, logFile := some created.path }.note
        (.log (.attach created.file))).say .info "daemon" "Logging to file"
          [("path", created.path)])
  else .ok p

def announce (settings : Settings) (level : Log.Level) (p : Progress) : Progress :=
  p.say .info "daemon" "Daemon starting" [
    ("version", settings.build.version), ("commit", settings.build.commit),
    ("branch", settings.build.branch), ("mode", settings.app.mode.name), ("level", level.name)]

def startProfile (s : Surroundings) (app : App) (p : Progress) : Except Stopped Progress :=
  if app.profileCpu then
    match p.tree.openAnew s.working app.profileCpuFile Observe.profileMode with
    | .error e => .error ⟨.profile app e, p⟩
    | .ok (tree, place) =>
      .ok (({ p with tree, profile := some ⟨app.profileCpuFile, place, p.now, false⟩ }.note
        .startProfile).say .info "profiling::cpu" "CPU profiling started"
          [("path", app.profileCpuFile)])
  else .ok p

def startDiagnostics (s : Surroundings) (app : App) (p : Progress) : Progress :=
  if app.httpProf then
    { p with
      diagnostics := some { host := app.httpProfHost, told := s.quit, lingers := s.lingers } }
  else p

def setUp (s : Surroundings) (settings : Settings) (p : Progress) : Except Stopped Progress :=
  let host := settings.app.host
  let p := p.note (.create host settings.api)
  match s.service with
  | .planned (some refusal) _ _ => .error ⟨.construction refusal, p⟩
  | .planned none course closing =>
    .ok { p with closing := some (.after closing), worker := some { course } }
  | .http =>
    match p.network.listen host with
    | .error e => .error ⟨.construction (cannotListen host e), p⟩
    | .ok (address, network) =>
      .ok ({ p with
        network
        closing := some .withLoop
        worker := some { course := .untilAsked 0, address := some address } }.say .info
          "http::server" "API server created" [
            ("address", address.text), ("mode", settings.app.mode.name),
            ("csrf", toString settings.app.enableCsrf),
            ("header_check", toString (!settings.app.disableHeaderCheck))])

def enterRunning (app : App) (p : Progress) : Progress :=
  (p.enter .running).say .info "daemon" "Daemon running" [("host", app.host)]

def start (s : Surroundings) (settings : Settings) (p : Progress) : Except Stopped Progress := do
  let (level, p) ← chooseLog settings.app p
  let p ← openLog s settings.app p
  let p ← startProfile s settings.app (announce settings level p)
  let p ← setUp s settings ((startDiagnostics s settings.app p).enter .starting)
  return enterRunning settings.app p

inductive Occasion where
  | quit
  | ended (ending : Ending)
  /-- Nothing will ever end it. -/
  | nothing
deriving DecidableEq, Repr

/-- What a run takes up that was told to quit or whose serve loop has ended. When both are so, it
may take either. -/
def Occasion.take (quitFirst told : Bool) : Option Ending → Occasion
  | none => if told then .quit else .nothing
  | some ending => if told && quitFirst then .quit else .ended ending

/-- Waits until the run is told to quit or its serve loop has ended, and gets its turn. A run that
was told before and does not let its tasks go first takes that up at once. -/
def wait (s : Surroundings) (p : Progress) : Occasion × Progress :=
  if s.quit == some 0 && s.lag == 0 then (.quit, p)
  else
    let p := s.overheard.foldl (fun p line => p.note (.log (.emit line))) p.turn
    match s.quit.merge min (p.ending?.map (·.2.1)) with
    | none => (.nothing, p)
    | some first =>
      let turn := first + s.lag
      let (ended, p) := p.loopBy turn
      (.take s.quitFirst (s.quit.any (· ≤ turn)) ended,
        { p with now := max p.now turn }.diagnosticsEnd)

def react (p : Progress) : Occasion → Except Failure Unit × Progress
  | .ended (.failed e) => (.error (.serve e), p.say .info "daemon" "Shutting down..." [])
  | .ended _ => (.ok (), p.say .warn "daemon" "API server exited" [])
  | _ => (.ok (), p.say .info "daemon" "Shutting down..." [])

end WalletBridge.Daemon
