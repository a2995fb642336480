import Std.Async
import Std.Http.Server
import Std.Time
import WalletBridge.Client.Exchange
import WalletBridge.Client.Query
import WalletBridge.Command.Usage
import WalletBridge.Daemon.Program
import WalletBridge.Device.Emulator
import WalletBridge.Text.Uuid

/-!
# The programs

The bridge as a program that listens and waits for signals, and the client that asks it. What is
decided is decided elsewhere; here it is done: files are opened, addresses looked up and listened
at, datagrams exchanged and lines written.
-/

namespace WalletBridge.Live

open Std Async

/-! ## The machine -/

/-- An error number; the network gives its numbers with the opposite sign. -/
def numbered (code : UInt32) : Os.Error := .code code.toInt32.toInt.natAbs

def reasonOf : IO.Error → Os.Error
  | .alreadyExists _ code _ | .invalidArgument _ code _ | .permissionDenied _ code _
  | .resourceExhausted _ code _ | .inappropriateType _ code _ | .noSuchThing _ code _
  | .noFileOrDirectory _ code _ | .interrupted _ code _ | .otherError code _
  | .resourceBusy code _ | .resourceVanished code _ | .unsupportedOperation code _
  | .hardwareFault code _ | .unsatisfiedConstraints code _ | .illegalOperation code _
  | .protocolError code _ | .timeExpired code _ => numbered code
  | .unexpectedEof => .reason "unexpected end of file"
  | .userError message => .reason message

def attempt (operation : Async α) : Async (Except Os.Error α) := do
  try
    return .ok (← operation)
  catch e =>
    return .error (reasonOf e)

def socketAddress (a : WalletBridge.Net.SocketAddress) : Std.Net.SocketAddress :=
  let port := a.port.toUInt16
  match a.ip with
  | .v4 a b c d => .v4 { addr := .ofParts a.toUInt8 b.toUInt8 c.toUInt8 d.toUInt8, port }
  | .v6 groups _ =>
    let group (i : Nat) : UInt16 := (groups.getD i 0).toUInt16
    let addr := .ofParts (group 0) (group 1) (group 2) (group 3) (group 4) (group 5) (group 6)
      (group 7)
    .v6 { addr, port }

def ipOf : Std.Net.IPAddr → WalletBridge.Net.Ip
  | .v4 a => match a.octets.toList.map (·.toNat) with
    | [a, b, c, d] => .v4 a b c d
    | _ => .v4 0 0 0 0
  | .v6 a => .v6 (a.segments.toList.map (·.toNat)) 0

def networkFor (host : String) : Async WalletBridge.Net.Network := do
  match WalletBridge.Net.SocketAddress.ofText? host, WalletBridge.Net.splitLastColon host.toList with
  | none, some (name, _) =>
    match ← attempt (DNS.getAddrInfo (String.ofList name) "") with
    | .ok found =>
      match found[0]? with
      | some ip => return { lookUp := fun _ => .ok (ipOf ip) }
      | none => return { lookUp := fun _ => .error (.reason "no addresses to send data to") }
    | .error e => return { lookUp := fun _ => .error e }
  | _, _ => return { lookUp := fun _ => .error .invalidArgument }

/-- A random number of 128 bits as an identifier. -/
def freshId : IO String := do
  let bytes ← IO.getRandomBytes 16
  return Text.uuid (bytes.data.foldl (fun n b => n * 256 + b.toNat) 0)

def localMoment : IO Log.Moment := do
  let now ← Std.Time.PlainDateTime.now
  return {
    year := now.date.year, month := now.date.month.toNat, day := now.date.day.toNat
    hour := now.time.hour.toNat, minute := now.time.minute.toNat
    second := now.time.second.toNat }

/-! ## The log and the profile -/

/-- What a run writes to: the log as it is at present, and the files while they are open. -/
structure Journal where
  output : IO.Ref Log.Output
  file : IO.Ref (Option IO.FS.Handle)
  profile : IO.Ref (Option IO.FS.Handle)
  began : Nat

namespace Journal

/-- A log that goes to the terminal alone. -/
def make : IO Journal := do
  return {
    output := ← IO.mkRef {}
    file := ← IO.mkRef none
    profile := ← IO.mkRef none
    began := ← IO.monoMsNow }

/-- Writes a line if its level passes. -/
def write (j : Journal) (line : Log.Line) : IO Unit := do
  let output ← j.output.get
  if line.level.passes output.level then
    let now ← Std.Time.Timestamp.now
    let nanoseconds := now.toNanosecondsSinceUnixEpoch.toInt
    let moment := Log.Moment.ofSeconds (nanoseconds.fdiv 1000000000)
    let stamp := moment.stamp ((nanoseconds.fmod 1000000000).toNat / 1000) ++ " "
    IO.println (stamp ++ if output.colours then line.colouredText else line.text)
    if let some file ← j.file.get then
      file.putStrLn (stamp ++ line.text)
      file.flush

def sample (j : Journal) : IO Unit := do
  if let some profile ← j.profile.get then
    let stat ← IO.FS.readFile "/proc/self/stat"
    let (user, system) := (Observe.processorTimes? stat).getD (0, 0)
    profile.putStrLn (Observe.sampleLine ((← IO.monoMsNow) - j.began) user system 0 0)

/-- Samples until the profile is closed. -/
def sampleOn (j : Journal) : Async Unit := do
  repeat
    if (← j.profile.get).isNone then break
    j.sample
    Async.sleep (.ofNat Observe.profileInterval)

def perform (j : Journal) : Daemon.Deed → Async Unit
  | .log (.setLevel level) => j.output.modify fun o => { o with level }
  | .log (.setColours colours) => j.output.modify fun o => { o with colours }
  | .log (.emit line) => j.write line
  | .log .detach => j.file.set none
  | .startProfile => do
    if let some profile ← j.profile.get then
      profile.putStrLn Observe.profileHeader
      background j.sampleOn
  | .stopProfile => do
    j.sample
    if let some profile ← j.profile.get then
      profile.flush
      j.profile.set none
  | _ => pure ()

def tell (j : Journal) (p : Daemon.Progress) : Async Daemon.Progress := do
  p.deeds.reverse.forM j.perform
  return { p with deeds := [] }

end Journal

/-! ## The device -/

def speak (e : Device.Emulator) (request : Device.Request) : Async Device.Answer := do
  let some target := WalletBridge.Net.SocketAddress.ofText? e.address
    | return e.exchange { connect := .error .invalidArgument }
  let socket ← UDP.Socket.mk
  if let .error error ← attempt (socket.bind (socketAddress ⟨.v4 127 0 0 1, 0⟩)) then
    return e.exchange { bind := .error error }
  if let .error error ← attempt (socket.connect (socketAddress target)) then
    return e.exchange { connect := .error error }
  let datagram := ByteArray.mk (Device.Emulator.datagram request).toArray
  if let .error error ← attempt (socket.send datagram) then
    return e.exchange { send := .error error }
  let began ← IO.monoMsNow
  let size := Device.largestDatagram.toUInt64
  let received ← attempt (Async.race (some <$> Prod.fst <$> socket.recv size) do
    Async.sleep (.ofNat e.patience)
    return none)
  let after := (← IO.monoMsNow) - began
  (socket.recvSelector size).unregisterFn
  return e.exchange { receive := match received with
    | .ok none => none
    | .ok (some bytes) => some (after, .ok bytes.data.toList)
    | .error error => some (after, .error error) }

/-! ## The interface -/

structure Interface where
  site : Http.Site
  state : IO.Ref (Http.State Device.Script)
  /-- Held by the call that is inside the device. -/
  device : Semaphore

namespace Interface

/-- Sends a message to the emulator when its turn comes; `none` when the request that needs it has
run out of time. A message that cancels another one does not wait. -/
def exchange (i : Interface) (request : Device.Request) : Async (Option Device.Answer) := do
  let began ← IO.monoMsNow
  let limit := i.site.settings.requestTimeout
  let waits := request != .cancel
  if waits then await (← i.device.acquire)
  let waited := (← IO.monoMsNow) - began
  let emulator : Device.Emulator := {}
  let answer ←
    if limit ≤ waited then pure none
    else some <$> speak { emulator with patience := min emulator.patience (limit - waited) } request
  if waits then i.device.release
  let after := (← IO.monoMsNow) - began
  return answer.filter (fun _ => after < limit) |>.map fun a => { a with after }

/-- Answers a request. What is sent to the device is found out with a device that never replies. -/
def answer (i : Interface) (r : Http.HttpRequest) : Async Http.Response := do
  let reading : Http.Reading := {
    now := ← IO.monoMsNow, token := ← freshId, requestId := ← freshId }
  let finish (link : Device.Link Device.Script) (replies : List (Option Device.Answer)) :=
    i.state.modifyGet fun s => Http.answer i.site link reading r { s with link := { replies } }
  match i.site.settings.mode with
  | .usb => finish Device.usbLink []
  | .emulator =>
    let s ← i.state.get
    let tried := Http.answer i.site Device.Script.link reading r { s with link := ⟨[none], []⟩ }
    match tried.2.link.sent with
    | [] => finish Device.Script.link []
    | request :: _ => finish Device.Script.link [← i.exchange request]

end Interface

def pathOf (target : Std.Http.RequestTarget) : String := toString target.path

def requestOf (head : Std.Http.Request.Head) (body : ByteArray) : Http.HttpRequest where
  method := toString head.method
  path := pathOf head.uri
  headers := head.headers.toList.map fun (name, value) => (name.value, Text.utf8 value.value)
  body := body.data.toList

def responseOf (r : Http.Response) : Async (Std.Http.Response Std.Http.Body.Any) := do
  let status := (Std.Http.Status.ofCode none r.status.toUInt16).getD .internalServerError
  let builder := r.headers.foldl (fun b (name, value) => (b.header? name value).getD b)
    (Std.Http.Response.withStatus status)
  let response ← builder.fromBytes r.body.toUTF8
  return response

instance : Std.Http.Server.Handler Interface where
  onRequest i request := do
    let body : ByteArray ← request.body.readAll
    responseOf (← i.answer (requestOf request.line body))

structure Window where
  state : IO.Ref (Http.State Device.Script)

instance : Std.Http.Server.Handler Window where
  onRequest w request := do
    let sight : Http.Sight := {
      counters := some (← w.state.get).counters, figures := {}, thread := "main" }
    responseOf (Http.answerPage sight (toString request.line.method) (pathOf request.line.uri))

def serverConfig : Std.Http.Config where
  serverName := none

/-! ## A run -/

def createLog (app : Config.App) (moment : Log.Moment) : Async IO.FS.Handle := do
  IO.FS.createDirAll app.logDirectory
  IO.FS.Handle.mk (Config.joinPath app.logDirectory (Log.fileName moment)) .append

/-- Opens what a run needs, in the order in which the run takes it, until something fails: the
progress of the run, and its servers. -/
def openAll (j : Journal) (s : Daemon.Surroundings) (settings : Config.Settings)
    (state : IO.Ref (Http.State Device.Script)) (p : Daemon.Progress) :
    Async (Except Daemon.Stopped (Daemon.Progress × List Std.Http.Server)) := do
  let app := settings.app
  let .ok (level, p) := Daemon.chooseLog app p
    | return .error ⟨.config (.unknownLogLevel app.logLevel), p⟩
  if app.logToFile then
    match ← attempt (createLog app s.moment) with
    | .ok file => j.file.set (some file)
    | .error e => return .error ⟨.logFile app e, p⟩
  let .ok p := Daemon.openLog s app p | return .error ⟨.logFile app .invalidArgument, p⟩
  let p := Daemon.announce settings level p
  if app.profileCpu then
    match ← attempt (IO.FS.Handle.mk app.profileCpuFile .write) with
    | .ok profile => j.profile.set (some profile)
    | .error e => return .error ⟨.profile app e, p⟩
  let above := String.intercalate "/" (Os.pathNames app.profileCpuFile).dropLast
  let (tree, _) := p.tree.makeDirectory s.working above Log.directoryMode
  let .ok p := Daemon.startProfile s app { p with tree }
    | return .error ⟨.profile app .invalidArgument, p⟩
  let p := (Daemon.startDiagnostics s app p).enter .starting
  let network ← networkFor app.host
  let refused (e : Os.Error) : Daemon.Stopped := ⟨.construction (Http.cannotListen app.host e), p⟩
  match network.target app.host with
  | .error e => return .error (refused e)
  | .ok address =>
    let site := Http.Site.make address settings.api
    let interface : Interface := { site, state, device := ← Semaphore.new 1 }
    match ← attempt (Std.Http.Server.serve (socketAddress address) interface serverConfig) with
    | .error e => return .error (refused e)
    | .ok server =>
      match Daemon.setUp s settings { p with network } with
      | .error stopped => return .error stopped
      | .ok p => return .ok (Daemon.enterRunning app p, [server])

/-- Opens the second interface if there is to be one, and lets every task begin. -/
def openWindow (app : Config.App) (state : IO.Ref (Http.State Device.Script))
    (p : Daemon.Progress) : Async (Daemon.Progress × List Std.Http.Server) := do
  if !app.httpProf then return (p.turn, [])
  let found ← networkFor app.httpProfHost
  let network := { p.network with lookUp := found.lookUp }
  match network.target app.httpProfHost with
  | .error _ => return ({ p with network }.turn, [])
  | .ok address =>
    let window : Window := { state }
    match ← attempt (Std.Http.Server.serve (socketAddress address) window serverConfig) with
    | .error e => return ({ p with network := { network with refusal := fun _ => some e } }.turn, [])
    | .ok server => return ({ p with network }.turn, [server])

def waitForEnd (j : Journal) : Async Unit := do
  let interrupt ← Async.Signal.Waiter.mk .sigint true
  let terminate ← Async.Signal.Waiter.mk .sigterm true
  let look ← Async.Signal.Waiter.mk .sigusr1 true
  repeat
    let signal ← Selectable.one #[
      .case interrupt.selector fun _ => pure Lifecycle.Signal.interrupt,
      .case terminate.selector fun _ => pure .terminate,
      .case look.selector fun _ => pure .look]
    let effect := signal.effect {} false
    effect.lines.forM fun line => j.write line
    if effect.pictures != 0 then IO.println (Http.threadTitle "main")
    if effect.quits then break

/-- Closes a server: whether nobody is connected any more when the time is over. -/
def close (limit : Nat) (server : Std.Http.Server) : Async Bool := do
  server.shutdown
  Selectable.one #[
    .case server.waitShutdownSelector fun _ => pure true,
    .case (← Selector.sleep (.ofNat limit)) fun _ => pure false]

def comesFirst (deed : Daemon.Deed) : Bool := deed != .shutDown

/-- Ends a run, and closes its servers on the way: the exit code. -/
def finish (j : Journal) (s : Daemon.Surroundings) (settings : Config.Settings)
    (servers : List Std.Http.Server) (result : Except Daemon.Failure Unit)
    (p : Daemon.Progress) : Async UInt32 := do
  let planned := Daemon.finishRun s settings result p
  (planned.deeds.takeWhile comesFirst).forM j.perform
  let drained ← servers.allM (close (settings.app.shutdownTimeout * 1000))
  let worker := p.worker.map fun w =>
    if drained then w else { w with course := .forever }
  let outcome := Daemon.finishRun s settings result { p with worker }
  (outcome.deeds.dropWhile comesFirst).forM j.perform
  let (exit, errors) := outcome.verdict.exit
  IO.eprint errors
  return match exit with
    | .code n => n.toUInt32
    | .running => 1

/-- Runs the bridge until a signal ends it: the exit code. -/
def runBridge (settings : Config.Settings) : Async UInt32 := do
  let j ← Journal.make
  let s : Daemon.Surroundings := {
    moment := ← localMoment, working := [], uptime := (← IO.monoMsNow) / 1000 }
  let state ← IO.mkRef { link := { replies := [] } }
  let p : Daemon.Progress := { tree := {}, network := { lookUp := fun _ => .error .notFound } }
  match ← openAll j s settings state (p.enter .configuring) with
  | .error stopped =>
    let p ← j.tell stopped.progress
    finish j s settings [] (.error stopped.failure) p
  | .ok (p, servers) =>
    let p ← j.tell p
    let (p, windows) ← openWindow settings.app state p
    let p ← j.tell p
    waitForEnd j
    let now := (← IO.monoMsNow) - j.began
    let diagnostics := p.diagnostics.map fun (d : Daemon.Diagnostics) => d.tell now
    let (result, p) := Daemon.react { p with now, diagnostics }.diagnosticsEnd .quit
    let p ← j.tell p
    finish j s settings (servers ++ windows) result p

/-! ## The command lines -/

def refuse (program : Command.Program) (name : String) : Command.Refusal → IO UInt32
  | .help => do
    IO.println (program.usage name)
    return 0
  | refusal => do
    IO.eprintln ("error: " ++ refusal.name ++ "\n\n" ++ program.usage name)
    return 2

def bridge (name : String) (args : List String) : IO UInt32 := do
  match Config.daemonProgram.parse args with
  | .error refusal => refuse Config.daemonProgram name refusal
  | .ok parsed =>
    let file ← match Config.configPath parsed.given with
      | some path => (attempt (do return (← IO.FS.readBinFile path).data.toList)).block
      | none => pure (.error .notFound)
    let home := Config.homeDirectory (← IO.getEnv "HOME") none
    match Config.fromCommandLine home (fun _ => file) parsed.given with
    | .error failure =>
      (← Journal.make).write (Daemon.refusalLine failure)
      return 1
    | .ok settings => (runBridge settings).block

def askAt (d : Client.Destination) (address : Std.Net.SocketAddress) : Async Bytes := do
  let socket ← TCP.Socket.Client.mk
  socket.connect address
  socket.send (ByteArray.mk d.question.toArray)
  let mut bytes := ByteArray.empty
  repeat
    match ← socket.recv? 65536 with
    | some more => bytes := bytes ++ more
    | none => break
  return bytes.data.toList

/-- Asks a question: what is shown, or why there is no answer. -/
def ask (wish : Client.Wish) : Async (Except String Client.Report) := do
  let some d := Client.Destination.ofUrl? wish.target | return .error "invalid address"
  match (← networkFor d.host).target d.host with
  | .error e => return .error e.describe
  | .ok address =>
    match ← attempt (askAt d (socketAddress address)) with
    | .error e => return .error e.describe
    | .ok bytes =>
      match Client.readAnswer bytes with
      | none => return .error "invalid answer"
      | some (status, body) =>
        match Client.showAnswer status body with
        | none => return .error "answer is not JSON"
        | some report => return .ok report

def client (name : String) (args : List String) : IO UInt32 := do
  match Client.Wish.parse args with
  | .error refusal => refuse Client.clientProgram name refusal
  | .ok wish =>
    match ← (ask wish).block with
    | .error reason =>
      IO.eprintln ("Error: " ++ reason)
      return 1
    | .ok report =>
      IO.print report.output
      IO.eprint report.errors
      return report.exit.toUInt32

end WalletBridge.Live

/-- Runs the client if the name of the program ends in `cli`, and otherwise the bridge. -/
def main (args : List String) : IO UInt32 := do
  let name := (← IO.appPath).fileStem.getD "wallet-bridge"
  if name.endsWith "cli" then WalletBridge.Live.client name args
  else WalletBridge.Live.bridge name args
