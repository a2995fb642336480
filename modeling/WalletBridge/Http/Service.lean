import WalletBridge.Device.Link
import WalletBridge.Http.Csrf
import WalletBridge.Http.HostCheck
import WalletBridge.Http.Route
import WalletBridge.Observe.Metrics

/-!
# Answering requests

`answer` takes one request through all checks, in order: the hosts it names, its token, its method,
its body, and last the device. Whatever happens is counted. The clock is read once, and whatever
is random comes in with the reading.
-/

namespace WalletBridge.Http

open Config Device Json Observe

structure Site where
  settings : Api
  /-- The hosts that requests may name; `none` when they are not checked. -/
  allowed : Option AllowedHosts

def Site.make (bound : Net.SocketAddress) (settings : Api) : Site where
  settings
  allowed :=
    if settings.disableHeaderCheck then none
    else some (AllowedHosts.make bound settings.hostWhitelist)

structure State (σ : Type) where
  tokens : TokenStore := {}
  counters : Counters := []
  /-- The state of the link to the device. -/
  link : σ

/-- The time at which a request is answered, and the random texts it may use. -/
structure Reading where
  now : Nat
  token : String
  requestId : String

structure Response where
  status : Nat
  headers : List (String × String) := []
  body : String := ""
deriving DecidableEq, Repr

namespace Response

def ofJson (status : Nat) (v : Json) : Response where
  status
  headers := [("content-type", "application/json")]
  body := v.compact

def ofFailure (f : Failure) : Response := ofJson f.status f.body

def withHeader (r : Response) (name value : String) : Response :=
  if r.headers.any (·.1 == name) then r else { r with headers := r.headers ++ [(name, value)] }

end Response

def isSafe (method : String) : Bool := method == "GET" || method == "HEAD" || method == "OPTIONS"

def hasToken (tokens : TokenStore) (now : Nat) (r : HttpRequest) : Bool :=
  match r.headers.text? "x-csrf-token" with
  | some token => tokens.verify now token
  | none => false

def gate (site : Site) (tokens : TokenStore) (now : Nat) (r : HttpRequest) :
    Except Failure Unit := do
  match site.allowed with
  | none => pure ()
  | some allowed =>
    match allowed.check r.headers with
    | .ok _ => pure ()
    | .error reason => throw (.forbidden reason)
  if site.settings.enableCsrf && !isSafe r.method && !hasToken tokens now r then
    throw (.forbidden "invalid CSRF token")

/-- Makes a call for a request; at the time limit there is an empty answer instead. -/
def answerCall (site : Site) (link : Link σ) (e : Endpoint) (call : Call) (s : State σ) :
    Response × State σ :=
  let (finished, state) := call.perform link s.link
  let s := { s with link := state }
  match finished.filter fun f => f.after < site.settings.requestTimeout with
  | none => ({ status := 408 }, s)
  | some f =>
    let counters := match f.counted with
      | some success => s.counters.recordCall call.name success
      | none => s.counters
    let response := match f.result with
      | .ok value => Response.ofJson 200 (successBody (e.data value))
      | .error error => Response.ofFailure (.device error)
    (response, { s with counters })

def answerJob (site : Site) (link : Link σ) (reading : Reading) (e : Endpoint) (job : Job)
    (s : State σ) : Response × State σ :=
  match job with
  | .token =>
    if site.settings.enableCsrf then
      (.ofJson 200 (successBody (.object [("csrf_token", .text reading.token)])),
        { s with tokens := s.tokens.issue reading.now reading.token })
    else (.ofFailure (.notFound "csrf disabled"), s)
  | .build => (.ofJson 200 (successBody (writeFields Build.fields site.settings.build)), s)
  | .call call => answerCall site link e call s

/-- Answers a request at an endpoint. Without any time, nothing but the first checks is done. -/
def answerAt (site : Site) (link : Link σ) (reading : Reading) (e : Endpoint) (r : HttpRequest)
    (s : State σ) : Response × State σ :=
  match gate site s.tokens reading.now r with
  | .error f => (.ofFailure f, s)
  | .ok _ =>
    if site.settings.requestTimeout == 0 then ({ status := 408 }, s)
    else if !e.methods.contains r.method then ({ status := 405 }, s)
    else match e.job r with
      | .error f => (.ofFailure f, s)
      | .ok job => answerJob site link reading e job s

def requestIdHeader : String := "x-request-id"

/-- What every answer goes through: it names the methods of its endpoint when the request's is not
among them, passes back the id of the request, and has no body for `HEAD`. -/
def dress (reading : Reading) (endpoint : Option Endpoint) (r : HttpRequest) (response : Response) :
    Response :=
  let response := match endpoint with
    | some e =>
      if e.methods.contains r.method then response
      else response.withHeader "allow" (String.intercalate "," e.methods)
    | none => response
  let id := match r.headers.first? requestIdHeader with
    | some value => Text.ofUtf8Lossy value
    | none => reading.requestId
  let response := response.withHeader requestIdHeader id
  if r.method == "HEAD" then { response with body := "" } else response

def answer (site : Site) (link : Link σ) (reading : Reading) (r : HttpRequest) (s : State σ) :
    Response × State σ :=
  let endpoint := Endpoint.ofPath? r.path
  let (response, s) : Response × State σ := match endpoint with
    | none => ({ status := 404 }, s)
    | some e => answerAt site link reading e r s
  let label := match endpoint with
    | none => "unmatched"
    | some e => e.path
  (dress reading endpoint r response,
    { s with counters := s.counters.recordRequest r.method label response.status })

end WalletBridge.Http
