import WalletBridge.Device.Call
import WalletBridge.Http.Envelope
import WalletBridge.Http.Header
import WalletBridge.Http.Media
import WalletBridge.Request.Signing

/-!
# Endpoints

Which path and method lead to which endpoint, and what an endpoint is asked to do: the body of the
request is read and checked before anything else happens.
-/

namespace WalletBridge.Http

open Device Json Request

inductive Endpoint where
  | csrf
  | version
  | available
  | features
  | generateAddresses
  | signMessage
  | checkMessageSignature
  | transactionSign
  | cancel
  | wipe
deriving DecidableEq, Repr

structure HttpRequest where
  method : String
  path : String
  headers : Headers
  body : Bytes

namespace Endpoint

def all : List Endpoint := [.csrf, .version, .available, .features, .generateAddresses,
  .signMessage, .checkMessageSignature, .transactionSign, .cancel, .wipe]

def name : Endpoint → String
  | .csrf => "csrf"
  | .version => "version"
  | .available => "available"
  | .features => "features"
  | .generateAddresses => "generate_addresses"
  | .signMessage => "sign_message"
  | .checkMessageSignature => "check_message_signature"
  | .transactionSign => "transaction_sign"
  | .cancel => "cancel"
  | .wipe => "wipe"

def path (e : Endpoint) : String := "/api/v1/" ++ e.name

def ofPath? (path : String) : Option Endpoint := all.find? (·.path == path)

def methods : Endpoint → List String
  | .csrf | .version | .available | .features => ["GET", "HEAD"]
  | .generateAddresses | .signMessage | .checkMessageSignature | .transactionSign => ["POST"]
  | .cancel => ["PUT"]
  | .wipe => ["DELETE"]

end Endpoint

/-- The largest body that is read. -/
def largestBody : Nat := 2 * 1024 * 1024

def declaresJson (headers : Headers) : Bool :=
  (headers.text? "content-type").any Media.isJson

def bodyFailure (body : Bytes) (fault : Fault) : Failure :=
  match fault.cause.category with
  | .mismatch =>
    .rejected 422 ("Failed to deserialize the JSON body into the target type: "
      ++ fault.describeWithPath body)
  | _ =>
    .rejected 400 ("Failed to parse the request body as JSON: " ++ fault.describeWithPath body)

def readBody (α : Type) [Body α] (r : HttpRequest) : Except Failure α :=
  if !declaresJson r.headers then
    .error (.rejected 415 "Expected request with `Content-Type: application/json`")
  else if largestBody < r.body.length then
    .error (.rejected 413 "Failed to buffer the request body: length limit exceeded")
  else match Json.decode (Body.shape : Shape α).codec r.body with
    | .ok a => .ok a
    | .error fault => .error (bodyFailure r.body fault)

def checkedBody (α : Type) [Body α] (r : HttpRequest) : Except Failure α := do
  let a ← readBody α r
  match validate a with
  | .ok _ => return a
  | .error errors => throw (.validation errors)

def orInvalid (result : Except Errors α) : Except Failure α :=
  match result with
  | .ok a => .ok a
  | .error errors => .error (.validation errors)

inductive Job where
  | token
  | build
  | call (call : Call)
deriving DecidableEq, Repr

namespace Endpoint

def bodyCall (r : HttpRequest) : Endpoint → Except Failure Call
  | .generateAddresses => do
    let b ← checkedBody GenerateAddresses r
    return .generateAddresses (b.addressCount.getD 0) b.startIndex b.confirm
  | .signMessage => do
    let b ← checkedBody Request.SignMessage r
    return .signMessage (b.addressIndex.getD 0) (b.message.getD "")
  | .checkMessageSignature => do
    let b ← checkedBody Request.CheckMessageSignature r
    return .checkMessageSignature (b.address.getD "") (b.message.getD "") (b.signature.getD "")
  | .transactionSign => do
    let b ← checkedBody Request.TransactionSign r
    let inputs ← orInvalid ((b.inputs.getD []).mapM TransactionInput.toSignInput)
    let outputs ← orInvalid ((b.outputs.getD []).mapM TransactionOutput.toSignOutput)
    return .transactionSign inputs outputs
  | .available | .csrf | .version => return .available
  | .features => return .features
  | .cancel => return .cancel
  | .wipe => return .wipe

def job (e : Endpoint) (r : HttpRequest) : Except Failure Job :=
  match e with
  | .csrf => .ok .token
  | .version => .ok .build
  | e => (e.bodyCall r).map .call

def data (e : Endpoint) (value : Value) : Json :=
  match e with
  | .available => .object [("available", value.toJson)]
  | .generateAddresses => .object [("addresses", value.toJson)]
  | .signMessage => .object [("signature", value.toJson)]
  | .checkMessageSignature => .object [("address", value.toJson)]
  | .transactionSign => .object [("signatures", value.toJson)]
  | .cancel => .object [("message", .text "operation cancelled")]
  | .wipe => .object [("message", .text "device wiped")]
  | .features | .csrf | .version => value.toJson

end Endpoint

end WalletBridge.Http
