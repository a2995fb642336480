import WalletBridge.Device.Message

/-!
# Calls on the device

A call sends one message and turns the reply into the caller's value. Asking whether a device is
there is a call too: it fails only by answering no.
-/

namespace WalletBridge.Device

open Json Text

inductive Call where
  | available
  | features
  | generateAddresses (count startIndex : Nat) (confirm : Bool)
  | signMessage (addressIndex : Nat) (message : String)
  | checkMessageSignature (address message signature : String)
  | transactionSign (inputs : List SignInput) (outputs : List SignOutput)
  | wipe
  | cancel
deriving DecidableEq, Repr

inductive Value where
  | truth (b : Bool)
  | features (features : Features)
  | texts (l : List String)
  | text (s : String)
  | nothing
deriving DecidableEq, Repr

def Value.toJson : Value → Json
  | .truth b => .truth b
  | .features f => .object (Features.shape.write f)
  | .texts l => .list (l.map .text)
  | .text s => .text s
  | .nothing => .null

namespace Call

def name : Call → String
  | .available => "available"
  | .features => "features"
  | .generateAddresses .. => "generate_addresses"
  | .signMessage .. => "sign_message"
  | .checkMessageSignature .. => "check_message_signature"
  | .transactionSign .. => "transaction_sign"
  | .wipe => "wipe"
  | .cancel => "cancel"

def request : Call → Request
  | .available => .ping
  | .features => .getFeatures
  | .generateAddresses count startIndex confirm => .generateAddresses count startIndex confirm
  | .signMessage addressIndex message => .signMessage addressIndex message
  | .checkMessageSignature address message signature =>
    .checkMessageSignature address message signature
  | .transactionSign inputs outputs => .transactionSign inputs outputs
  | .wipe => .wipe
  | .cancel => .cancel

def unexpected (call : Call) (reply : Reply) : Error :=
  .protocol ("unexpected response to " ++ call.name ++ ": " ++ reply.inspect)

def interpret (call : Call) (reply : Reply) : Except Error Value :=
  match call, reply with
  | .features, .features f => .ok (.features f)
  | .generateAddresses .., .addresses l => .ok (.texts l)
  | .signMessage .., .signatures [s] => .ok (.text s)
  | .checkMessageSignature .., .success (some s) => .ok (.text s)
  | .transactionSign inputs _, .signatures l =>
    if l.length == inputs.length then .ok (.texts l) else .error (call.unexpected reply)
  | .wipe, .success _ => .ok .nothing
  | .cancel, .success _ => .ok .nothing
  | _, _ => .error (call.unexpected reply)

def settle (outcome : Except Error Reply) : Except Error Reply := outcome.bind Reply.toResult

def conclude (call : Call) (outcome : Except Error Reply) : Except Error Value :=
  match call with
  | .available =>
    .ok (.truth (match outcome with
      | .ok (.success _) => true
      | _ => false))
  | call => (settle outcome).bind call.interpret

/-- Whether the call counts as successful in the statistics; a question whether a device is there
is not counted. The shape of the reply does not matter here. -/
def counted (call : Call) (outcome : Except Error Reply) : Option Bool :=
  match call with
  | .available => none
  | _ => some (settle outcome).toBool

end Call

end WalletBridge.Device
