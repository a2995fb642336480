import WalletBridge.Device.Error
import WalletBridge.Json.Codec

/-!
# Messages to and from the device

One message is one JSON object. The member `kind` tells which; its name is the message's in lower
case.
-/

namespace WalletBridge.Device

open Json Text

structure Features where
  vendor : String
  deviceId : String
  firmwareVersion : String
  label : Option String
  initialized : Bool
  pinProtection : Bool
  passphraseProtection : Bool
  needsBackup : Bool
deriving DecidableEq, Repr, Inhabited

structure SignInput where
  hash : String
  index : Nat
deriving DecidableEq, Repr, Inhabited

structure SignOutput where
  address : String
  coins : Nat
  hours : Nat
  addressIndex : Option Nat
deriving DecidableEq, Repr, Inhabited

inductive FailureCode where
  | actionCancelled
  | dataError
  | other
deriving DecidableEq, Repr

inductive Request where
  | ping
  | getFeatures
  | generateAddresses (count startIndex : Nat) (confirm : Bool)
  | signMessage (addressIndex : Nat) (message : String)
  | checkMessageSignature (address message signature : String)
  | transactionSign (inputs : List SignInput) (outputs : List SignOutput)
  | wipe
  | cancel
deriving DecidableEq, Repr

inductive Reply where
  | success (message : Option String)
  | failure (code : FailureCode) (message : String)
  | features (features : Features)
  | addresses (addresses : List String)
  | signatures (signatures : List String)
deriving DecidableEq, Repr

namespace Features

def shape : Shape Features where
  title := "struct Features"
  members := [
    .required "vendor" .text vendor fun a r => { r with vendor := a },
    .required "device_id" .text deviceId fun a r => { r with deviceId := a },
    .required "firmware_version" .text firmwareVersion fun a r => { r with firmwareVersion := a },
    .optional "label" .text label fun a r => { r with label := a },
    .required "initialized" .truth initialized fun a r => { r with initialized := a },
    .required "pin_protection" .truth pinProtection fun a r => { r with pinProtection := a },
    .required "passphrase_protection" .truth passphraseProtection
      fun a r => { r with passphraseProtection := a },
    .required "needs_backup" .truth needsBackup fun a r => { r with needsBackup := a }]
  start := default

def inspectOptional : Option String → String
  | none => "None"
  | some s => "Some(" ++ quoted s ++ ")"

def inspectTruth (b : Bool) : String := if b then "true" else "false"

def inspect (f : Features) : String :=
  "Features \x7b vendor: " ++ quoted f.vendor ++ ", device_id: " ++ quoted f.deviceId
    ++ ", firmware_version: " ++ quoted f.firmwareVersion ++ ", label: " ++ inspectOptional f.label
    ++ ", initialized: " ++ inspectTruth f.initialized
    ++ ", pin_protection: " ++ inspectTruth f.pinProtection
    ++ ", passphrase_protection: " ++ inspectTruth f.passphraseProtection
    ++ ", needs_backup: " ++ inspectTruth f.needsBackup ++ " \x7d"

end Features

namespace SignInput

def shape : Shape SignInput where
  title := "struct SignInput"
  members := [
    .required "hash" .text hash fun a r => { r with hash := a },
    .required "index" (.natural .natural32) index fun a r => { r with index := a }]
  start := default

end SignInput

namespace SignOutput

def shape : Shape SignOutput where
  title := "struct SignOutput"
  members := [
    .required "address" .text address fun a r => { r with address := a },
    .required "coins" (.natural .natural64) coins fun a r => { r with coins := a },
    .required "hours" (.natural .natural64) hours fun a r => { r with hours := a },
    .optional "address_index" (.natural .natural32) addressIndex
      fun a r => { r with addressIndex := a }]
  start := default

end SignOutput

namespace FailureCode

def name : FailureCode → String
  | .actionCancelled => "action_cancelled"
  | .dataError => "data_error"
  | .other => "other"

def inspect : FailureCode → String
  | .actionCancelled => "ActionCancelled"
  | .dataError => "DataError"
  | .other => "Other"

def codec : Codec FailureCode :=
  choice [("action_cancelled", .actionCancelled), ("data_error", .dataError), ("other", .other)]
    name

end FailureCode

namespace Request

structure AddressRange where
  count : Nat
  startIndex : Nat
  confirm : Bool
deriving Inhabited

def addressRange : Shape AddressRange where
  title := "struct variant DeviceRequest::GenerateAddresses"
  members := [
    .required "count" (.natural .natural32) (·.count) fun a r => { r with count := a },
    .required "start_index" (.natural .natural32) (·.startIndex) fun a r => { r with startIndex := a },
    .required "confirm" .truth (·.confirm) fun a r => { r with confirm := a }]
  start := default

structure ToSign where
  addressIndex : Nat
  message : String
deriving Inhabited

def toSign : Shape ToSign where
  title := "struct variant DeviceRequest::SignMessage"
  members := [
    .required "address_index" (.natural .natural32) (·.addressIndex)
      fun a r => { r with addressIndex := a },
    .required "message" .text (·.message) fun a r => { r with message := a }]
  start := default

structure ToCheck where
  address : String
  message : String
  signature : String
deriving Inhabited

def toCheck : Shape ToCheck where
  title := "struct variant DeviceRequest::CheckMessageSignature"
  members := [
    .required "address" .text (·.address) fun a r => { r with address := a },
    .required "message" .text (·.message) fun a r => { r with message := a },
    .required "signature" .text (·.signature) fun a r => { r with signature := a }]
  start := default

structure Transaction where
  inputs : List SignInput
  outputs : List SignOutput
deriving Inhabited

def transaction : Shape Transaction where
  title := "struct variant DeviceRequest::TransactionSign"
  members := [
    .required "inputs" (.list SignInput.shape.codec) (·.inputs) fun a r => { r with inputs := a },
    .required "outputs" (.list SignOutput.shape.codec) (·.outputs)
      fun a r => { r with outputs := a }]
  start := default

def parts : Request → String × List (String × Json)
  | .ping => ("ping", [])
  | .getFeatures => ("get_features", [])
  | .generateAddresses count startIndex confirm =>
    ("generate_addresses", addressRange.write { count, startIndex, confirm })
  | .signMessage addressIndex message => ("sign_message", toSign.write { addressIndex, message })
  | .checkMessageSignature address message signature =>
    ("check_message_signature", toCheck.write { address, message, signature })
  | .transactionSign inputs outputs => ("transaction_sign", transaction.write { inputs, outputs })
  | .wipe => ("wipe", [])
  | .cancel => ("cancel", [])

def codec : Codec Request :=
  Tagged.codec {
    title := "internally tagged enum DeviceRequest"
    tagName := "kind"
    variants := [
      .plain "ping" .ping,
      .plain "get_features" .getFeatures,
      .ofShape "generate_addresses" addressRange
        fun r => .generateAddresses r.count r.startIndex r.confirm,
      .ofShape "sign_message" toSign fun r => .signMessage r.addressIndex r.message,
      .ofShape "check_message_signature" toCheck
        fun r => .checkMessageSignature r.address r.message r.signature,
      .ofShape "transaction_sign" transaction fun r => .transactionSign r.inputs r.outputs,
      .plain "wipe" .wipe,
      .plain "cancel" .cancel]
    write := parts }

end Request

namespace Reply

structure Success where
  message : Option String
deriving Inhabited

def successShape : Shape Success where
  title := "struct variant DeviceResponse::Success"
  members := [.optional "message" .text (·.message) fun a _ => { message := a }]
  start := default

structure Failure where
  code : FailureCode
  message : String

def failureShape : Shape Failure where
  title := "struct variant DeviceResponse::Failure"
  members := [
    .required "code" FailureCode.codec (·.code) fun a r => { r with code := a },
    .required "message" .text (·.message) fun a r => { r with message := a }]
  start := { code := .other, message := "" }

def addressesShape : Shape (List String) where
  title := "struct variant DeviceResponse::Addresses"
  members := [.required "addresses" (.list .text) id fun a _ => a]
  start := []

def signaturesShape : Shape (List String) where
  title := "struct variant DeviceResponse::Signatures"
  members := [.required "signatures" (.list .text) id fun a _ => a]
  start := []

def parts : Reply → String × List (String × Json)
  | .success message => ("success", successShape.write { message })
  | .failure code message => ("failure", failureShape.write { code, message })
  | .features f => ("features", Features.shape.write f)
  | .addresses l => ("addresses", addressesShape.write l)
  | .signatures l => ("signatures", signaturesShape.write l)

def codec : Codec Reply :=
  Tagged.codec {
    title := "internally tagged enum DeviceResponse"
    tagName := "kind"
    variants := [
      .ofShape "success" successShape fun r => .success r.message,
      .ofShape "failure" failureShape fun r => .failure r.code r.message,
      .ofShape "features" Features.shape .features,
      .ofShape "addresses" addressesShape .addresses,
      .ofShape "signatures" signaturesShape .signatures]
    write := parts }

def inspectTexts (l : List String) : String := "[" ++ String.intercalate ", " (l.map quoted) ++ "]"

def inspect : Reply → String
  | .success message => "Success \x7b message: " ++ Features.inspectOptional message ++ " \x7d"
  | .failure code message =>
    "Failure \x7b code: " ++ code.inspect ++ ", message: " ++ quoted message ++ " \x7d"
  | .features f => "Features(" ++ f.inspect ++ ")"
  | .addresses l => "Addresses \x7b addresses: " ++ inspectTexts l ++ " \x7d"
  | .signatures l => "Signatures \x7b signatures: " ++ inspectTexts l ++ " \x7d"

def toResult : Reply → Except Error Reply
  | .failure .actionCancelled _ => .error .cancelled
  | .failure .dataError message => .error (.invalidArgument message)
  | .failure .other message => .error (.failure message)
  | reply => .ok reply

def decode (bytes : Bytes) : Except Error Reply :=
  match Json.decode codec bytes with
  | .ok reply => .ok reply
  | .error fault => .error (.protocol (fault.describe bytes))

end Reply

end WalletBridge.Device
