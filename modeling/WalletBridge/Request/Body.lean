import WalletBridge.Device.Message
import WalletBridge.Request.Validation

/-!
# Requests as clients send them

Every field that a request needs may be missing from its text, so that `validate` can name all the
missing ones at once.
-/

namespace WalletBridge.Request

open Json Text

def mostEntries : Nat := 8

def mostAddresses : Nat := 99

structure TransactionInput where
  hash : Option String
  index : Option Int
deriving DecidableEq, Repr, Inhabited

/-- An output of a transaction as a client sends it; amounts are decimal texts. -/
structure TransactionOutput where
  address : Option String
  coins : Option String
  hours : Option String
  addressIndex : Option Nat
deriving DecidableEq, Repr, Inhabited

structure GenerateAddresses where
  addressCount : Option Nat
  startIndex : Nat
  confirm : Bool
deriving DecidableEq, Repr, Inhabited

structure SignMessage where
  addressIndex : Option Nat
  message : Option String
deriving DecidableEq, Repr, Inhabited

structure CheckMessageSignature where
  address : Option String
  message : Option String
  signature : Option String
deriving DecidableEq, Repr, Inhabited

structure TransactionSign where
  inputs : Option (List TransactionInput)
  outputs : Option (List TransactionOutput)
deriving DecidableEq, Repr, Inhabited

class Body (α : Type) where
  shape : Shape α
  errors : α → Errors

def validate [Body α] (a : α) : Except Errors Unit := (Body.errors a).toResult

namespace TransactionInput

def greatestIndex : Int := 0xFFFFFFFF

def shape : Shape TransactionInput where
  title := "struct TransactionInput"
  members := [
    .optional "hash" .text hash fun a r => { r with hash := a },
    .optional "index" (.whole .signed64) index fun a r => { r with index := a }]
  start := default

def indexErrors : Option Int → Errors
  | none => []
  | some n =>
    if 0 ≤ n && n ≤ greatestIndex then []
    else Errors.invalid "index" .body "must be between 0 and 4294967295"

instance : Body TransactionInput where
  shape := shape
  errors r :=
    Errors.required "hash" .body r.hash ++ Errors.required "index" .body r.index
      ++ indexErrors r.index

end TransactionInput

namespace TransactionOutput

def shape : Shape TransactionOutput where
  title := "struct TransactionOutput"
  members := [
    .optional "address" .text address fun a r => { r with address := a },
    .optional "coins" .text coins fun a r => { r with coins := a },
    .optional "hours" .text hours fun a r => { r with hours := a },
    .trailing "address_index" (.natural .natural32) addressIndex
      fun a r => { r with addressIndex := a }]
  start := default

def amount? (s : String) : Option Nat := naturalUpTo? greatest64 s

def amountErrors (name : String) : Option String → Errors
  | none => []
  | some s => if (amount? s).isSome then [] else Errors.invalid name .body "not an unsigned integer"

instance : Body TransactionOutput where
  shape := shape
  errors r :=
    Errors.required "address" .body r.address ++ Errors.required "coins" .body r.coins
      ++ Errors.required "hours" .body r.hours
      ++ amountErrors "coins" r.coins ++ amountErrors "hours" r.hours

end TransactionOutput

namespace GenerateAddresses

instance : Body GenerateAddresses where
  shape := {
    title := "struct GenerateAddressesRequest"
    members := [
      .optional "address_n" (.natural .natural32) addressCount fun a r => { r with addressCount := a },
      .defaulted "start_index" (.natural .natural32) 0 startIndex
        fun a r => { r with startIndex := a },
      .defaulted "confirm_address" .truth false confirm fun a r => { r with confirm := a }]
    start := default }
  errors r :=
    Errors.required "address_n" .body r.addressCount ++
      match r.addressCount with
      | none => []
      | some n =>
        if n == 0 || mostAddresses < n then
          Errors.invalid "address_n" .body ("must be between 1 and " ++ decimal mostAddresses)
        else []

end GenerateAddresses

namespace SignMessage

instance : Body SignMessage where
  shape := {
    title := "struct SignMessageRequest"
    members := [
      .optional "address_index" (.natural .natural32) addressIndex
        fun a r => { r with addressIndex := a },
      .optional "message" .text message fun a r => { r with message := a }]
    start := default }
  errors r :=
    Errors.required "address_index" .body r.addressIndex
      ++ Errors.required "message" .body r.message

end SignMessage

namespace CheckMessageSignature

instance : Body CheckMessageSignature where
  shape := {
    title := "struct CheckMessageSignatureRequest"
    members := [
      .optional "address" .text address fun a r => { r with address := a },
      .optional "message" .text message fun a r => { r with message := a },
      .optional "signature" .text signature fun a r => { r with signature := a }]
    start := default }
  errors r :=
    Errors.required "address" .body r.address ++ Errors.required "message" .body r.message
      ++ Errors.required "signature" .body r.signature

end CheckMessageSignature

namespace TransactionSign

/-- The check of a list's length. -/
def lengthErrors (name : String) (length : Nat) : Errors :=
  if length == 0 || mostEntries < length then
    Errors.invalid name .body ("must contain between 1 and " ++ decimal mostEntries ++ " entries")
  else []

def entryErrors [Body α] (name : String) : Nat → List α → Errors
  | _, [] => []
  | i, entry :: entries =>
    Errors.nest (name ++ "." ++ decimal i) (Body.errors entry) ++ entryErrors name (i + 1) entries

def listErrors [Body α] (name : String) : Option (List α) → Errors
  | none => []
  | some entries => lengthErrors name entries.length ++ entryErrors name 0 entries

instance : Body TransactionSign where
  shape := {
    title := "struct TransactionSignRequest"
    members := [
      .optional "transaction_inputs" (.list TransactionInput.shape.codec) inputs
        fun a r => { r with inputs := a },
      .optional "transaction_outputs" (.list TransactionOutput.shape.codec) outputs
        fun a r => { r with outputs := a }]
    start := default }
  errors r :=
    Errors.required "transaction_inputs" .body r.inputs
      ++ Errors.required "transaction_outputs" .body r.outputs
      ++ listErrors "transaction_inputs" r.inputs ++ listErrors "transaction_outputs" r.outputs

end TransactionSign

end WalletBridge.Request
