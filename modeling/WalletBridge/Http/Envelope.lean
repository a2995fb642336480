import WalletBridge.Config.Settings
import WalletBridge.Request.Validation
import WalletBridge.Device.Error

/-!
# Answers

A successful answer is an object with the member `data`; a failed one is an object with the member
`error`, which holds the status and the text of the failure.
-/

namespace WalletBridge.Http

open Json

inductive Failure where
  /-- The body of the request could not be used. -/
  | rejected (status : Nat) (message : String)
  | validation (errors : Request.Errors)
  | device (error : Device.Error)
  | forbidden (message : String)
  | notFound (message : String)
deriving DecidableEq, Repr

namespace Failure

def describe : Failure → String
  | .rejected _ message => message
  | .validation errors => errors.describe
  | .device error => error.describe
  | .forbidden message => message
  | .notFound message => message

def status : Failure → Nat
  | .rejected status _ => status
  | .validation _ => 422
  | .device (.notConnected _) => 503
  | .device .cancelled => 409
  | .device (.invalidArgument _) => 400
  | .device (.failure _) => 500
  | .device (.transport _) => 500
  | .device (.protocol _) => 500
  | .forbidden _ => 403
  | .notFound _ => 404

def body (f : Failure) : Json :=
  .object [("error", .object [("code", .natural f.status), ("message", .text f.describe)])]

end Failure

def successBody (data : Json) : Json := .object [("data", data)]

end WalletBridge.Http
