import WalletBridge.Text.Decimal

/-!
# What is wrong with a request

A check of a request goes through all of its fields and lists every failure, each with the name of
the field. A field inside an item of a list is named by the whole path to it.
-/

namespace WalletBridge.Request

inductive Location where
  | body
  | query
deriving DecidableEq, Repr

def Location.name : Location → String
  | .body => "body"
  | .query => "query"

inductive Problem where
  | required
  | invalid (reason : String)
deriving DecidableEq, Repr

structure FieldError where
  name : String
  location : Location
  problem : Problem
deriving DecidableEq, Repr

def FieldError.describe (e : FieldError) : String :=
  match e.problem with
  | .required => e.name ++ " in " ++ e.location.name ++ " is required"
  | .invalid reason => e.name ++ " in " ++ e.location.name ++ " is invalid: " ++ reason

abbrev Errors := List FieldError

namespace Errors

def describe : Errors → String
  | [] => "validation failure list: (empty)"
  | [e] => e.describe
  | errors => "validation failure list:" ++ String.join (errors.map fun e => "\n" ++ e.describe)

def required (name : String) (location : Location) (value : Option α) : Errors :=
  match value with
  | none => [{ name, location, problem := .required }]
  | some _ => []

def invalid (name : String) (location : Location) (reason : String) : Errors :=
  [{ name, location, problem := .invalid reason }]

def nest (before : String) (errors : Errors) : Errors :=
  errors.map fun e => { e with name := before ++ "." ++ e.name }

def toResult (errors : Errors) : Except Errors Unit :=
  match errors with
  | [] => .ok ()
  | errors => .error errors

theorem toResult_ok_iff (errors : Errors) : toResult errors = .ok () ↔ errors = [] := by
  cases errors <;> simp [toResult]

end Errors

end WalletBridge.Request
