import WalletBridge.Json.Value
import WalletBridge.Text.Utf8

/-!
# Why a text was not read

A `Cause` is what was wrong; a `Fault` adds where. The place is kept as the number of bytes not
yet read, so that a reader needs nothing but the bytes before it; `Fault.position` turns it into a
line and a column of the whole text. Faults of values taken from memory have no place.
-/

namespace WalletBridge.Json

open Text

inductive Found where
  | null
  | truth (b : Bool)
  | number (n : Num)
  | text (s : String)
  | sequence
  | map
deriving DecidableEq, Repr

def found : Json → Found
  | .null => .null
  | .truth b => .truth b
  | .number n => .number n
  | .text s => .text s
  | .list _ => .sequence
  | .object _ => .map

namespace Found

def describe : Found → String
  | .null => "null"
  | .truth b => "boolean `" ++ (if b then "true" else "false") ++ "`"
  | .number (.whole n) => "integer `" ++ signedDecimal n ++ "`"
  | .number (.real x) => "floating point `" ++ x.scientificText ++ "`"
  | .text s => "string " ++ quoted s
  | .sequence => "sequence"
  | .map => "map"

end Found

inductive Cause where
  | endInValue
  | endInText
  | endInList
  | endInObject
  | expectedValue
  | expectedIdentifier
  | expectedColon
  | expectedListComma
  | expectedObjectComma
  | trailingComma
  | trailingCharacters
  | keyNotText
  | badEscape
  | badNumber
  | numberTooLarge
  | badCharacter
  | controlCharacter
  | loneSurrogate
  | endOfHexEscape
  | tooDeep
  /-- A value of another kind than the wanted one. -/
  | wrongType (found : Found) (expected : String)
  /-- A value of the right kind that is out of range. -/
  | wrongValue (found : Found) (expected : String)
  /-- A list with too few or too many items. -/
  | wrongLength (length : Nat) (expected : String)
  | unknownVariant (name : String) (known : List String)
  | missingMember (name : String)
  | repeatedMember (name : String)
deriving DecidableEq, Repr

inductive Category where
  /-- The text is not JSON. -/
  | malformed
  /-- The text is JSON, but not of the wanted shape. -/
  | mismatch
  /-- The text ends too early. -/
  | cutShort
deriving DecidableEq, Repr

namespace Cause

def category : Cause → Category
  | .endInValue | .endInText | .endInList | .endInObject => .cutShort
  | .wrongType .. | .wrongValue .. | .wrongLength .. | .unknownVariant .. | .missingMember _
  | .repeatedMember _ => .mismatch
  | _ => .malformed

def ticked (s : String) : String := "`" ++ s ++ "`"

def oneOf : List String → String
  | [] => "there are no variants"
  | [a] => "expected " ++ ticked a
  | [a, b] => "expected " ++ ticked a ++ " or " ++ ticked b
  | names => "expected one of " ++ String.intercalate ", " (names.map ticked)

def describe : Cause → String
  | .endInValue => "EOF while parsing a value"
  | .endInText => "EOF while parsing a string"
  | .endInList => "EOF while parsing a list"
  | .endInObject => "EOF while parsing an object"
  | .expectedValue => "expected value"
  | .expectedIdentifier => "expected ident"
  | .expectedColon => "expected `:`"
  | .expectedListComma => "expected `,` or `]`"
  | .expectedObjectComma => "expected `,` or `\x7d`"
  | .trailingComma => "trailing comma"
  | .trailingCharacters => "trailing characters"
  | .keyNotText => "key must be a string"
  | .badEscape => "invalid escape"
  | .badNumber => "invalid number"
  | .numberTooLarge => "number out of range"
  | .badCharacter => "invalid unicode code point"
  | .controlCharacter => "control character (\\u0000-\\u001F) found while parsing a string"
  | .loneSurrogate => "lone leading surrogate in hex escape"
  | .endOfHexEscape => "unexpected end of hex escape"
  | .tooDeep => "recursion limit exceeded"
  | .wrongType found expected => "invalid type: " ++ found.describe ++ ", expected " ++ expected
  | .wrongValue found expected => "invalid value: " ++ found.describe ++ ", expected " ++ expected
  | .wrongLength length expected => "invalid length " ++ decimal length ++ ", expected " ++ expected
  | .unknownVariant name known => "unknown variant " ++ ticked name ++ ", " ++ oneOf known
  | .missingMember name => "missing field " ++ ticked name
  | .repeatedMember name => "duplicate field " ++ ticked name

end Cause

inductive Step where
  | member (name : String)
  | item (index : Nat)
  | unknown
deriving DecidableEq, Repr

def pathText : List Step → String
  | [] => ""
  | .item i :: rest => "[" ++ decimal i ++ "]" ++ tailText rest
  | .member name :: rest => name ++ tailText rest
  | .unknown :: rest => "?" ++ tailText rest
where
  /-- The text of the steps after the first. -/
  tailText : List Step → String
    | [] => ""
    | .item i :: rest => "[" ++ decimal i ++ "]" ++ tailText rest
    | .member name :: rest => "." ++ name ++ tailText rest
    | .unknown :: rest => ".?" ++ tailText rest

structure Fault where
  cause : Cause
  /-- How many bytes were not yet read; `none` for a value taken from memory. -/
  remaining : Option Nat := none
  /-- The part of the value that was being read. -/
  path : List Step := []
deriving DecidableEq, Repr

namespace Fault

/-- A fault met after everything before `rest` was read. -/
def before (cause : Cause) (rest : Bytes) : Fault := { cause, remaining := some rest.length }

def upon (cause : Cause) (rest : Bytes) : Fault := { cause, remaining := some (rest.length - 1) }

def inside (step : Step) (fault : Fault) : Fault := { fault with path := step :: fault.path }

def advance (place : Nat × Nat) (b : UInt8) : Nat × Nat :=
  if b == 10 then (place.1 + 1, 0) else (place.1, place.2 + 1)

def lineAndColumn (bytes : Bytes) : Nat × Nat := bytes.foldl advance (1, 0)

def position (text : Bytes) (fault : Fault) : Option (Nat × Nat) :=
  fault.remaining.map fun remaining => lineAndColumn (text.take (text.length - remaining))

def describe (text : Bytes) (fault : Fault) : String :=
  match fault.position text with
  | some (line, column) =>
    fault.cause.describe ++ " at line " ++ decimal line ++ " column " ++ decimal column
  | none => fault.cause.describe

def describeWithPath (text : Bytes) (fault : Fault) : String :=
  if fault.path.all (· == .unknown) then fault.describe text
  else pathText fault.path ++ ": " ++ fault.describe text

end Fault

end WalletBridge.Json
