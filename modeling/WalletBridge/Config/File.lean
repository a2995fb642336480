import WalletBridge.Config.Check
import WalletBridge.Text.Utf8
import WalletBridge.Toml.Document

/-!
# Settings from a file

A file has the tables `app` and `build`. What it does not name keeps its default value; names that
are not settings are passed over. A table may also be given as a list of values in the order of
the settings.
-/

namespace WalletBridge.Config

open Json Text

def wrongType (v : Toml.Value) (expected : String) : String :=
  "invalid type: " ++ v.describe ++ ", expected " ++ expected

/-- Puts a value from a file into a setting. -/
def Slot.fromFile (slot : Slot ρ) (v : Toml.Value) (r : ρ) : Except String ρ :=
  match slot, v with
  | .text _ set, .text s => .ok (set r s)
  | .text _ _, v => .error (wrongType v "a string")
  | .truth _ set, .truth b => .ok (set r b)
  | .truth _ _, v => .error (wrongType v "a boolean")
  | .number range _ set, .whole n =>
    if range.least ≤ n && n ≤ range.greatest then .ok (set r n.toNat)
    else .error ("invalid value: integer `" ++ signedDecimal n ++ "`, expected " ++ range.name)
  | .number range _ _, v => .error (wrongType v range.name)

def fromMembers (fields : List (Field ρ)) : List (String × Toml.Value) → ρ → Except String ρ
  | [], r => .ok r
  | (name, v) :: rest, r =>
    match fields.find? (·.name == name) with
    | none => fromMembers fields rest r
    | some f => do
      let r ← f.slot.fromFile v r
      fromMembers fields rest r

def fromItems : List (Field ρ) → List Toml.Value → ρ → Except String ρ
  | f :: fields, v :: items, r => do
    let r ← f.slot.fromFile v r
    fromItems fields items r
  | _, _, r => .ok r

def fromValue (title : String) (fields : List (Field ρ)) (v : Toml.Value) (r : ρ) :
    Except String ρ :=
  match v with
  | .table members => fromMembers fields members r
  | .list items => fromItems fields items r
  | .moment => .ok r
  | v => .error (wrongType v title)

def fromTables : List (String × Toml.Value) → Settings → Except String Settings
  | [], s => .ok s
  | (name, v) :: rest, s => do
    if name == "app" then
      let app ← fromValue "struct AppConfig" App.fields v s.app
      fromTables rest { s with app }
    else if name == "build" then
      let build ← fromValue "struct BuildInfo" Build.fields v s.build
      fromTables rest { s with build }
    else fromTables rest s

def readSettings (content : String) : Except Failure Settings :=
  match Toml.parse? content with
  | none => .error (.malformed none)
  | some tables =>
    match fromTables tables {} with
    | .ok s => .ok s
    | .error message => .error (.malformed (some message))

def parse (home : Option String) (content : String) : Except Failure Settings := do
  let s ← readSettings content
  finish home s

def notText : Os.Error := .reason "stream did not contain valid UTF-8"

def load (home : Option String) (file : Except Os.Error Bytes) : Except Failure Settings :=
  match file with
  | .error e => .error (.unreadable e)
  | .ok bytes =>
    match ofUtf8? bytes with
    | none => .error (.unreadable notText)
    | some content => parse home content

end WalletBridge.Config
