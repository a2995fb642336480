import WalletBridge.Text.Utf8

/-!
# Headers

A list of names and values; a name is compared without regard to case, and may occur more than
once. What counts is the first value.
-/

namespace WalletBridge.Http

open Text

abbrev Headers := List (String × Bytes)

/-- The lower-case form of a name or host; only the letters A to Z change. -/
def lower (s : String) : String := String.ofList (s.toList.map Char.toLower)

namespace Headers

def first? (headers : Headers) (name : String) : Option Bytes :=
  (headers.find? fun h => lower h.1 == name).map (·.2)

/-- Whether a byte may be read as text: a visible character, a blank or a tab. -/
def isVisible (b : UInt8) : Bool := (0x20 ≤ b && b < 0x7F) || b == 0x09

def visible? (value : Bytes) : Option String :=
  if value.all isVisible then some (String.ofList (value.map fun b => Char.ofNat b.toNat)) else none

def text? (headers : Headers) (name : String) : Option String :=
  (headers.first? name).bind visible?

end Headers

end WalletBridge.Http
