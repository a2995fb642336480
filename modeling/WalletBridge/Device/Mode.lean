import WalletBridge.Json.Codec
import WalletBridge.Text.Blank

/-!
# Which device is driven

A wallet is attached over USB, or it is the firmware emulator.
-/

namespace WalletBridge.Device

open Json Text

inductive Mode where
  | usb
  | emulator
deriving DecidableEq, Repr, Inhabited

namespace Mode

def name : Mode → String
  | .usb => "USB"
  | .emulator => "EMULATOR"

def names : List (String × Mode) := [("USB", .usb), ("EMULATOR", .emulator)]

/-- The mode that is used unless another is chosen. -/
def default : Mode := .usb

def codec : Codec Mode := choice names name

/-- The upper-case form of a name without the blanks around it. -/
def normalName (s : String) : String := String.ofList ((trimChars s.toList).map Char.toUpper)

def ofText? (s : String) : Option Mode := (names.find? (·.1 == normalName s)).map (·.2)

def unknown (s : String) : String :=
  "unknown daemon mode \"" ++ normalName s ++ "\" (expected USB or EMULATOR)"

end Mode

end WalletBridge.Device
