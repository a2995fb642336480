import WalletBridge.Log.Level
import WalletBridge.Text.Decimal
import WalletBridge.Text.Quoted

/-!
# Lines of the log

What is logged has a level, a source, a message and named values. The time of an event stands in
front of its line and is left to the clock of the program.
-/

namespace WalletBridge.Log

open Text

structure Line where
  level : Level
  /-- The part of the program that it comes from. -/
  source : String
  message : String
  fields : List (String × String) := []
deriving DecidableEq, Repr

namespace Line

/-- A character of a message: one that a terminal would act on is written as its code. -/
def shownChar (c : Char) : List Char :=
  if c.toNat == 0x1B || c.toNat == 0x07 || c.toNat == 0x08 || c.toNat == 0x0C
      || c.toNat == 0x7F then
    ['\\', 'x', hexDigit (c.toNat / 16), hexDigit (c.toNat % 16)]
  else if 0x80 ≤ c.toNat && c.toNat ≤ 0x9F then
    ['\\', 'u', '\x7b'] ++ hexChars c.toNat ++ ['\x7d']
  else [c]

def shown (message : String) : String := String.ofList (message.toList.flatMap shownChar)

def fieldText (field : String × String) : String := " " ++ field.1 ++ "=" ++ field.2

def rest (l : Line) : String :=
  " " ++ l.source ++ ": " ++ shown l.message ++ String.join (l.fields.map fieldText)

def text (l : Line) : String := l.level.label ++ l.rest

def colouredText (l : Line) : String :=
  "\x1b[" ++ decimal l.level.colour ++ "m" ++ l.level.label ++ "\x1b[0m" ++ l.rest

end Line

def source (part : String) : String := "hardware_wallet_daemon::" ++ part

end WalletBridge.Log
