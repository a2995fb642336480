import WalletBridge.Binary64.Decimal
import WalletBridge.Text.Quoted

/-!
# JSON values

A value as a message holds it: members keep their order, and a name may occur twice. `compact`
and `indented` are the two ways a value is written.
-/

namespace WalletBridge

/-- A number: whole, or with a fraction or exponent in its text. -/
inductive Num where
  | whole (n : Int)
  | real (x : Binary64)
deriving DecidableEq, Repr

inductive Json where
  | null
  | truth (b : Bool)
  | number (n : Num)
  | text (s : String)
  | list (items : List Json)
  | object (members : List (String × Json))
deriving Repr, Inhabited

namespace Json

open Text

def natural (n : Nat) : Json := .number (.whole n)

def textChar (c : Char) : List Char :=
  if c == '"' then ['\\', '"']
  else if c == '\\' then ['\\', '\\']
  else if c == '\n' then ['\\', 'n']
  else if c == '\r' then ['\\', 'r']
  else if c == '\t' then ['\\', 't']
  else if c.toNat == 8 then ['\\', 'b']
  else if c.toNat == 12 then ['\\', 'f']
  else if c.toNat < 32 then
    ['\\', 'u', '0', '0', hexDigit (c.toNat / 16), hexDigit (c.toNat % 16)]
  else [c]

def textChars (s : String) : List Char := '"' :: (s.toList.flatMap textChar ++ ['"'])

def numberChars : Num → List Char
  | .whole n => (signedDecimal n).toList
  | .real x => x.scientificText.toList

mutual

def compactChars : Json → List Char
  | .null => ['n', 'u', 'l', 'l']
  | .truth true => ['t', 'r', 'u', 'e']
  | .truth false => ['f', 'a', 'l', 's', 'e']
  | .number n => numberChars n
  | .text s => textChars s
  | .list items => '[' :: itemChars items
  | .object members => '\x7b' :: memberChars members

def itemChars : List Json → List Char
  | [] => [']']
  | [item] => compactChars item ++ [']']
  | item :: rest => compactChars item ++ ',' :: itemChars rest

def memberChars : List (String × Json) → List Char
  | [] => ['\x7d']
  | [(name, value)] => textChars name ++ ':' :: (compactChars value ++ ['\x7d'])
  | (name, value) :: rest => textChars name ++ ':' :: (compactChars value ++ ',' :: memberChars rest)

end

def compact (v : Json) : String := String.ofList v.compactChars

def newLine (level : Nat) : List Char := '\n' :: List.replicate (2 * level) ' '

mutual

def indentedChars (level : Nat) : Json → List Char
  | .list [] => ['[', ']']
  | .list (item :: items) =>
    '[' :: newLine (level + 1) ++ indentedChars (level + 1) item ++ indentedItems (level + 1) items
      ++ newLine level ++ [']']
  | .object [] => ['\x7b', '\x7d']
  | .object ((name, value) :: members) =>
    '\x7b' :: newLine (level + 1) ++ textChars name ++ [':', ' ']
      ++ indentedChars (level + 1) value ++ indentedMembers (level + 1) members
      ++ newLine level ++ ['\x7d']
  | v => compactChars v

def indentedItems (level : Nat) : List Json → List Char
  | [] => []
  | item :: items =>
    ',' :: newLine level ++ indentedChars level item ++ indentedItems level items

def indentedMembers (level : Nat) : List (String × Json) → List Char
  | [] => []
  | (name, value) :: members =>
    ',' :: newLine level ++ textChars name ++ [':', ' '] ++ indentedChars level value
      ++ indentedMembers level members

end

def indented (v : Json) : String := String.ofList (v.indentedChars 0)

def member? (v : Json) (name : String) : Option Json :=
  match v with
  | .object members => (members.find? (·.1 == name)).map (·.2)
  | _ => none

end Json

end WalletBridge
