import WalletBridge.Text.Decimal
import WalletBridge.Text.Quoted

/-!
# Random identifiers

Identifiers of 128 bits in five groups of hexadecimal digits. All but six bits are random: four
tell that it is a random one and two the layout.
-/

namespace WalletBridge.Text

/-- The hexadecimal digits of a number, filled up with zeros on the left to `width`. -/
def hexPadded (width n : Nat) : List Char :=
  (List.range width).map fun i => hexDigit (n / Nat.pow 16 (width - 1 - i) % 16)

def uuid (random : Nat) : String :=
  let digits := hexPadded 32 random
  let layout := hexDigit (8 + random / Nat.pow 16 15 % 4)
  String.ofList (digits.take 8 ++ ['-'] ++ (digits.drop 8).take 4 ++ ['-', '4']
    ++ (digits.drop 13).take 3 ++ ['-', layout] ++ (digits.drop 17).take 3 ++ ['-']
    ++ digits.drop 20)

def fitsUuid (position : Nat) (c : Char) : Bool :=
  if position == 8 || position == 13 || position == 18 || position == 23 then c == '-'
  else if position == 14 then c == '4'
  else if position == 19 then c == '8' || c == '9' || c == 'a' || c == 'b'
  else isDigit c || ('a' ≤ c && c ≤ 'f')

def isUuid (s : String) : Bool :=
  s.length == 36 && (s.toList.zip (List.range 36)).all fun (c, i) => fitsUuid i c

end WalletBridge.Text
