import WalletBridge.Binary64.Basic
import WalletBridge.Text.Decimal

/-!
# Binary numbers in decimal

`shortestDigits` finds the fewest decimal digits that round back to a value. The two layouts are
`scientificText`, which writes very large and very small values with an exponent, and
`positionalText`, which never does.
-/

namespace WalletBridge

namespace Magnitude

structure Digits where
  whole : Nat
  scale : Int
deriving DecidableEq, Repr

/-- `whole * 10 ^ scale` as a quotient of natural numbers. -/
def Digits.quotient (d : Digits) : Nat × Nat :=
  (d.whole * Nat.pow 10 d.scale.toNat, Nat.pow 10 (-d.scale).toNat)

def Digits.isFor (d : Digits) (m : Magnitude) : Bool :=
  nearest d.quotient.1 d.quotient.2 == some m

/-- The number `e` with `10 ^ e ≤ num / den < 10 ^ (e + 1)`, searched from a first guess. -/
def decimalExponent (num den : Nat) : Nat → Int → Int
  | 0, e => e
  | fuel + 1, e =>
    if num * Nat.pow 10 (-e).toNat < den * Nat.pow 10 e.toNat then
      decimalExponent num den fuel (e - 1)
    else if den * Nat.pow 10 (e + 1).toNat ≤ num * Nat.pow 10 (-(e + 1)).toNat then
      decimalExponent num den fuel (e + 1)
    else e

/-- The digits of the wanted length on either side of a value, nearest first, that round to it. -/
def digitsOfLength (m : Magnitude) (leading : Int) (length : Nat) : Option Digits :=
  let scale := leading - (length : Int) + 1
  let num := m.numerator * Nat.pow 10 (-scale).toNat
  let den := m.denominator * Nat.pow 10 scale.toNat
  let below := num / den
  let nearer := roundHalfEven num den
  let farther := if nearer == below then below + 1 else below
  if (Digits.mk nearer scale).isFor m then some ⟨nearer, scale⟩
  else if (Digits.mk farther scale).isFor m then some ⟨farther, scale⟩
  else none

def Digits.normal : Nat → Digits → Digits
  | 0, d => d
  | fuel + 1, d =>
    if d.whole != 0 && d.whole % 10 == 0 then Digits.normal fuel ⟨d.whole / 10, d.scale + 1⟩ else d

/-- The fewest digits that round to a value that is not zero. -/
def shortestDigits (m : Magnitude) : Digits :=
  let guess : Int := (((Nat.log2 m.numerator : Int) - (Nat.log2 m.denominator : Int)) * 30103) / 100000
  let leading := decimalExponent m.numerator m.denominator 8 guess
  match (List.range' 1 17).findSome? (digitsOfLength m leading) with
  | some d => d.normal 20
  | none => ⟨m.numerator, 0⟩

end Magnitude

namespace Binary64

open Magnitude Text

def pointed (digits : List Char) (decimals : Nat) : List Char :=
  let filled := List.replicate (decimals + 1 - digits.length) '0' ++ digits
  filled.take (filled.length - decimals) ++ ['.'] ++ filled.drop (filled.length - decimals)

def positionalChars (d : Digits) : List Char :=
  if 0 ≤ d.scale then decimalChars d.whole ++ List.replicate d.scale.toNat '0' ++ ['.', '0']
  else pointed (decimalChars d.whole) (-d.scale).toNat

def exponentChars (d : Digits) : List Char :=
  let digits := decimalChars d.whole
  let e := d.scale + (digits.length : Int) - 1
  let tail := digits.drop 1
  digits.take 1 ++ (if tail.isEmpty then [] else '.' :: tail)
    ++ ['e', if e < 0 then '-' else '+'] ++ decimalChars e.natAbs

def signChars (x : Binary64) : List Char := if x.negative then ['-'] else []

def positionalText (x : Binary64) : String :=
  String.ofList <| x.signChars ++
    if x.size.significand == 0 then ['0', '.', '0'] else positionalChars (shortestDigits x.size)

/-- A number in full from `0.00001` up to sixteen figures, with an exponent beyond. -/
def scientificText (x : Binary64) : String :=
  String.ofList <| x.signChars ++
    if x.size.significand == 0 then ['0', '.', '0']
    else
      let d := shortestDigits x.size
      let e := d.scale + ((decimalChars d.whole).length : Int) - 1
      if -5 ≤ e && e ≤ 15 then positionalChars d else exponentChars d

end Binary64

end WalletBridge
