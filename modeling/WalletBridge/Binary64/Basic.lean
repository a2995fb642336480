/-!
# Finite binary floating-point numbers

A number that is not whole is kept as the nearest value with 53 significant bits. The rounding is
exact: `nearest` takes a quotient of natural numbers and finds the closest representable value,
the even one of two equally close ones.
-/

namespace WalletBridge

/-- The size of a finite 64-bit binary number: `significand * 2 ^ exponent`. -/
structure Magnitude where
  significand : Nat
  exponent : Int
deriving DecidableEq, Repr

/-- A finite 64-bit binary number; zero carries a sign as well. -/
structure Binary64 where
  negative : Bool
  size : Magnitude
deriving DecidableEq, Repr

namespace Magnitude

def zero : Magnitude := ⟨0, 0⟩

/-- The smallest exponent; values below `2 ^ 52` at it have fewer significant bits. -/
def leastExponent : Int := -1074

def greatestExponent : Int := 971

/-- `n * 2 ^ e` for a non-negative `e`, and `n` otherwise. -/
def shifted (n : Nat) (e : Int) : Nat := n * Nat.pow 2 e.toNat

def numerator (m : Magnitude) : Nat := shifted m.significand m.exponent

def denominator (m : Magnitude) : Nat := shifted 1 (-m.exponent)

/-- The whole number nearest to `num / den`, the even one of two equally near ones. -/
def roundHalfEven (num den : Nat) : Nat :=
  let whole := num / den
  let twice := 2 * (num % den)
  if twice < den then whole
  else if den < twice then whole + 1
  else whole + whole % 2

def leadingExponent (num den : Nat) : Int :=
  let e : Int := (Nat.log2 num : Int) - (Nat.log2 den : Int)
  if shifted den e ≤ shifted num (-e) then e else e - 1

/-- The representable value nearest to `num / den`; `none` when it would be infinite. -/
def nearest (num den : Nat) : Option Magnitude :=
  if num == 0 then some zero
  else
    let e := max (leadingExponent num den - 52) leastExponent
    let n := roundHalfEven (shifted num (-e)) (shifted den e)
    let result : Magnitude := if n == 0x20000000000000 then ⟨0x10000000000000, e + 1⟩ else ⟨n, e⟩
    if result.exponent ≤ greatestExponent then some result else none

def multiply (a b : Magnitude) : Option Magnitude :=
  nearest (a.numerator * b.numerator) (a.denominator * b.denominator)

def divide (a b : Magnitude) : Option Magnitude :=
  nearest (a.numerator * b.denominator) (a.denominator * b.numerator)

end Magnitude

end WalletBridge
