import WalletBridge.Json.Fault

/-!
# The smallest parts of a JSON text

Blanks, fixed words, texts and numbers. A `Reader` takes the bytes that are left and gives back
what it read together with the bytes after it.
-/

namespace WalletBridge.Json

open Text

abbrev Reader (α : Type) := Bytes → Except Fault (α × Bytes)

@[match_pattern] def quote : UInt8 := 0x22

@[match_pattern] def backslash : UInt8 := 0x5C

@[match_pattern] def comma : UInt8 := 0x2C

@[match_pattern] def colon : UInt8 := 0x3A

@[match_pattern] def minus : UInt8 := 0x2D

@[match_pattern] def plus : UInt8 := 0x2B

@[match_pattern] def point : UInt8 := 0x2E

@[match_pattern] def openList : UInt8 := 0x5B

@[match_pattern] def closeList : UInt8 := 0x5D

@[match_pattern] def openObject : UInt8 := 0x7B

@[match_pattern] def closeObject : UInt8 := 0x7D

@[match_pattern] def beginsNull : UInt8 := 0x6E

@[match_pattern] def beginsTrue : UInt8 := 0x74

@[match_pattern] def beginsFalse : UInt8 := 0x66

def isSpace (b : UInt8) : Bool := b == 0x20 || b == 0x0A || b == 0x09 || b == 0x0D

def skipSpaces (bytes : Bytes) : Bytes := bytes.dropWhile isSpace

def readWord : Bytes → Reader Unit
  | [], bytes => .ok ((), bytes)
  | _ :: _, [] => .error (.before .endInValue [])
  | w :: word, b :: rest =>
    if b == w then readWord word rest else .error (.before .expectedIdentifier rest)

def readNull : Reader Unit := readWord [0x75, 0x6C, 0x6C]

def readTrue : Reader Unit := readWord [0x72, 0x75, 0x65]

def readFalse : Reader Unit := readWord [0x61, 0x6C, 0x73, 0x65]

/-! ## Texts -/

def hexValue? (b : UInt8) : Option Nat :=
  if 0x30 ≤ b && b ≤ 0x39 then some (b.toNat - 0x30)
  else if 0x61 ≤ b && b ≤ 0x66 then some (b.toNat - 0x57)
  else if 0x41 ≤ b && b ≤ 0x46 then some (b.toNat - 0x37)
  else none

def escaped? (b : UInt8) : Option UInt8 :=
  match b with
  | 0x22 => some 0x22
  | 0x5C => some 0x5C
  | 0x2F => some 0x2F
  | 0x62 => some 0x08
  | 0x66 => some 0x0C
  | 0x6E => some 0x0A
  | 0x72 => some 0x0D
  | 0x74 => some 0x09
  | _ => none

inductive TextState where
  | plain
  /-- After a backslash. -/
  | escape
  /-- Inside the four digits of an escape: how many are missing, the value so far (`none` after a
  byte that is no digit), and the first half of a pair when the escape is its second half. -/
  | hex (missing : Nat) (value : Option Nat) (high : Option Nat)
  /-- After the first half of a pair. -/
  | pairBackslash (high : Nat)
  /-- After the first half of a pair and a backslash. -/
  | pairLetter (high : Nat)
deriving DecidableEq, Repr

/-- The UTF-8 form of a character number below `0x110000`. -/
def characterBytes (n : Nat) : Bytes := utf8 (String.singleton (Char.ofNat n))

/-- What follows the four digits of an escape: the next state and the bytes it adds. -/
def afterHex (value : Nat) (high : Option Nat) : Except Cause (TextState × Bytes) :=
  match high with
  | none =>
    if 0xDC00 ≤ value && value ≤ 0xDFFF then .error .loneSurrogate
    else if 0xD800 ≤ value && value ≤ 0xDBFF then .ok (.pairBackslash value, [])
    else .ok (.plain, characterBytes value)
  | some high =>
    if 0xDC00 ≤ value && value ≤ 0xDFFF then
      .ok (.plain, characterBytes (0x10000 + (high - 0xD800) * 0x400 + (value - 0xDC00)))
    else .error .loneSurrogate

def afterBadByte : Nat → Bytes → Bytes
  | 0, bytes => bytes
  | _, [] => []
  | fuel + 1, b :: rest =>
    let step := lossyStep b rest
    if step.1 == '\uFFFD' && !(b == 0xEF && rest.take 2 == [0xBF, 0xBD]) then rest
    else afterBadByte fuel step.2

/-- Reads a text after its opening mark; `read` holds the bytes of the text so far, last first. A
text that is not UTF-8 is refused at its end; the fault lies as far before its closing mark as the
first wrong byte lies before the end of the text that was read. -/
def scanText : TextState → Bytes → Bytes → Except Fault (String × Bytes)
  | _, _, [] => .error (.before .endInText [])
  | .plain, read, b :: rest =>
    if b == quote then
      match ofUtf8? read.reverse with
      | some s => .ok (s, rest)
      | none => .error (.before .badCharacter (afterBadByte read.length read.reverse ++ b :: rest))
    else if b == backslash then scanText .escape read rest
    else if b < 0x20 then .error (.before .controlCharacter rest)
    else scanText .plain (b :: read) rest
  | .escape, read, b :: rest =>
    if b == 0x75 then scanText (.hex 4 (some 0) none) read rest
    else match escaped? b with
      | some c => scanText .plain (c :: read) rest
      | none => .error (.before .badEscape rest)
  | .hex missing value high, read, b :: rest =>
    let value := value.bind fun v => (hexValue? b).map fun d => v * 16 + d
    if 1 < missing then scanText (.hex (missing - 1) value high) read rest
    else match value with
      | none => .error (.before .badEscape rest)
      | some value =>
        match afterHex value high with
        | .error cause => .error (.before cause rest)
        | .ok (state, added) => scanText state (added.reverse ++ read) rest
  | .pairBackslash high, read, b :: rest =>
    if b == backslash then scanText (.pairLetter high) read rest
    else .error (.before .endOfHexEscape rest)
  | .pairLetter high, read, b :: rest =>
    if b == 0x75 then scanText (.hex 4 (some 0) (some high)) read rest
    else .error (.before .endOfHexEscape rest)

def readText : Reader String := scanText .plain []

/-- Passes over a text after its opening mark. Only its escapes are looked at. -/
def skipTextFrom : TextState → Bytes → Except Fault Bytes
  | _, [] => .error (.before .endInText [])
  | .escape, b :: rest =>
    if b == 0x75 then skipTextFrom (.hex 4 (some 0) none) rest
    else match escaped? b with
      | some _ => skipTextFrom .plain rest
      | none => .error (.before .badEscape rest)
  | .hex missing value high, b :: rest =>
    let value := value.bind fun v => (hexValue? b).map fun d => v * 16 + d
    if 1 < missing then skipTextFrom (.hex (missing - 1) value high) rest
    else match value with
      | none => .error (.before .badEscape rest)
      | some _ => skipTextFrom .plain rest
  | _, b :: rest =>
    if b == quote then .ok rest
    else if b == backslash then skipTextFrom .escape rest
    else if b < 0x20 then .error (.before .controlCharacter (b :: rest))
    else skipTextFrom .plain rest

def skipText : Bytes → Except Fault Bytes := skipTextFrom .plain

/-! ## Numbers -/

def isDigitByte (b : UInt8) : Bool := 0x30 ≤ b && b ≤ 0x39

def isExponentByte (b : UInt8) : Bool := b == 0x65 || b == 0x45

def digitOf (b : UInt8) : Nat := b.toNat - 0x30

def greatest64 : Nat := 0xFFFFFFFFFFFFFFFF

/-- The greatest exponent that is read digit by digit. -/
def greatestRead : Nat := 0x7FFFFFFF

/-- Appends digits to a number while it stays within 64 bits: the number, and how many digits were
appended. -/
def absorb : Nat → Bytes → Nat × Nat
  | n, [] => (n, 0)
  | n, b :: digits =>
    let next := n * 10 + digitOf b
    if next ≤ greatest64 then
      let (result, count) := absorb next digits
      (result, count + 1)
    else (n, 0)

def ofNatural (n : Nat) : Magnitude := (Magnitude.nearest n 1).getD .zero

def powerOfTen (k : Nat) : Magnitude := ofNatural (Nat.pow 10 k)

/-- Multiplies by a power of ten, in steps of at most 308 towards zero, rounding after each one. -/
def scaleByTen : Nat → Magnitude → Int → Option Magnitude
  | 0, _, _ => some .zero
  | fuel + 1, f, exponent =>
    if exponent.natAbs ≤ 308 then
      if 0 ≤ exponent then f.multiply (powerOfTen exponent.natAbs)
      else f.divide (powerOfTen exponent.natAbs)
    else if f.significand == 0 then some f
    else if 0 ≤ exponent then none
    else (f.divide (powerOfTen 308)).bind fun f => scaleByTen fuel f (exponent + 308)

def realNumber (negative : Bool) (significand : Nat) (exponent : Int) : Reader Num := fun rest =>
  match scaleByTen 8 (ofNatural significand) exponent with
  | some size => .ok (.real ⟨negative, size⟩, rest)
  | none => .error (.before .numberTooLarge rest)

/-- Reads the further digits of an exponent; `none` once it is too great, with what follows the
digit that made it so. -/
def readExponentDigits : Nat → Bytes → Option Nat × Bytes
  | e, [] => (some e, [])
  | e, b :: rest =>
    if isDigitByte b then
      let next := e * 10 + digitOf b
      if next ≤ greatestRead then readExponentDigits next rest else (none, rest)
    else (some e, b :: rest)

def readExponentValue (negative : Bool) (significand : Nat) (exponent : Int) (raises : Bool) :
    Reader Num
  | [] => .error (.before .endInValue [])
  | b :: rest =>
    if !isDigitByte b then .error (.before .badNumber rest)
    else match readExponentDigits (digitOf b) rest with
      | (some e, rest) =>
        realNumber negative significand (if raises then exponent + e else exponent - e) rest
      | (none, rest) =>
        if significand != 0 && raises then .error (.before .numberTooLarge rest)
        else .ok (.real ⟨negative, .zero⟩, rest.dropWhile isDigitByte)

def readExponent (negative : Bool) (significand : Nat) (exponent : Int) : Reader Num
  | plus :: rest => readExponentValue negative significand exponent true rest
  | minus :: rest => readExponentValue negative significand exponent false rest
  | rest => readExponentValue negative significand exponent true rest

def readFraction (negative : Bool) (significand : Nat) (exponent : Int) : Reader Num := fun bytes =>
  let digits := bytes.takeWhile isDigitByte
  let rest := bytes.dropWhile isDigitByte
  if digits.isEmpty then
    .error (.upon (if rest.isEmpty then .endInValue else .badNumber) rest)
  else
    let (significand, count) := absorb significand digits
    let exponent := exponent - count
    match rest with
    | b :: more =>
      if isExponentByte b then readExponent negative significand exponent more
      else realNumber negative significand exponent rest
    | [] => realNumber negative significand exponent rest

/-- A whole number, unless it leaves its range or is zero with a sign. -/
def wholeNumber (negative : Bool) (significand : Nat) : Num :=
  if !negative then .whole significand
  else if significand == 0 || 0x8000000000000000 < significand then
    .real ⟨true, ofNatural significand⟩
  else .whole (-significand)

def readNumber (negative : Bool) : Reader Num
  | [] => .error (.before .endInValue [])
  | b :: rest =>
    if !isDigitByte b then .error (.before .badNumber rest)
    else
      let digits := if b == 0x30 then [] else rest.takeWhile isDigitByte
      let after := if b == 0x30 then rest else rest.dropWhile isDigitByte
      let (significand, count) := absorb (digitOf b) digits
      let dropped := digits.length - count
      match after with
      | c :: more =>
        if b == 0x30 && isDigitByte c then .error (.upon .badNumber after)
        else if c == point then readFraction negative significand dropped more
        else if isExponentByte c then readExponent negative significand dropped more
        else if dropped == 0 then .ok (wholeNumber negative significand, after)
        else realNumber negative significand dropped after
      | [] =>
        if dropped == 0 then .ok (wholeNumber negative significand, after)
        else realNumber negative significand dropped after

def skipExponent (bytes : Bytes) : Except Fault Bytes :=
  let digits := match bytes with
    | plus :: rest => rest
    | minus :: rest => rest
    | rest => rest
  match digits with
  | [] => .error (.before .badNumber [])
  | b :: rest =>
    if isDigitByte b then .ok (rest.dropWhile isDigitByte) else .error (.before .badNumber rest)

def skipOptionalExponent : Bytes → Except Fault Bytes
  | [] => .ok []
  | b :: rest => if isExponentByte b then skipExponent rest else .ok (b :: rest)

def skipNumber : Bytes → Except Fault Bytes
  | [] => .error (.before .badNumber [])
  | b :: rest =>
    if !isDigitByte b then .error (.before .badNumber rest)
    else
      let after := if b == 0x30 then rest else rest.dropWhile isDigitByte
      match after with
      | [] => .ok []
      | c :: more =>
        if b == 0x30 && isDigitByte c then .error (.upon .badNumber after)
        else if c == point then
          let tail := more.dropWhile isDigitByte
          if tail.length == more.length then .error (.upon .badNumber tail)
          else skipOptionalExponent tail
        else skipOptionalExponent after

end WalletBridge.Json
