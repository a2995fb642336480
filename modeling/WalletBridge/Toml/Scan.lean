import WalletBridge.Toml.Value

/-!
# The smallest parts of a settings file

Blanks, comments, texts, numbers and moments. A `Scan` takes what it reads from the front of the
characters, or fails. Why it fails is not kept: a file that cannot be read is refused as a whole.
-/

namespace WalletBridge.Toml

open Text

abbrev Scan (α : Type) := List Char → Option (α × List Char)

/-! ## Blanks and comments -/

def isBlankChar (c : Char) : Bool := c == ' ' || c == '\t'

def skipBlanks (cs : List Char) : List Char := cs.dropWhile isBlankChar

def isWide (c : Char) : Bool := 0x80 ≤ c.toNat

def isCommentChar (c : Char) : Bool := c == '\t' || (0x20 ≤ c.toNat && c.toNat ≤ 0x7E) || isWide c

def newline? : List Char → Option (List Char)
  | '\n' :: rest => some rest
  | '\r' :: '\n' :: rest => some rest
  | _ => none

def skipComment : List Char → List Char
  | '#' :: rest => rest.dropWhile isCommentChar
  | cs => cs

def lineEnd? (cs : List Char) : Option (List Char) :=
  match skipComment (skipBlanks cs) with
  | [] => some []
  | rest => newline? rest

def skipLines : Nat → List Char → List Char
  | 0, cs => cs
  | fuel + 1, cs =>
    let rest := skipComment (skipBlanks cs)
    match newline? rest with
    | some rest => skipLines fuel rest
    | none => rest

/-! ## Texts -/

def hexValue? (c : Char) : Option Nat :=
  if '0' ≤ c && c ≤ '9' then some (c.toNat - 48)
  else if 'a' ≤ c && c ≤ 'f' then some (c.toNat - 87)
  else if 'A' ≤ c && c ≤ 'F' then some (c.toNat - 55)
  else none

/-- Reads the character whose number is given by so many hexadecimal digits. -/
def hexEscape? : Nat → Nat → Scan Char
  | 0, n, cs => if h : n.isValidChar then some (Char.ofNatAux n h, cs) else none
  | _ + 1, _, [] => none
  | count + 1, n, c :: rest =>
    match hexValue? c with
    | some d => hexEscape? count (n * 16 + d) rest
    | none => none

def escape? : Scan Char
  | 'b' :: rest => some ('\x08', rest)
  | 't' :: rest => some ('\t', rest)
  | 'n' :: rest => some ('\n', rest)
  | 'f' :: rest => some ('\x0c', rest)
  | 'r' :: rest => some ('\r', rest)
  | '"' :: rest => some ('"', rest)
  | '\\' :: rest => some ('\\', rest)
  | 'u' :: rest => hexEscape? 4 0 rest
  | 'U' :: rest => hexEscape? 8 0 rest
  | _ => none

def isBasicChar (c : Char) : Bool := isCommentChar c && c != '"' && c != '\\'

/-- A character that stands for itself in a text without escapes. -/
def isLiteralChar (c : Char) : Bool := isCommentChar c && c.toNat != 39

/-- Reads a text with escapes after its opening mark; `read` holds its characters so far, last
first. -/
def basicText? : Nat → List Char → Scan String
  | 0, _, _ => none
  | _ + 1, read, '"' :: rest => some (String.ofList read.reverse, rest)
  | fuel + 1, read, '\\' :: rest =>
    match escape? rest with
    | some (c, rest) => basicText? fuel (c :: read) rest
    | none => none
  | fuel + 1, read, c :: rest => if isBasicChar c then basicText? fuel (c :: read) rest else none
  | _ + 1, _, [] => none

/-- Reads a text without escapes after its opening mark. -/
def literalText? (cs : List Char) : Option (String × List Char) :=
  let body := cs.takeWhile isLiteralChar
  match cs.drop body.length with
  | c :: rest => if c.toNat == 39 then some (String.ofList body, rest) else none
  | [] => none

/-- The quotation mark of texts without escapes. -/
def literalMark : Char := Char.ofNat 39

def marksAtFront (mark : Char) (cs : List Char) : Nat := (cs.takeWhile (· == mark)).length

/-- What follows an escaped end of line: the blanks before it, and all blanks and ends of lines
after it, are not part of the text. -/
def escapedNewline? (cs : List Char) : Option (List Char) :=
  (newline? (skipBlanks cs)).map (skipAll cs.length)
where
  /-- Drops blanks and ends of lines. -/
  skipAll : Nat → List Char → List Char
    | 0, cs => cs
    | fuel + 1, cs =>
      match newline? (skipBlanks cs) with
      | some rest => skipAll fuel rest
      | none => skipBlanks cs

/-- Reads a text over several lines after its opening marks. Up to two marks in a row belong to
the text, also right before the three that close it. -/
def longText? (mark : Char) (escapes : Bool) : Nat → List Char → Scan String
  | 0, _, _ => none
  | _ + 1, _, [] => none
  | fuel + 1, read, c :: rest =>
    if c == mark then
      let marks := marksAtFront mark (c :: rest)
      if 3 ≤ marks then
        let extra := marks - 3
        if 2 < extra then none
        else
          some (String.ofList (List.replicate extra mark ++ read).reverse, (c :: rest).drop marks)
      else longText? mark escapes fuel (c :: read) rest
    else if c == '\\' && escapes then
      match escapedNewline? rest with
      | some rest => longText? mark escapes fuel read rest
      | none =>
        match escape? rest with
        | some (c, rest) => longText? mark escapes fuel (c :: read) rest
        | none => none
    else match newline? (c :: rest) with
      | some rest => longText? mark escapes fuel ('\n' :: read) rest
      | none => if isCommentChar c then longText? mark escapes fuel (c :: read) rest else none

/-- The characters after one end of line, if there is one. -/
def dropNewline (cs : List Char) : List Char := (newline? cs).getD cs

def text? (cs : List Char) : Option (String × List Char) :=
  match cs with
  | [] => none
  | c :: rest =>
    let long := marksAtFront c cs
    if c == '"' then
      if 3 ≤ long then longText? '"' true cs.length [] (dropNewline (cs.drop 3))
      else basicText? cs.length [] rest
    else if c == literalMark then
      if 3 ≤ long then longText? literalMark false cs.length [] (dropNewline (cs.drop 3))
      else literalText? rest
    else none

def shortText? (cs : List Char) : Option (String × List Char) :=
  match cs with
  | [] => none
  | c :: rest =>
    if c == '"' then basicText? cs.length [] rest
    else if c == literalMark then literalText? rest
    else none

/-! ## Numbers -/

/-- Reads digits, with single underscores between them; the result has no underscores. -/
def digitRow? (isDigit : Char → Bool) : List Char → Option (List Char × List Char)
  | c :: '_' :: d :: rest =>
    if isDigit c then
      if isDigit d then (digitRow? isDigit (d :: rest)).map fun (ds, rest) => (c :: ds, rest)
      else some ([c], '_' :: d :: rest)
    else none
  | c :: rest =>
    if isDigit c then
      match digitRow? isDigit rest with
      | some (ds, rest) => some (c :: ds, rest)
      | none => some ([c], rest)
    else none
  | [] => none

/-- Reads an optional sign; true for a minus sign. -/
def sign : List Char → Bool × List Char
  | '+' :: rest => (false, rest)
  | '-' :: rest => (true, rest)
  | cs => (false, cs)

/-- Reads the digits of a whole number in decimal, which has no leading zero. -/
def decimalRow? (cs : List Char) : Option (List Char × List Char) :=
  match cs with
  | '0' :: rest => some (['0'], rest)
  | _ => digitRow? isDigit cs

/-- A whole number of 64 bits with a sign. -/
def inRange? (n : Int) : Option Int :=
  if -0x8000000000000000 ≤ n && n < 0x8000000000000000 then some n else none

def based? (base : Nat) (cs : List Char) : Option (Int × List Char) := do
  let (ds, rest) ← digitRow? (fun c => (hexValue? c).any (· < base)) cs
  let n := ds.foldl (fun n c => n * base + (hexValue? c).getD 0) 0
  return (← inRange? n, rest)

def whole? (cs : List Char) : Option (Int × List Char) :=
  match cs with
  | '0' :: 'x' :: rest => based? 16 rest
  | '0' :: 'o' :: rest => based? 8 rest
  | '0' :: 'b' :: rest => based? 2 rest
  | _ => do
    let (negative, rest) := sign cs
    let (ds, rest) ← decimalRow? rest
    let n : Int := digitsValue ds
    return (← inRange? (if negative then -n else n), rest)

/-- The number `digits * 10 ^ exponent`, rounded. Numbers far out of range are not computed. -/
def roundDecimal (negative : Bool) (digits : List Char) (exponent : Int) : Real :=
  let n := digitsValue digits
  let order := exponent + (digits.length : Int)
  if n == 0 || order < -400 then .finite ⟨negative, .zero⟩
  else if 400 < order - (digits.takeWhile (· == '0')).length then .infinite negative
  else match Magnitude.nearest (n * Nat.pow 10 exponent.toNat) (Nat.pow 10 (-exponent).toNat) with
    | some size => .finite ⟨negative, size⟩
    | none => .infinite negative

def exponent? (cs : List Char) : Option (Int × List Char) := do
  let (negative, rest) := sign cs
  let (ds, rest) ← digitRow? isDigit rest
  let n : Int := digitsValue ds
  return (if negative then -n else n, rest)

/-- Reads an exponent if there is one; `none` if only its letter is there. -/
def optionalExponent? (cs : List Char) : Option (Option Int × List Char) :=
  match cs with
  | c :: rest =>
    if c == 'e' || c == 'E' then (exponent? rest).map fun (e, rest) => (some e, rest)
    else some (none, cs)
  | [] => some (none, [])

def notTooGreat? (x : Real) : Option Real :=
  match x with
  | .infinite false => none
  | x => some x

def fraction? (cs : List Char) : Option (Real × List Char) := do
  let (negative, rest) := sign cs
  let (ds, rest) ← decimalRow? rest
  match rest with
  | '.' :: rest =>
    let (fs, rest) ← digitRow? isDigit rest
    let (e, rest) ← optionalExponent? rest
    let x ← notTooGreat? (roundDecimal negative (ds ++ fs) (e.getD 0 - (fs.length : Int)))
    return (x, rest)
  | _ =>
    match ← optionalExponent? rest with
    | (some e, rest) => return (← notTooGreat? (roundDecimal negative ds e), rest)
    | (none, _) => none

def special? (cs : List Char) : Option (Real × List Char) :=
  match sign cs with
  | (negative, 'i' :: 'n' :: 'f' :: rest) => some (.infinite negative, rest)
  | (_, 'n' :: 'a' :: 'n' :: rest) => some (.notANumber, rest)
  | _ => none

/-! ## Moments -/

/-- Reads a number of exactly so many digits. -/
def fixedDigits? (count : Nat) (cs : List Char) : Option (Nat × List Char) :=
  let ds := cs.take count
  if ds.length == count && ds.all isDigit then some (digitsValue ds, cs.drop count) else none

/-- Reads a number of exactly so many digits between two bounds. -/
def bounded? (count least greatest : Nat) (cs : List Char) : Option (Nat × List Char) :=
  (fixedDigits? count cs).filter fun (n, _) => least ≤ n && n ≤ greatest

def char? (wanted : Char) : List Char → Option (List Char)
  | c :: rest => if c == wanted then some rest else none
  | [] => none

def daysOf (year month : Nat) : Nat :=
  if month == 2 then
    if year % 4 == 0 && (year % 100 != 0 || year % 400 == 0) then 29 else 28
  else if [4, 6, 9, 11].contains month then 30
  else 31

def date? (cs : List Char) : Option (List Char) := do
  let (year, rest) ← fixedDigits? 4 cs
  let rest ← char? '-' rest
  let (month, rest) ← bounded? 2 1 12 rest
  let rest ← char? '-' rest
  let (_, rest) ← bounded? 2 1 (daysOf year month) rest
  return rest

def time? (cs : List Char) : Option (List Char) := do
  let (_, rest) ← bounded? 2 0 23 cs
  let rest ← char? ':' rest
  let (_, rest) ← bounded? 2 0 59 rest
  let rest ← char? ':' rest
  let (_, rest) ← bounded? 2 0 60 rest
  match rest with
  | '.' :: more =>
    let after := more.dropWhile isDigit
    if after.length == more.length then none else return after
  | _ => return rest

/-- Passes over the distance of a zone, if there is one; `none` when it is malformed. -/
def zone? (cs : List Char) : Option (List Char) :=
  match cs with
  | 'Z' :: rest => some rest
  | 'z' :: rest => some rest
  | c :: rest =>
    if c == '+' || c == '-' then do
      let (_, rest) ← bounded? 2 0 23 rest
      let rest ← char? ':' rest
      let (_, rest) ← bounded? 2 0 59 rest
      return rest
    else some cs
  | [] => some []

/-- Passes over a moment: a date, a time, or both. -/
def moment? (cs : List Char) : Option (List Char) :=
  match date? cs with
  | none => time? cs
  | some rest =>
    match rest with
    | c :: more =>
      if c == 'T' || c == 't' || c == ' ' then
        match time? more with
        | some rest => zone? rest
        | none => if c == ' ' then some rest else none
      else some rest
    | [] => some []

end WalletBridge.Toml
