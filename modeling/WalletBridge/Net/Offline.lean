import WalletBridge.Net.Listen
import WalletBridge.Text.Utf8

/-!
# A machine without a network

On a machine whose interfaces are all down, names in the form of addresses can be looked up, and
the name of the machine itself. A short address may be written with fewer than four numbers, the
last one filling the bytes that are left, and each number in base ten, eight or sixteen.
-/

namespace WalletBridge.Net

open Text

/-! ## Names in the form of addresses -/

def digitsIn? (base : Nat) (cs : List Char) : Option Nat :=
  cs.foldlM (fun n c => ((hexDigit? c).filter (· < base)).map (n * base + ·)) 0

/-- A number that begins with a digit: with `0x` in front it is in base sixteen, with another zero
in base eight. -/
def looseNumber? : List Char → Option Nat
  | [] => none
  | '0' :: x :: cs =>
    if x == 'x' || x == 'X' then if cs.isEmpty then none else digitsIn? 16 cs
    else digitsIn? 8 (x :: cs)
  | cs => digitsIn? 10 cs

def looseAddress? (cs : List Char) : Option Ip := do
  let numbers ← (cs.splitOn '.').mapM looseNumber?
  let front := numbers.dropLast
  let last ← numbers.getLast?
  let room := Nat.pow 256 (4 - front.length)
  if 3 < front.length || front.any (255 < ·) || room ≤ last then none
  else
    let n := front.foldl (fun n b => n * 256 + b) 0 * room + last
    return .v4 (n / 0x1000000) (n / 0x10000 % 256) (n / 0x100 % 256) (n % 256)

def isLinkLocal (groups : List Nat) : Bool := groups.headD 0 / 64 == 0xFE80 / 64

def isMulticast (groups : List Nat) : Bool := 0xFF00 ≤ groups.headD 0

/-- The only interface, by which the machine speaks to itself. -/
def ownInterface : Nat := 1

def interface? (groups : List Nat) (name : List Char) : Option Nat :=
  let onLink := isLinkLocal groups || isMulticast groups && [1, 2].contains (groups.headD 0 % 16)
  if onLink && name == ['l', 'o'] then some ownInterface else scope? name

/-- Whether a name can be asked for: its parts have one to 63 bytes, and it has at most 253. -/
def isDomainName (name : String) : Bool :=
  let parts := name.splitOn "."
  let parts := if parts.getLast? == some "" then parts.dropLast else parts
  !parts.isEmpty && (utf8 name).length ≤ 253
    && parts.all fun part => !part.isEmpty && (utf8 part).length ≤ 63

def lookUpFailed (why : String) : Os.Error :=
  .reason ("failed to lookup address information: " ++ why)

def lookUpAlone (name : String) : Except Os.Error Ip :=
  let cs := name.toList
  match looseAddress? cs, longAddress? (cs.takeWhile (· != '%')) with
  | some ip, _ => .ok ip
  | none, some _ =>
    match scopedAddress? interface? cs with
    | some ip => .ok ip
    | none => .error (lookUpFailed "Name or service not known")
  | none, none =>
    if cs.map Char.toLower == "localhost".toList then .ok (.v4 127 0 0 1)
    else if name == "*" || !isDomainName name then
      .error (lookUpFailed "Name or service not known")
    else .error (lookUpFailed "Temporary failure in name resolution")

/-! ## Listening -/

/-- Why nothing can listen at an address. No short address is known to be another machine's, so
each may be taken; of the long ones only that which stands for all of them belongs to the
machine. An address of a single link needs an interface. -/
def refusalAlone (ip : Ip) : Option Os.Error :=
  match ip.shortest with
  | .v4 .. => none
  | .v6 groups scope =>
    if groups.all (· == 0) then none
    else if isMulticast groups then some .invalidArgument
    else if isLinkLocal groups && scope == 0 then some .invalidArgument
    else if isLinkLocal groups && scope != ownInterface then some .noDevice
    else some .addressNotAvailable

def Network.offline : Network where
  lookUp := lookUpAlone
  refusal := refusalAlone

end WalletBridge.Net
