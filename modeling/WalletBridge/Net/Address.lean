import WalletBridge.Text.Quoted
import WalletBridge.Text.Decimal

/-!
# Socket addresses

Addresses of the Internet Protocol with a port: how they are read from text and written. A long
address is written in its shortest form, the longest row of zeros left out.
-/

namespace WalletBridge.Net

open Text

inductive Ip where
  /-- Four bytes. -/
  | v4 (a b c d : Nat)
  /-- Eight groups of 16 bits, and the number of the interface that the address belongs to; zero
  when it does not matter. -/
  | v6 (groups : List Nat) (scope : Nat)
deriving DecidableEq, Repr

structure SocketAddress where
  ip : Ip
  port : Nat
deriving DecidableEq, Repr

/-! ## Writing -/

def dotted (a b c d : Nat) : String :=
  String.intercalate "." ([a, b, c, d].map decimal)

def groupsText (groups : List Nat) : String :=
  String.intercalate ":" (groups.map fun g => String.ofList (hexChars g))

def zerosAtFront (groups : List Nat) : Nat := (groups.takeWhile (· == 0)).length

def longestZeros : Nat → List Nat → Nat × Nat
  | _, [] => (0, 0)
  | start, g :: groups =>
    let here := zerosAtFront (g :: groups)
    let later := longestZeros (start + 1) groups
    if later.2 ≤ here then (start, here) else later

def Ip.text : Ip → String
  | .v4 a b c d => dotted a b c d
  | .v6 groups _ =>
    match groups with
    | [0, 0, 0, 0, 0, 0xFFFF, h, l] => "::ffff:" ++ dotted (h / 256) (h % 256) (l / 256) (l % 256)
    | _ =>
      let (start, length) := longestZeros 0 groups
      if 1 < length then
        groupsText (groups.take start) ++ "::" ++ groupsText (groups.drop (start + length))
      else groupsText groups

def SocketAddress.text (a : SocketAddress) : String :=
  match a.ip with
  | .v4 .. => a.ip.text ++ ":" ++ decimal a.port
  | .v6 _ scope =>
    "[" ++ a.ip.text ++ (if scope == 0 then "" else "%" ++ decimal scope) ++ "]:" ++ decimal a.port

/-! ## Reading -/

/-- One byte in decimal, without a leading zero. -/
def octet? (cs : List Char) : Option Nat :=
  if 3 < cs.length || (1 < cs.length && cs.head? == some '0') then none
  else (digits? cs).filter (· ≤ 255)

def dotted? (cs : List Char) : Option (Nat × Nat × Nat × Nat) :=
  match cs.splitOn '.' with
  | [a, b, c, d] => do return (← octet? a, ← octet? b, ← octet? c, ← octet? d)
  | _ => none

def hexDigit? (c : Char) : Option Nat :=
  if '0' ≤ c && c ≤ '9' then some (c.toNat - 48)
  else if 'a' ≤ c && c ≤ 'f' then some (c.toNat - 87)
  else if 'A' ≤ c && c ≤ 'F' then some (c.toNat - 55)
  else none

/-- One group of at most four hexadecimal digits. -/
def group? (cs : List Char) : Option Nat :=
  if cs.isEmpty || 4 < cs.length then none
  else cs.foldlM (fun n c => (hexDigit? c).map (n * 16 + ·)) 0

/-- Groups with colons between them; the last two may be written as four bytes. -/
def groups? : List (List Char) → Option (List Nat)
  | [] => some []
  | [last] =>
    match group? last with
    | some g => some [g]
    | none => (dotted? last).map fun (a, b, c, d) => [a * 256 + b, c * 256 + d]
  | g :: rest => do return (← group? g) :: (← groups? rest)

def optionalGroups? (cs : List Char) : Option (List Nat) :=
  if cs.isEmpty then some [] else groups? (cs.splitOn ':')

def splitDoubleColon : List Char → Option (List Char × List Char)
  | ':' :: ':' :: rest => some ([], rest)
  | c :: rest => (splitDoubleColon rest).map fun (before, after) => (c :: before, after)
  | [] => none

/-- Eight groups; a pair of colons stands for a row of zeros. -/
def longAddress? (cs : List Char) : Option (List Nat) :=
  match splitDoubleColon cs with
  | none => (groups? (cs.splitOn ':')).filter (·.length == 8)
  | some (before, after) => do
    let front ← optionalGroups? before
    let back ← optionalGroups? after
    if before.any (· == '.') || 7 < front.length + back.length then none
    else return front ++ List.replicate (8 - front.length - back.length) 0 ++ back

def scope? (cs : List Char) : Option Nat := (digits? cs).filter (· < 0x100000000)

def scopedAddress? (scope? : List Nat → List Char → Option Nat) (cs : List Char) : Option Ip := do
  let groups ← longAddress? (cs.takeWhile (· != '%'))
  match cs.dropWhile (· != '%') with
  | [] => return .v6 groups 0
  | _ :: name => return .v6 groups (← scope? groups name)

def port? (cs : List Char) : Option Nat := (digits? cs).filter (· ≤ 65535)

def splitLastColon (cs : List Char) : Option (List Char × List Char) :=
  let tail := cs.reverse.takeWhile (· != ':')
  if tail.length == cs.length then none
  else some (cs.take (cs.length - tail.length - 1), tail.reverse)

def SocketAddress.ofText? (s : String) : Option SocketAddress := do
  let (host, port) ← splitLastColon s.toList
  let port ← port? port
  match host with
  | '[' :: inner =>
    if inner.getLast? == some ']' then
      return { ip := ← scopedAddress? (fun _ => scope?) inner.dropLast, port }
    else none
  | _ =>
    let (a, b, c, d) ← dotted? host
    return { ip := .v4 a b c d, port }

end WalletBridge.Net
