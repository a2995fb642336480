import WalletBridge.Net.Address

/-!
# Targets and addresses of requests

The parts of an address as far as the bridge looks at them: scheme, authority and path. An address
is a path, or an authority alone, or scheme, authority and path.
-/

namespace WalletBridge.Http

open Net

/-- The parts of an address; an empty authority is none. -/
structure Uri where
  scheme : Option String := none
  authority : List Char := []
  path : List Char := []
deriving DecidableEq, Repr

namespace Uri

def longest : Nat := 65534

def longestScheme : Nat := 64

def isLetter (c : Char) : Bool := ('a' ≤ c && c ≤ 'z') || ('A' ≤ c && c ≤ 'Z')

/-- The characters of a scheme, without the colon after it. -/
def isSchemeChar (c : Char) : Bool :=
  isLetter c || Text.isDigit c || c == '+' || c == '-' || c == '.' || c == '~'

def isAuthorityChar (c : Char) : Bool :=
  isLetter c || Text.isDigit c || "!$&\x27()*+,-.:;=@[]_~".toList.contains c

def endsAuthority (c : Char) : Bool := c == '/' || c == '?' || c == '#'

inductive SchemeResult where
  | none
  | found (scheme : String) (rest : List Char)
  | tooLong

def splitScheme (cs : List Char) : SchemeResult :=
  let lowered := cs.map Char.toLower
  if lowered.take 7 == "http://".toList then .found "http" (cs.drop 7)
  else if lowered.take 8 == "https://".toList then .found "https" (cs.drop 8)
  else
    let scheme := cs.takeWhile isSchemeChar
    let rest := cs.drop scheme.length
    if 3 < cs.length && rest.take 3 == [':', '/', '/'] then
      if longestScheme < scheme.length then .tooLong
      else .found (String.ofList scheme) (rest.drop 3)
    else .none

/-- What a scan of an authority has seen so far. A colon or percent sign before an `@` or inside
brackets does not count. -/
structure AuthorityScan where
  colons : Nat := 0
  opened : Bool := false
  closed : Bool := false
  percent : Bool := false
  /-- Whether the last character was an `@`. -/
  atSign : Bool := false

def AuthorityScan.push (s : AuthorityScan) (c : Char) : Option AuthorityScan :=
  let s' := { s with atSign := false }
  if c == ':' then if 8 ≤ s.colons then none else some { s' with colons := s.colons + 1 }
  else if c == '[' then if s.percent || s.opened then none else some { s' with opened := true }
  else if c == ']' then
    if !s.opened || s.closed then none
    else some { s' with closed := true, colons := 0, percent := false }
  else if c == '@' then some { s' with atSign := true, colons := 0, percent := false }
  else if c == '%' then some { s' with percent := true }
  else if isAuthorityChar c then some s'
  else none

def isAuthority (cs : List Char) : Bool :=
  match cs.foldlM AuthorityScan.push {} with
  | none => false
  | some s => s.opened == s.closed && s.colons ≤ 1 && !s.atSign && !s.percent

def isPathChar (c : Char) : Bool :=
  let n := c.toNat
  n == 0x21 || n == 0x22 || (0x24 ≤ n && n ≤ 0x3B) || n == 0x3D || (0x40 ≤ n && n ≤ 0x5F)
    || (0x61 ≤ n && n ≤ 0x7E) || 0x7F ≤ n

def isQueryChar (c : Char) : Bool :=
  let n := c.toNat
  n == 0x21 || (0x24 ≤ n && n ≤ 0x3B) || n == 0x3D || 0x3F ≤ n

/-- The path of a path with a query; `none` when it has a character that may not stand in it. -/
def pathOf (cs : List Char) : Option (List Char) :=
  let path := cs.takeWhile fun c => c != '?' && c != '#'
  if !path.all isPathChar then none
  else match cs.drop path.length with
    | '?' :: rest => if (rest.takeWhile (· != '#')).all isQueryChar then some path else none
    | _ => some path

def parse? (cs : List Char) : Option Uri :=
  if longest < (String.ofList cs).utf8ByteSize then none
  else match cs with
    | [] => none
    | ['*'] => some { path := ['*'] }
    | '/' :: _ => (pathOf cs).map fun path => { path }
    | [_] => if isAuthority cs then some { authority := cs } else none
    | _ =>
      match splitScheme cs with
      | .tooLong => none
      | .none =>
        if cs.any endsAuthority || !isAuthority cs then none else some { authority := cs }
      | .found scheme rest =>
        let authority := rest.takeWhile fun c => !endsAuthority c
        if authority.isEmpty || !isAuthority authority then none
        else (pathOf (rest.drop authority.length)).map fun path =>
          { scheme := some scheme, authority, path := if path.isEmpty then ['/'] else path }

/-- The authority without the part before its last `@`. -/
def afterAt (cs : List Char) : List Char := (cs.reverse.takeWhile (· != '@')).reverse

def host (uri : Uri) : List Char :=
  let cs := afterAt uri.authority
  match cs with
  | '[' :: _ => cs.takeWhile (· != ']') ++ [']']
  | _ => cs.takeWhile (· != ':')

def port? (uri : Uri) : Option Nat := do
  let (_, digits) ← splitLastColon uri.authority
  Text.naturalUpTo? 65535 (String.ofList digits)

def schemePort? (uri : Uri) : Option Nat :=
  match uri.scheme with
  | some "https" => some 443
  | some "http" => some 80
  | _ => none

def hostAndPort? (uri : Uri) : Option String :=
  if uri.authority.isEmpty then none
  else match uri.port? with
    | some p => some (String.ofList uri.host ++ ":" ++ Text.decimal p)
    | none => uri.schemePort?.map fun p => String.ofList uri.host ++ ":" ++ Text.decimal p

end Uri

end WalletBridge.Http
