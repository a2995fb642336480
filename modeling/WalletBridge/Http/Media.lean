import WalletBridge.Http.Header

/-!
# Media types

Whether a body is declared to be JSON. The type may have parameters, which are read to the end but
do not matter.
-/

namespace WalletBridge.Http.Media

def isToken (c : Char) : Bool :=
  ('a' ≤ c && c ≤ 'z') || ('A' ≤ c && c ≤ 'Z') || ('0' ≤ c && c ≤ '9')
    || "!#$%&\x27*+-.^_`|~".toList.contains c

def isQuotedChar (c : Char) : Bool := 32 ≤ c.toNat && c.toNat ≤ 126

inductive ParameterState where
  /-- Before a name; blanks may follow. -/
  | start
  | name
  | valueStart
  | value
  /-- After an opening mark. The value has at least one character, so a mark here is part of it. -/
  | quotedStart
  | quoted
  | afterQuoted

def areParameters : ParameterState → List Char → Bool
  | .start, [] => true
  | .start, c :: rest =>
    if c == ' ' then areParameters .start rest
    else if isToken c then areParameters .name rest
    else false
  | .name, [] => false
  | .name, c :: rest =>
    if c == '=' then areParameters .valueStart rest
    else if isToken c then areParameters .name rest
    else false
  | .valueStart, [] => true
  | .valueStart, c :: rest =>
    if c == '"' then areParameters .quotedStart rest
    else if isToken c then areParameters .value rest
    else false
  | .value, [] => true
  | .value, c :: rest =>
    if c == ';' then areParameters .start rest
    else if isToken c then areParameters .value rest
    else false
  | .quotedStart, [] => false
  | .quotedStart, c :: rest => if isQuotedChar c then areParameters .quoted rest else false
  | .quoted, [] => false
  | .quoted, c :: rest =>
    if c == '"' then areParameters .afterQuoted rest
    else if isQuotedChar c then areParameters .quoted rest
    else false
  | .afterQuoted, [] => true
  | .afterQuoted, c :: rest =>
    if c == ';' then areParameters .start rest
    else if c == ' ' then areParameters .afterQuoted rest
    else false

/-- Splits a subtype before its last plus sign that is not its first character. -/
def splitSuffix (cs : List Char) : List Char × Option (List Char) :=
  let tail := (cs.reverse.takeWhile (· != '+')).reverse
  if tail.length + 1 < cs.length then (cs.take (cs.length - tail.length - 1), some tail)
  else (cs, none)

def isJson (s : String) : Bool :=
  let cs := s.toList
  let main := cs.takeWhile (· != '/')
  match cs.drop main.length with
  | [] => false
  | _ :: rest =>
    let sub := rest.takeWhile (· != ';')
    let parameters := (rest.drop sub.length).drop 1
    let (subtype, suffix) := splitSuffix (sub.map Char.toLower)
    main.map Char.toLower == "application".toList && sub.all isToken
      && areParameters .start parameters
      && (subtype == "json".toList || suffix == some "json".toList)

end WalletBridge.Http.Media
