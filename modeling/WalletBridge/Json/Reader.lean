import WalletBridge.Json.Scan

/-!
# Lists, objects and whole values

`readItems` and `nextKey` are the two ways through a container; `readJson` reads any value up to a
given depth, and `skipValue` passes over one of any depth. A loop carries the number of bytes that
are left as its fuel: every round reads at least one of them.
-/

namespace WalletBridge.Json

def deepest : Nat := 128

/-- Reads the opening byte of a container unless that would nest too deep; the body is given the
depth that is left. -/
def enter (depth : Nat) (bytes : Bytes) (body : Nat → Reader α) : Except Fault (α × Bytes) :=
  match depth with
  | 0 | 1 => .error (.upon .tooDeep bytes)
  | depth + 1 => body depth (bytes.drop 1)

/-! ## Lists -/

/-- Whether a list has a further item; `none` at its closing bracket, which is left. -/
def nextItem (first : Bool) (bytes : Bytes) : Except Fault (Option Bytes) :=
  match skipSpaces bytes with
  | [] => .error (.upon .endInList [])
  | closeList :: _ => .ok none
  | b :: rest =>
    if first then .ok (some (b :: rest))
    else if b == comma then
      match skipSpaces rest with
      | [] => .error (.upon .endInValue [])
      | closeList :: more => .error (.upon .trailingComma (closeList :: more))
      | more => .ok (some more)
    else .error (.upon .expectedListComma (b :: rest))

def endList (bytes : Bytes) : Except Fault Bytes :=
  match skipSpaces bytes with
  | [] => .error (.upon .endInList [])
  | closeList :: rest => .ok rest
  | comma :: rest =>
    match skipSpaces rest with
    | closeList :: more => .error (.upon .trailingComma (closeList :: more))
    | more => .error (.upon .trailingCharacters more)
  | rest => .error (.upon .trailingCharacters rest)

/-- What is left once the end of a list has been looked for. -/
def afterList (bytes : Bytes) : Bytes :=
  match skipSpaces bytes with
  | closeList :: rest => rest
  | comma :: rest => skipSpaces rest
  | rest => rest

/-- Reads all items of a list up to its closing bracket, which is left; `read` holds those read so
far, last first. -/
def readItems (item : Reader α) : Nat → List α → Reader (List α)
  | 0, read, bytes => .ok (read.reverse, bytes)
  | fuel + 1, read, bytes =>
    match nextItem read.isEmpty bytes with
    | .error fault => .error fault
    | .ok none => .ok (read.reverse, skipSpaces bytes)
    | .ok (some rest) =>
      match item rest with
      | .error fault => .error (fault.inside (.item read.length))
      | .ok (value, rest) => readItems item fuel (value :: read) rest

def readList (item : Reader α) : Reader (List α) := fun bytes => do
  let (items, rest) ← readItems item (bytes.length + 1) [] bytes
  let rest ← endList rest
  return (items, rest)

/-! ## Objects -/

/-- Reads the next name of an object; `none` at its closing brace, which is left. -/
def nextKey (first : Bool) (bytes : Bytes) : Except Fault (Option (String × Bytes)) :=
  let name (rest : Bytes) := (readText rest).map some
  match skipSpaces bytes with
  | [] => .error (.upon .endInObject [])
  | closeObject :: _ => .ok none
  | b :: rest =>
    if first then
      if b == quote then name rest else .error (.upon .keyNotText (b :: rest))
    else if b == comma then
      match skipSpaces rest with
      | [] => .error (.upon .endInValue [])
      | quote :: more => name more
      | closeObject :: more => .error (.upon .trailingComma (closeObject :: more))
      | more => .error (.upon .keyNotText more)
    else .error (.upon .expectedObjectComma (b :: rest))

def readColon (bytes : Bytes) : Except Fault Bytes :=
  match skipSpaces bytes with
  | [] => .error (.upon .endInObject [])
  | colon :: rest => .ok rest
  | rest => .error (.upon .expectedColon rest)

def endObject (bytes : Bytes) : Except Fault Bytes :=
  match skipSpaces bytes with
  | [] => .error (.upon .endInObject [])
  | closeObject :: rest => .ok rest
  | comma :: rest => .error (.upon .trailingComma (comma :: rest))
  | rest => .error (.upon .trailingCharacters rest)

/-- What is left once the end of an object has been looked for. -/
def afterObject (bytes : Bytes) : Bytes :=
  match skipSpaces bytes with
  | closeObject :: rest => rest
  | rest => rest

/-- Reads all members of an object up to its closing brace, which is left. How a member is read
depends on its name; `visit` is given what was built so far, and the bytes after the colon. -/
def readMembers (check : String → β → Option Cause) (visit : String → β → Reader β) :
    Nat → Bool → β → Reader β
  | 0, _, built, bytes => .ok (built, bytes)
  | fuel + 1, first, built, bytes =>
    match nextKey first bytes with
    | .error fault => .error (fault.inside .unknown)
    | .ok none => .ok (built, skipSpaces bytes)
    | .ok (some (name, rest)) =>
      match check name built with
      | some cause => .error (.before cause (afterObject rest))
      | none =>
        match readColon rest with
        | .error fault => .error fault
        | .ok rest =>
          match visit name built rest with
          | .error fault => .error (fault.inside (.member name))
          | .ok (built, rest) => readMembers check visit fuel false built rest

/-! ## Any value -/

def readJson : Nat → Reader Json
  | 0, bytes => .error (.upon .tooDeep bytes)
  | depth + 1, bytes =>
    match skipSpaces bytes with
    | [] => .error (.upon .endInValue [])
    | beginsNull :: rest => (readNull rest).map fun (_, rest) => (.null, rest)
    | beginsTrue :: rest => (readTrue rest).map fun (_, rest) => (.truth true, rest)
    | beginsFalse :: rest => (readFalse rest).map fun (_, rest) => (.truth false, rest)
    | quote :: rest => (readText rest).map fun (s, rest) => (.text s, rest)
    | minus :: rest => (readNumber true rest).map fun (n, rest) => (.number n, rest)
    | openList :: rest =>
      if depth == 0 then .error (.upon .tooDeep (openList :: rest))
      else (readList (readJson depth) rest).map fun (items, rest) => (.list items, rest)
    | openObject :: rest =>
      if depth == 0 then .error (.upon .tooDeep (openObject :: rest))
      else do
        let (members, rest) ← readMembers (fun _ _ => none)
          (fun name members bytes =>
            (readJson depth bytes).map fun (v, rest) => ((name, v) :: members, rest))
          (rest.length + 1) true [] rest
        let rest ← endObject rest
        return (.object members.reverse, rest)
    | b :: rest =>
      if isDigitByte b then (readNumber false (b :: rest)).map fun (n, rest) => (.number n, rest)
      else .error (.upon .expectedValue (b :: rest))

/-! ## Passing over a value -/

/-- The containers around a place, innermost first; true for an object. -/
abbrev Enclosing := List Bool

def skipKey (bytes : Bytes) : Except Fault Bytes :=
  match skipSpaces bytes with
  | [] => .error (.upon .endInObject [])
  | quote :: rest => (skipText rest).bind readColon
  | rest => .error (.upon .keyNotText rest)

/-- Passes over the ends of containers, and then up to the next item or member. After the last
end the value is over: the result has no container left. `closing` tells that an item or member,
or a whole container, has just been read. -/
def skipEnds : Bool → Enclosing → Bytes → Except Fault (Enclosing × Bytes)
  | _, [], bytes => .ok ([], bytes)
  | closing, inObject :: around, bytes =>
    match skipSpaces bytes with
    | [] => .error (.upon (if inObject then .endInObject else .endInList) [])
    | b :: rest =>
      if closing && b == comma then
        if inObject then (skipKey rest).map fun rest => (inObject :: around, rest)
        else .ok (inObject :: around, rest)
      else if b == (if inObject then closeObject else closeList) then
        skipEnds true around rest
      else if closing then
        .error (.upon (if inObject then .expectedObjectComma else .expectedListComma) (b :: rest))
      else if inObject then (skipKey (b :: rest)).map fun rest => (inObject :: around, rest)
      else .ok (inObject :: around, b :: rest)

/-- Passes over one value that is not a container, or over the opening of one. The result tells
whether a container was opened, and of which kind. -/
def skipFirst (bytes : Bytes) : Except Fault (Option Bool × Bytes) :=
  match skipSpaces bytes with
  | [] => .error (.upon .endInValue [])
  | beginsNull :: rest => (readNull rest).map fun (_, rest) => (none, rest)
  | beginsTrue :: rest => (readTrue rest).map fun (_, rest) => (none, rest)
  | beginsFalse :: rest => (readFalse rest).map fun (_, rest) => (none, rest)
  | quote :: rest => (skipText rest).map fun rest => (none, rest)
  | minus :: rest => (skipNumber rest).map fun rest => (none, rest)
  | openList :: rest => .ok (some false, rest)
  | openObject :: rest => .ok (some true, rest)
  | b :: rest =>
    if isDigitByte b then (skipNumber (b :: rest)).map fun rest => (none, rest)
    else .error (.upon .expectedValue (b :: rest))

/-- Passes over values until no container is left. -/
def skipValues : Nat → Enclosing → Bytes → Except Fault Bytes
  | 0, _, bytes => .ok bytes
  | fuel + 1, around, bytes =>
    match skipFirst bytes with
    | .error fault => .error fault
    | .ok (opened, rest) =>
      let (closing, around) := match opened with
        | none => (true, around)
        | some inObject => (false, inObject :: around)
      match skipEnds closing around rest with
      | .error fault => .error fault
      | .ok ([], rest) => .ok rest
      | .ok (around, rest) => skipValues fuel around rest

def skipValue (bytes : Bytes) : Except Fault Bytes := skipValues (bytes.length + 1) [] bytes

end WalletBridge.Json
