import WalletBridge.Toml.Scan

/-!
# Tables

A file is a row of lines, each of which adds to the table that the last header named. A name with
points adds to tables inside it. Tables are kept with how they came to be, because a table may be
added to in one way only.
-/

namespace WalletBridge.Toml

open Text

/-! ## Names -/

/-- A character that may stand in a name without marks. -/
def isNameChar (c : Char) : Bool :=
  ('a' ≤ c && c ≤ 'z') || ('A' ≤ c && c ≤ 'Z') || isDigit c || c == '-' || c == '_'

def namePart? (cs : List Char) : Option (String × List Char) :=
  match shortText? cs with
  | some result => some result
  | none =>
    let name := cs.takeWhile isNameChar
    if name.isEmpty then none else some (String.ofList name, cs.drop name.length)

def tooDeep : Nat := 80

def nameParts? : Nat → List Char → Option (List String × List Char)
  | 0, _ => none
  | fuel + 1, cs => do
    let (part, rest) ← namePart? (skipBlanks cs)
    match skipBlanks rest with
    | '.' :: more =>
      match nameParts? fuel more with
      | some (parts, rest) => return (part :: parts, rest)
      | none => none
    | rest => return ([part], rest)

def name? (cs : List Char) : Option (List String × List Char) :=
  (nameParts? cs.length cs).filter fun (parts, _) => parts.length < tooDeep

/-! ## Tables under construction -/

inductive Node where
  | leaf (v : Value)
  /-- A table. It is `implied` if no header has named it, and `dotted` if a name with points made
  it. -/
  | table (implied dotted : Bool) (members : List (String × Node))
  /-- A list of tables, each begun by a header. -/
  | series (tables : List (List (String × Node)))
deriving Inhabited

structure Table where
  implied : Bool := false
  dotted : Bool := false
  members : List (String × Node) := []
deriving Inhabited

namespace Table

def node (t : Table) : Node := .table t.implied t.dotted t.members

def find? (t : Table) (name : String) : Option Node :=
  (t.members.find? (·.1 == name)).map (·.2)

/-- Lets a name stand for something, in its old place if it has one. -/
def set (t : Table) (name : String) (node : Node) : Table :=
  if (t.find? name).isSome then
    { t with members := t.members.map fun m => if m.1 == name then (name, node) else m }
  else { t with members := t.members ++ [(name, node)] }

def erase (t : Table) (name : String) : Table :=
  { t with members := t.members.filter (·.1 != name) }

/-- Changes the table at the end of a path. Tables that are missing on the way are made; `dotted`
tells that the path is part of a name with points, which must not lead into a table that a header
has named. -/
def changeAt (dotted : Bool) (change : Table → Option (Table × α)) :
    List String → Table → Option (Table × α)
  | [], t => change t
  | name :: path, t =>
    match t.find? name with
    | none => do
      let (child, a) ← changeAt dotted change path { implied := true, dotted }
      return (t.set name child.node, a)
    | some (.leaf _) => none
    | some (.series tables) =>
      match tables.getLast? with
      | none => none
      | some last => do
        let (child, a) ← changeAt dotted change path { members := last }
        return (t.set name (.series (tables.dropLast ++ [child.members])), a)
    | some (.table implied isDotted members) =>
      if dotted && !implied then none
      else do
        let (child, a) ← changeAt dotted change path { implied, dotted := isDotted, members }
        return (t.set name child.node, a)

/-- Adds a value under a name, which must be new. A value belongs into a table made by a name with
points just when its own name has points. -/
def addValue (t : Table) (path : List String) (name : String) (v : Value) : Option Table :=
  let add (inner : Table) : Option (Table × Unit) :=
    if inner.dotted == path.isEmpty || (inner.find? name).isSome then none
    else some (inner.set name (.leaf v), ())
  (changeAt true add path t).map (·.1)

end Table

mutual

def Node.value : Node → Value
  | .leaf v => v
  | .table _ _ members => .table (memberValues members)
  | .series tables => .list (tableValues tables)

/-- The values of the members of a table. -/
def memberValues : List (String × Node) → List (String × Value)
  | [] => []
  | (name, node) :: rest => (name, node.value) :: memberValues rest

def tableValues : List (List (String × Node)) → List Value
  | [] => []
  | members :: rest => .table (memberValues members) :: tableValues rest

end

/-! ## Values -/

def items? (item : Scan Value) : Nat → List Value → Scan (List Value)
  | 0, _, _ => none
  | fuel + 1, read, cs =>
    match skipLines cs.length cs with
    | ']' :: rest => some (read.reverse, rest)
    | cs => do
      let (v, rest) ← item cs
      match skipLines rest.length rest with
      | ',' :: rest => items? item fuel (v :: read) rest
      | ']' :: rest => return ((v :: read).reverse, rest)
      | _ => none

def member? (item : Scan Value) (cs : List Char) :
    Option ((List String × String × Value) × List Char) := do
  let (parts, rest) ← name? cs
  let rest ← char? '=' rest
  let (v, rest) ← item (skipBlanks rest)
  let name ← parts.getLast?
  return ((parts.dropLast, name, v), rest)

def inlineMembers? (item : Scan Value) : Nat → Table → Scan Table
  | 0, _, _ => none
  | fuel + 1, t, cs => do
    let ((path, name, v), rest) ← member? item cs
    let t ← t.addValue path name v
    match skipBlanks rest with
    | ',' :: rest => inlineMembers? item fuel t rest
    | '\x7d' :: rest => return (t, rest)
    | _ => none

def inlineTable? (item : Scan Value) : Scan Value := fun cs =>
  match skipBlanks cs with
  | '\x7d' :: rest => some (.table [], rest)
  | cs => (inlineMembers? item cs.length {} cs).map fun (t, rest) => (t.node.value, rest)

def number? (cs : List Char) : Option (Value × List Char) :=
  match moment? cs with
  | some rest => some (.moment, rest)
  | none =>
    match fraction? cs with
    | some (x, rest) => some (.real x, rest)
    | none =>
      match special? cs with
      | some (x, rest) => some (.real x, rest)
      | none => (whole? cs).map fun (n, rest) => (.whole n, rest)

/-- Reads a value that may nest so many levels. -/
def value? : Nat → Scan Value
  | depth, '[' :: rest =>
    match depth with
    | 0 => none
    | depth + 1 => (items? (value? depth) rest.length [] rest).map fun (l, rest) => (.list l, rest)
  | depth, '\x7b' :: rest =>
    match depth with
    | 0 => none
    | depth + 1 => inlineTable? (value? depth) rest
  | _, 't' :: 'r' :: 'u' :: 'e' :: rest => some (.truth true, rest)
  | _, 'f' :: 'a' :: 'l' :: 's' :: 'e' :: rest => some (.truth false, rest)
  | _, cs =>
    match text? cs with
    | some (s, rest) => some (.text s, rest)
    | none => number? cs

/-! ## Lines -/

/-- What is read of a file so far: the whole of it, and the table that lines are added to. -/
structure Reading where
  root : Table := {}
  current : Table := {}
  /-- The name of that table; empty before the first header. -/
  path : List String := []
  /-- Whether it is one of a list of tables. -/
  inSeries : Bool := false
deriving Inhabited

namespace Reading

def close (r : Reading) : Option Table :=
  match r.path.getLast? with
  | none => some r.current
  | some name =>
    let place (parent : Table) : Option (Table × Unit) :=
      match parent.find? name, r.inSeries with
      | none, true => some (parent.set name (.series [r.current.members]), ())
      | some (.series tables), true =>
        some (parent.set name (.series (tables ++ [r.current.members])), ())
      | _, true => none
      | none, false => some (parent.set name r.current.node, ())
      | some (.table true _ _), false => some (parent.set name r.current.node, ())
      | _, false => none
    (Table.changeAt false place r.path.dropLast r.root).map (·.1)

/-- Takes the table of a header out of its parent: a new one, or one that was only implied. -/
def claim (name : String) (parent : Table) : Option (Table × Table) :=
  match parent.find? name with
  | none => some (parent, {})
  | some (.table true false members) => some (parent.erase name, { members })
  | some _ => none

def openTable (r : Reading) (path : List String) : Option Reading := do
  let root ← r.close
  let name ← path.getLast?
  let (root, current) ← Table.changeAt false (claim name) path.dropLast root
  return { root, current, path }

def openSeries (r : Reading) (path : List String) : Option Reading := do
  let root ← r.close
  let name ← path.getLast?
  let check (parent : Table) : Option (Table × Unit) :=
    match parent.find? name with
    | none => some (parent.set name (.series []), ())
    | some (.series _) => some (parent, ())
    | some _ => none
  let (root, _) ← Table.changeAt false check path.dropLast root
  return { root, path, inSeries := true }

def line? (r : Reading) (cs : List Char) : Option (Reading × List Char) :=
  match cs with
  | '[' :: '[' :: rest => do
    let (path, rest) ← name? rest
    let rest ← char? ']' rest
    let rest ← char? ']' rest
    return (← r.openSeries path, ← lineEnd? rest)
  | '[' :: rest => do
    let (path, rest) ← name? rest
    let rest ← char? ']' rest
    return (← r.openTable path, ← lineEnd? rest)
  | _ => do
    let ((path, name, v), rest) ← member? (value? (tooDeep - 1)) cs
    let current ← r.current.addValue path name v
    return ({ r with current }, ← lineEnd? rest)

def lines? : Nat → Reading → List Char → Option Reading
  | 0, r, _ => some r
  | fuel + 1, r, cs =>
    match skipBlanks cs with
    | [] => some r
    | cs =>
      match lineEnd? cs with
      | some rest => lines? fuel r rest
      | none =>
        match r.line? cs with
        | some (r, rest) => lines? fuel r rest
        | none => none

end Reading

def dropByteOrderMark : List Char → List Char
  | '\uFEFF' :: rest => rest
  | cs => cs

def parse? (s : String) : Option (List (String × Value)) := do
  let cs := dropByteOrderMark s.toList
  let r ← Reading.lines? (cs.length + 1) {} cs
  let root ← r.close
  return memberValues root.members

end WalletBridge.Toml
