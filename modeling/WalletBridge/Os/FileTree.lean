import WalletBridge.Os.Error
import WalletBridge.Text.Utf8

/-!
# A tree of files

Directories and files by the names on the way to them, with their permissions and contents. What
cannot be done to a tree fails with the error that the system gives. A path is a row of parts with
slashes between them; a slash at its end asks for a directory.
-/

namespace WalletBridge.Os

abbrev Place := List String

inductive Node where
  | directory (mode : Nat)
  | file (mode : Nat) (content : Bytes)
  /-- A device that never has room for anything. -/
  | full
  /-- A device that takes everything and keeps nothing. -/
  | sink
deriving DecidableEq, Repr

/-- Everything there is except the root, which is always there. -/
structure FileTree where
  nodes : List (Place × Node) := []
deriving Repr

def pathParts (path : String) : List String := (path.splitOn "/").filter (· != "")

/-- The names in a path, without the parts that stand for the directory itself. -/
def pathNames (path : String) : List String := (pathParts path).filter (· != ".")

/-- Whether a path asks for a directory: it ends with a slash after a name. -/
def asksDirectory (path : String) : Bool :=
  path.toList.getLast? == some '/'
    && (pathParts path).getLast?.any fun part => part != "." && part != ".."

def longestPath : Nat := 4095

def longestName : Nat := 255

/-- Refuses a path that the system does not take. -/
def checkPath (path : String) : Except Error Unit :=
  if path.toList.contains '\x00' then .error .strayNul
  else if longestPath < (Text.utf8 path).length then .error .nameTooLong
  else .ok ()

/-- Refuses a name that the system does not take. -/
def checkName (name : String) : Except Error Unit :=
  if longestName < (Text.utf8 name).length then .error .nameTooLong else .ok ()

namespace FileTree

def find? (t : FileTree) (place : Place) : Option Node :=
  if place.isEmpty then some (.directory 0o755)
  else (t.nodes.find? (·.1 == place)).map (·.2)

def put (t : FileTree) (place : Place) (node : Node) : FileTree where
  nodes := t.nodes.filter (·.1 != place) ++ [(place, node)]

def demandDirectory (t : FileTree) (place : Place) : Except Error Unit :=
  match t.find? place with
  | some (.directory _) => .ok ()
  | some _ => .error .notDirectory
  | none => .error .notFound

def follow (place : Place) (part : String) : Place :=
  if part == "." then place else if part == ".." then place.dropLast else place ++ [part]

def startOf (working : Place) (path : String) : Place :=
  if path.toList.head? == some '/' then [] else working

/-- The place that parts of a path lead to. Only the last one may be missing. -/
def walk (t : FileTree) (start : Place) (parts : List String) : Except Error Place :=
  parts.foldlM (fun place part => do
    t.demandDirectory place
    checkName part
    return follow place part) start

/-- The place that a path leads to. Only its last name may be missing. -/
def locate (t : FileTree) (working : Place) (path : String) : Except Error Place := do
  checkPath path
  if path.isEmpty then throw .notFound
  t.walk (startOf working path) (pathParts path)

/-- The place of a file that is to be opened for writing. A path that asks for a directory leads to
none, whatever is there. -/
def locateFile (t : FileTree) (working : Place) (path : String) : Except Error Place := do
  if asksDirectory path then
    checkPath path
    let above ← t.walk (startOf working path) (pathParts path).dropLast
    t.demandDirectory above
    throw .isDirectory
  let place ← t.locate working path
  match t.find? place with
  | some (.directory _) => throw .isDirectory
  | _ => return place

def makeOne (t : FileTree) (start : Place) (parts : List String) (mode : Nat) :
    Except Error FileTree := do
  let place ← t.walk start parts
  if (t.find? place).isSome then throw .fileExists
  return t.put place (.directory mode)

def ensureOne (t : FileTree) (start : Place) (parts : List String) (mode : Nat) :
    Except Error FileTree :=
  match t.makeOne start parts mode, t.walk start parts with
  | .error e, .ok place => if (t.demandDirectory place).toBool then .ok t else .error e
  | made, _ => made

/-- What an attempt leaves behind: the tree, changed only if it succeeded. -/
def settle (t : FileTree) : Except Error FileTree → FileTree × Except Error Unit
  | .ok made => (made, .ok ())
  | .error e => (t, .error e)

/-- Makes a directory; when the one above it is missing, that one is made first. `above` are the
names of the one above, the last one first. Directories that have been made stay, even if a later
one cannot be made. -/
def makeDirectories (start : Place) (mode : Nat) (parts : List String) :
    List String → FileTree → FileTree × Except Error Unit
  | [], t => t.settle (t.ensureOne start parts mode)
  | name :: above, t =>
    match t.ensureOne start parts mode with
    | .error .notFound =>
      match makeDirectories start mode (name :: above).reverse above t with
      | (t, .ok _) => t.settle (t.ensureOne start parts mode)
      | failed => failed
    | outcome => t.settle outcome

/-- Makes a directory and the directories above it, unless they are there. -/
def makeDirectory (t : FileTree) (working : Place) (path : String) (mode : Nat) :
    FileTree × Except Error Unit :=
  match checkPath path with
  | .error e => (t, .error e)
  | .ok _ =>
    let names := pathNames path
    let parts := if (pathParts path).getLast? == some "." then names ++ ["."] else names
    if names.isEmpty then (t, .ok ())
    else makeDirectories (startOf working path) mode parts names.dropLast.reverse t

def openAppend (t : FileTree) (working : Place) (path : String) (mode : Nat) :
    Except Error (FileTree × Place) := do
  let place ← t.locateFile working path
  match t.find? place with
  | some _ => return (t, place)
  | none => return (t.put place (.file mode []), place)

def openAnew (t : FileTree) (working : Place) (path : String) (mode : Nat) :
    Except Error (FileTree × Place) := do
  let place ← t.locateFile working path
  match t.find? place with
  | some (.file mode _) => return (t.put place (.file mode []), place)
  | some _ => return (t, place)
  | none => return (t.put place (.file mode []), place)

def append (t : FileTree) (place : Place) (bytes : Bytes) : Except Error FileTree :=
  match t.find? place with
  | some (.file mode content) => .ok (t.put place (.file mode (content ++ bytes)))
  | some .full => if bytes.isEmpty then .ok t else .error .noSpace
  | some .sink => .ok t
  | _ => .error .badDescriptor

/-- Makes what was written to a file safe. A device has nothing to keep safe. -/
def sync (t : FileTree) (place : Place) : Except Error Unit :=
  match t.find? place with
  | some (.file ..) => .ok ()
  | some .full | some .sink => .error .invalidArgument
  | _ => .error .badDescriptor

def store (t : FileTree) (place : Place) (bytes : Bytes) : Except Error FileTree := do
  let t ← t.append place bytes
  t.sync place
  return t

def content? (t : FileTree) (place : Place) : Option Bytes :=
  match t.find? place with
  | some (.file _ content) => some content
  | _ => none

def read (t : FileTree) (working : Place) (path : String) : Except Error Bytes := do
  let place ← t.locate working path
  match t.find? place with
  | none => throw .notFound
  | some (.directory _) => throw .isDirectory
  | some node =>
    if asksDirectory path then throw .notDirectory
    match node with
    | .file _ content => return content
    | .full => throw .noSpace
    | _ => return []

def mode? (t : FileTree) (place : Place) : Option Nat :=
  match t.find? place with
  | some (.file mode _) => some mode
  | some (.directory mode) => some mode
  | _ => none

def below (t : FileTree) (place : Place) : List (String × Nat) :=
  let inside := t.nodes.filterMap fun (p, _) =>
    if place.isPrefixOf p && place.length < p.length then
      (t.mode? p).map fun mode => (String.intercalate "/" (p.drop place.length), mode)
    else none
  inside.mergeSort fun a b => decide (a.1 ≤ b.1)

end FileTree

structure OpenFile where
  place : Place
  writable : Bool := true
deriving DecidableEq, Repr

def OpenFile.write (f : OpenFile) (t : FileTree) (bytes : Bytes) : Except Error FileTree :=
  if f.writable then t.append f.place bytes else .error .badDescriptor

def OpenFile.writeAll (f : OpenFile) (t : FileTree) (bytes : Bytes) : Except Error FileTree :=
  if bytes.isEmpty then .ok t else f.write t bytes

end WalletBridge.Os
