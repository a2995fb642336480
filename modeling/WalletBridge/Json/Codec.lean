import WalletBridge.Json.Reader

/-!
# Values of a known shape

A `Codec` writes a value, reads it from bytes, and takes it from a value already read. Reading and
taking accept the same shapes; reading also says where a fault lies. Records are described by
their members: an object may hold them in any order and other members besides, and a list may hold
them in the order of the description.
-/

namespace WalletBridge.Json

open Text

structure Codec (α : Type) where
  write : α → Json
  /-- Reads a value; the number says how much deeper it may nest. -/
  read : Nat → Reader α
  take : Json → Except Cause α

/-- Reads a value that is not of the wanted kind, to say what it is. -/
def readOther (expected : String) (bytes : Bytes) : Fault :=
  let wrong (found : Found) (rest : Bytes) := Fault.before (.wrongType found expected) rest
  let scalar {β : Type} (result : Except Fault (β × Bytes)) (found : β → Found) :=
    match result with
    | .ok (value, rest) => wrong (found value) rest
    | .error fault => fault
  match bytes with
  | [] => .upon .expectedValue []
  | beginsNull :: rest => scalar (readNull rest) fun _ => .null
  | beginsTrue :: rest => scalar (readTrue rest) fun _ => .truth true
  | beginsFalse :: rest => scalar (readFalse rest) fun _ => .truth false
  | minus :: rest => scalar (readNumber true rest) .number
  | quote :: rest => scalar (readText rest) .text
  | openList :: _ => wrong .sequence bytes
  | openObject :: _ => wrong .map bytes
  | b :: _ =>
    if isDigitByte b then scalar (readNumber false bytes) .number else .upon .expectedValue bytes

def takeOther (expected : String) (v : Json) : Cause := .wrongType v.found expected

/-! ## Ranges of whole numbers -/

structure Range where
  name : String
  least : Int
  greatest : Int

def Range.natural32 : Range := ⟨"u32", 0, 0xFFFFFFFF⟩

def Range.natural64 : Range := ⟨"u64", 0, 0xFFFFFFFFFFFFFFFF⟩

def Range.signed64 : Range := ⟨"i64", -0x8000000000000000, 0x7FFFFFFFFFFFFFFF⟩

/-- The whole number that a number is, if it lies in the range. -/
def Range.check (range : Range) : Num → Except Cause Int
  | .whole n =>
    if range.least ≤ n && n ≤ range.greatest then .ok n
    else .error (.wrongValue (.number (.whole n)) range.name)
  | .real x => .error (.wrongType (.number (.real x)) range.name)

namespace Codec

/-! ## Texts, truth values and numbers -/

def readTextValue (expected : String) : Reader String := fun bytes =>
  match skipSpaces bytes with
  | [] => .error (.upon .endInValue [])
  | quote :: rest => readText rest
  | rest => .error (readOther expected rest)

def text : Codec String where
  write := .text
  read _ := readTextValue "a string"
  take
    | .text s => .ok s
    | v => .error (takeOther "a string" v)

def truth : Codec Bool where
  write := .truth
  read _ bytes :=
    match skipSpaces bytes with
    | [] => .error (.upon .endInValue [])
    | beginsTrue :: rest => (readTrue rest).map fun (_, rest) => (true, rest)
    | beginsFalse :: rest => (readFalse rest).map fun (_, rest) => (false, rest)
    | rest => .error (readOther "a boolean" rest)
  take
    | .truth b => .ok b
    | v => .error (takeOther "a boolean" v)

def whole (range : Range) : Codec Int where
  write n := .number (.whole n)
  read _ bytes :=
    let checked (result : Except Fault (Num × Bytes)) : Except Fault (Int × Bytes) := do
      let (n, rest) ← result
      match range.check n with
      | .ok n => return (n, rest)
      | .error cause => .error (.before cause rest)
    match skipSpaces bytes with
    | [] => .error (.upon .endInValue [])
    | minus :: rest => checked (readNumber true rest)
    | b :: rest =>
      if isDigitByte b then checked (readNumber false (b :: rest))
      else .error (readOther range.name (b :: rest))
  take
    | .number n => range.check n
    | v => .error (takeOther range.name v)

def map (c : Codec α) (f : α → β) (back : β → α) : Codec β where
  write b := c.write (back b)
  read depth bytes := (c.read depth bytes).map fun (a, rest) => (f a, rest)
  take v := (c.take v).map f

def natural (range : Range) : Codec Nat := (whole range).map Int.toNat Int.ofNat

/-! ## Values that may be missing, and lists -/

def optional (c : Codec α) : Codec (Option α) where
  write
    | none => .null
    | some a => c.write a
  read depth bytes :=
    match skipSpaces bytes with
    | beginsNull :: rest => (readNull rest).map fun (_, rest) => (none, rest)
    | rest => (c.read depth rest).map fun (a, rest) => (some a, rest)
  take
    | .null => .ok none
    | v => (c.take v).map some

def list (c : Codec α) : Codec (List α) where
  write items := .list (items.map c.write)
  read depth bytes :=
    match skipSpaces bytes with
    | [] => .error (.upon .endInValue [])
    | openList :: rest => enter depth (openList :: rest) fun depth => readList (c.read depth)
    | rest => .error (readOther "a sequence" rest)
  take
    | .list items => items.mapM c.take
    | v => .error (takeOther "a sequence" v)

end Codec

/-! ## Records -/

/-- One member of a record type. A record is built from a draft that each member changes. -/
structure Member (ρ : Type) where
  name : String
  /-- The written value; `none` leaves the member out. -/
  write : ρ → Option Json
  read : Nat → Reader (ρ → ρ)
  take : Json → Except Cause (ρ → ρ)
  /-- The change when an object lacks the member; `none` when it must not. -/
  lacking : Option (ρ → ρ)
  /-- The change when a list ends before the member; `none` when it must not. -/
  short : Option (ρ → ρ)

namespace Member

def required (name : String) (c : Codec α) (get : ρ → α) (set : α → ρ → ρ) : Member ρ where
  name
  write r := some (c.write (get r))
  read depth bytes := (c.read depth bytes).map fun (a, rest) => (set a, rest)
  take v := (c.take v).map set
  lacking := none
  short := none

/-- A member that an object may lack; it is then `none`. -/
def optional (name : String) (c : Codec α) (get : ρ → Option α) (set : Option α → ρ → ρ) :
    Member ρ :=
  { required name c.optional get set with lacking := some (set none) }

/-- A member that an object or a list may lack; it then has the given value. -/
def defaulted (name : String) (c : Codec α) (value : α) (get : ρ → α) (set : α → ρ → ρ) :
    Member ρ :=
  { required name c get set with lacking := some (set value), short := some (set value) }

/-- A member that may be lacking, and that is left out when it is `none`. -/
def trailing (name : String) (c : Codec α) (get : ρ → Option α) (set : Option α → ρ → ρ) :
    Member ρ :=
  { required name c.optional get set with
    write := fun r => (get r).map c.write
    lacking := some (set none)
    short := some (set none) }

end Member

/-- What is read of a record so far: the draft, and the names of the members it has. -/
structure Draft (ρ : Type) where
  value : ρ
  seen : List String

/-- A record type: its members, how messages name it, and a draft to start from. The draft does
not show in the result: a member that is read sets its part, and so does one that is lacking. -/
structure Shape (ρ : Type) where
  title : String
  members : List (Member ρ)
  start : ρ

namespace Shape

variable (shape : Shape ρ)

def member? (name : String) : Option (Member ρ) := shape.members.find? (·.name == name)

def asList : String :=
  let count := shape.members.length
  shape.title ++ " with " ++ decimal count ++ (if count == 1 then " element" else " elements")

/-- Gives every member that was not seen the value of a lacking one. -/
def fill : List (Member ρ) → List String → ρ → Except Cause ρ
  | [], _, value => .ok value
  | m :: members, seen, value =>
    if seen.contains m.name then fill members seen value
    else match m.lacking with
      | some change => fill members seen (change value)
      | none => .error (.missingMember m.name)

/-- The record of a draft, once every lacking member has been given its value. -/
def finish (draft : Draft ρ) : Except Cause ρ := fill shape.members draft.seen draft.value

/-- The fault of a name, if it is of a member that has already been read. -/
def repeats (name : String) (draft : Draft ρ) : Option Cause :=
  if draft.seen.contains name then some (.repeatedMember name) else none

def readMember (depth : Nat) (name : String) (draft : Draft ρ) : Reader (Draft ρ) := fun bytes =>
  match shape.member? name with
  | some m =>
    (m.read depth bytes).map fun (change, rest) =>
      ({ value := change draft.value, seen := name :: draft.seen }, rest)
  | none => (skipValue bytes).map fun rest => (draft, rest)

def readObject (depth : Nat) : Reader ρ := fun bytes => do
  let start : Draft ρ := { value := shape.start, seen := [] }
  let (draft, rest) ←
    readMembers repeats (shape.readMember depth) (bytes.length + 1) true start bytes
  match shape.finish draft with
  | .error cause => .error (.before cause (afterObject rest))
  | .ok value =>
    let rest ← endObject rest
    return (value, rest)

def readRow (depth : Nat) : Nat → List (Member ρ) → ρ → Reader ρ
  | _, [], value, bytes => .ok (value, bytes)
  | index, m :: members, value, bytes =>
    match nextItem (index == 0) bytes with
    | .error fault => .error fault
    | .ok none =>
      match m.short with
      | some change => readRow depth (index + 1) members (change value) bytes
      | none => .error (.before (.wrongLength index shape.asList) (afterList bytes))
    | .ok (some rest) =>
      match m.read depth rest with
      | .error fault => .error (fault.inside (.item index))
      | .ok (change, rest) => readRow depth (index + 1) members (change value) rest

def readList (depth : Nat) : Reader ρ := fun bytes => do
  let (value, rest) ← shape.readRow depth 0 shape.members shape.start bytes
  let rest ← endList rest
  return (value, rest)

def takeMembers : List (String × Json) → Draft ρ → Except Cause (Draft ρ)
  | [], draft => .ok draft
  | (name, v) :: rest, draft =>
    match shape.member? name with
    | none => takeMembers rest draft
    | some m =>
      match repeats name draft with
      | some cause => .error cause
      | none =>
        match m.take v with
        | .error cause => .error cause
        | .ok change => takeMembers rest { value := change draft.value, seen := name :: draft.seen }

/-- Takes the members of a record from the items of a list; `total` is their number. -/
def takeRow (total : Nat) : Nat → List (Member ρ) → List Json → ρ → Except Cause ρ
  | index, [], _, value =>
    if index < total then .error (.wrongLength total (elementsText index)) else .ok value
  | index, m :: members, [], value =>
    match m.short with
    | some change => takeRow total (index + 1) members [] (change value)
    | none => .error (.wrongLength index shape.asList)
  | index, m :: members, v :: items, value =>
    match m.take v with
    | .error cause => .error cause
    | .ok change => takeRow total (index + 1) members items (change value)
where
  /-- How messages name the length of a list that is too long. -/
  elementsText (n : Nat) : String :=
    if n == 1 then "1 element in sequence" else decimal n ++ " elements in sequence"

def take : Json → Except Cause ρ
  | .object members => do
    let draft ← shape.takeMembers members { value := shape.start, seen := [] }
    shape.finish draft
  | .list items => shape.takeRow items.length 0 shape.members items shape.start
  | v => .error (takeOther shape.title v)

def write (r : ρ) : List (String × Json) :=
  shape.members.filterMap fun m => (m.write r).map fun v => (m.name, v)

def codec : Codec ρ where
  write r := .object (shape.write r)
  read depth bytes :=
    match skipSpaces bytes with
    | [] => .error (.upon .endInValue [])
    | openList :: rest => enter depth (openList :: rest) shape.readList
    | openObject :: rest => enter depth (openObject :: rest) shape.readObject
    | rest => .error (readOther shape.title rest)
  take := shape.take

end Shape

/-! ## One of a few names -/

/-- Reads one of a few names; `position` is called on what follows it. -/
def chooseName (names : List (String × α)) (name : String) : Except Cause α :=
  match names.find? (·.1 == name) with
  | some (_, a) => .ok a
  | none => .error (.unknownVariant name (names.map (·.1)))

def readName (names : List (String × α)) : Reader α := fun bytes => do
  let (name, rest) ← Codec.readTextValue "variant identifier" bytes
  match chooseName names name with
  | .ok a => return (a, rest)
  | .error cause => .error (.before cause rest)

def readNameKey (names : List (String × α)) : Reader α := fun bytes =>
  match skipSpaces bytes with
  | [] => .error (.upon .endInObject [])
  | quote :: rest => readName names (quote :: rest)
  | closeObject :: rest => .error (.upon .expectedValue (closeObject :: rest))
  | rest => .error (.upon .keyNotText rest)

def readUnit : Reader Unit := fun bytes =>
  match skipSpaces bytes with
  | [] => .error (.upon .endInValue [])
  | beginsNull :: rest => readNull rest
  | rest => .error (readOther "unit" rest)

def takeName (names : List (String × α)) : Json → Except Cause α
  | .text name => chooseName names name
  | v => .error (takeOther "variant identifier" v)

/-- Takes `null`, or an object without members. -/
def takeUnit : Json → Except Cause Unit
  | .null => .ok ()
  | .object [] => .ok ()
  | v => .error (takeOther "unit" v)

/-- One of a few named values. It may also be written as an object whose only member has that name
and the value `null`. -/
def choice (names : List (String × α)) (nameOf : α → String) : Codec α where
  write a := .text (nameOf a)
  read depth bytes :=
    match skipSpaces bytes with
    | [] => .error (.upon .endInValue [])
    | quote :: rest => readName names (quote :: rest)
    | openObject :: rest => enter depth (openObject :: rest) fun _ rest => do
      let (a, rest) ← readNameKey names rest
      let rest ← readColon rest
      let (_, rest) ← readUnit rest
      match skipSpaces rest with
      | [] => .error (.before .endInObject [])
      | closeObject :: rest => return (a, rest)
      | rest => .error (.before .expectedValue rest)
    | rest => .error (.upon .expectedValue rest)
  take
    | .text name => chooseName names name
    | .object [(name, v)] => do
      let a ← chooseName names name
      takeUnit v
      return a
    | .object _ => .error (.wrongValue .map "map with a single key")
    | v => .error (takeOther "string or map" v)

/-! ## One of a few records, told apart by a member -/

/-- One of the records: how its values are taken from the members or items besides the tag. -/
structure Variant (α : Type) where
  tag : String
  take : Json → Except Cause α

namespace Variant

/-- A variant without members of its own. A list must hold nothing besides the tag. -/
def plain (tag : String) (a : α) : Variant α where
  tag
  take
    | .list [] => .ok a
    | .list items => .error (.wrongLength items.length "0 elements in sequence")
    | .object _ => .ok a
    | v => .error (takeOther "unit variant" v)

def ofShape (tag : String) (shape : Shape ρ) (make : ρ → α) : Variant α where
  tag
  take v := (shape.take v).map make

end Variant

/-- A type whose values are one of a few records, told apart by the member `tagName`. -/
structure Tagged (α : Type) where
  title : String
  tagName : String
  variants : List (Variant α)
  /-- The tag of a value and its other members. -/
  write : α → String × List (String × Json)

namespace Tagged

variable (tagged : Tagged α)

def names : List (String × Variant α) := tagged.variants.map fun v => (v.tag, v)

/-- What is read of an object so far: the variant, and the other members, last first. -/
structure Draft (α : Type) where
  variant : Option (Variant α)
  members : List (String × Json)

def repeats (name : String) (draft : Draft α) : Option Cause :=
  if name == tagged.tagName && draft.variant.isSome then some (.repeatedMember name) else none

def readMember (depth : Nat) (name : String) (draft : Draft α) : Reader (Draft α) := fun bytes =>
  if name == tagged.tagName then
    (readName tagged.names bytes).map fun (v, rest) => ({ draft with variant := some v }, rest)
  else
    (readJson depth bytes).map fun (v, rest) =>
      ({ draft with members := (name, v) :: draft.members }, rest)

def readObject (depth : Nat) : Reader (Variant α × Json) := fun bytes => do
  let start : Draft α := { variant := none, members := [] }
  let (draft, rest) ←
    readMembers tagged.repeats (tagged.readMember depth) (bytes.length + 1) true start bytes
  match draft.variant with
  | none => .error (.before (.missingMember tagged.tagName) (afterObject rest))
  | some variant =>
    let rest ← endObject rest
    return ((variant, .object draft.members.reverse), rest)

/-- Reads a list after its opening bracket; the tag comes first. -/
def readList (depth : Nat) : Reader (Variant α × Json) := fun bytes => do
  match ← nextItem true bytes with
  | none => .error (.before (.missingMember tagged.tagName) (afterList bytes))
  | some rest =>
    let (variant, rest) ← readName tagged.names rest
    let (items, rest) ← readRest depth (rest.length + 1) [] rest
    let rest ← endList rest
    return ((variant, .list items), rest)
where
  /-- Reads the items after the tag up to the closing bracket. -/
  readRest (depth : Nat) : Nat → List Json → Reader (List Json)
    | 0, read, bytes => .ok (read.reverse, bytes)
    | fuel + 1, read, bytes => do
      match ← nextItem false bytes with
      | none => return (read.reverse, bytes)
      | some rest =>
        let (v, rest) ← readJson depth rest
        readRest depth fuel (v :: read) rest

/-- The codec of such a type. Faults after the tag have no place. -/
def codec : Codec α where
  write a :=
    let (tag, members) := tagged.write a
    .object ((tagged.tagName, .text tag) :: members)
  read depth bytes :=
    let finish (result : Except Fault ((Variant α × Json) × Bytes)) : Except Fault (α × Bytes) := do
      let ((variant, v), rest) ← result
      match variant.take v with
      | .ok a => return (a, rest)
      | .error cause => .error { cause }
    match skipSpaces bytes with
    | [] => .error (.upon .endInValue [])
    | openList :: rest => finish (enter depth (openList :: rest) tagged.readList)
    | openObject :: rest => finish (enter depth (openObject :: rest) tagged.readObject)
    | rest => .error (readOther tagged.title rest)
  take
    | .object members =>
      match members.filter (·.1 == tagged.tagName) with
      | [] => .error (.missingMember tagged.tagName)
      | [(_, tag)] => do
        let variant ← takeName tagged.names tag
        variant.take (.object (members.filter (·.1 != tagged.tagName)))
      | _ => .error (.repeatedMember tagged.tagName)
    | .list [] => .error (.missingMember tagged.tagName)
    | .list (tag :: items) => do
      let variant ← takeName tagged.names tag
      variant.take (.list items)
    | v => .error (takeOther tagged.title v)

end Tagged

/-! ## Whole texts -/

def encode (c : Codec α) (a : α) : Bytes := utf8 (c.write a).compact

/-- Reads the one value that a text holds; only blanks may follow it. -/
def decode (c : Codec α) (bytes : Bytes) : Except Fault α := do
  let (a, rest) ← c.read deepest bytes
  match skipSpaces rest with
  | [] => return a
  | rest => .error (.upon .trailingCharacters rest)

def anything : Codec Json where
  write := id
  read := readJson
  take := .ok

end WalletBridge.Json
