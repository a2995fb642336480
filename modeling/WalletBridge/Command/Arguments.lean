import WalletBridge.Json.Codec

/-!
# Command lines

Reads the arguments of a program: options with a value, the request for help, and at most one
subcommand. The value of an option stands after an equals sign or in the next argument; in the
second case it is looked at only when the next option begins or the arguments end.
-/

namespace WalletBridge.Command

open Json Text

inductive Kind where
  /-- A path, which must not be empty. -/
  | path
  | text
  | truth
  /-- A whole number, which may have a sign if `signed`. -/
  | number (signed : Bool) (range : Range)

inductive Value where
  | text (s : String)
  | truth (b : Bool)
  | number (n : Nat)
deriving DecidableEq, Repr

structure Flag where
  long : String
  short : Option Char := none
  kind : Kind

inductive Refusal where
  | unknownArgument
  | invalidValue
  | valueValidation
  | argumentConflict
  | tooManyValues
  | invalidSubcommand
  | missingSubcommand
  | help
deriving DecidableEq, Repr

def Refusal.name : Refusal → String
  | .unknownArgument => "UnknownArgument"
  | .invalidValue => "InvalidValue"
  | .valueValidation => "ValueValidation"
  | .argumentConflict => "ArgumentConflict"
  | .tooManyValues => "TooManyValues"
  | .invalidSubcommand => "InvalidSubcommand"
  | .missingSubcommand => "MissingSubcommand"
  | .help => "DisplayHelp"

def Kind.read (kind : Kind) (s : String) : Except Refusal Value :=
  match kind with
  | .path => if s.isEmpty then .error .invalidValue else .ok (.text s)
  | .text => .ok (.text s)
  | .truth =>
    if s == "true" then .ok (.truth true)
    else if s == "false" then .ok (.truth false)
    else .error .invalidValue
  | .number signed range =>
    let n := if signed then integer? s else (natural? s).map fun n => (n : Int)
    match n.filter fun n => range.least ≤ n && n ≤ range.greatest with
    | some n => .ok (.number n.toNat)
    | none => .error .valueValidation

/-- The options read so far, under their long names. -/
abbrev Given := List (String × Value)

def Given.find? (given : Given) (long : String) : Option Value :=
  (List.find? (·.1 == long) given).map (·.2)

/-- Where the reading of a command line stands: the options read, and an option whose value may
follow, with that value once it is there. -/
structure State where
  given : Given := []
  pending : Option (Flag × Option String) := none

structure Parsed where
  given : Given
  subcommand : Option (String × List String) := none

namespace State

/-- Takes the value of an option. An option may be given once only. -/
def take (s : State) (flag : Flag) (value : String) : Except Refusal State :=
  if (s.given.find? flag.long).isSome then .error .argumentConflict
  else do
    let v ← flag.kind.read value
    return { s with given := s.given ++ [(flag.long, v)] }

def settle (s : State) : Except Refusal State :=
  match s.pending with
  | none => .ok s
  | some (_, none) => .error .invalidValue
  | some (flag, some value) => take { s with pending := none } flag value

def openFlag (s : State) (flag : Flag) (attached : Option String) : Except Refusal State := do
  let s ← s.settle
  match attached with
  | some value => s.take flag value
  | none => return { s with pending := some (flag, none) }

/-- Whether an option is still without a value. -/
def waits (s : State) : Bool :=
  match s.pending with
  | some (_, none) => true
  | _ => false

def fill (s : State) (value : String) : State :=
  { s with pending := s.pending.map fun (flag, _) => (flag, some value) }

def askHelp (s : State) : Except Refusal State := do
  let _ ← s.settle
  throw .help

end State

structure Program where
  flags : List Flag
  subcommands : List String := []

namespace Program

variable (program : Program)

def long (s : State) (body : List Char) : Except Refusal State :=
  let name := body.takeWhile (· != '=')
  let attached := match body.drop name.length with
    | [] => none
    | _ :: value => some (String.ofList value)
  match program.flags.find? (·.long.toList == name) with
  | some flag => s.openFlag flag attached
  | none =>
    if name == "help".toList then
      if attached.isSome then .error .tooManyValues else s.askHelp
    else .error .unknownArgument

/-- An option with one dash; the characters after its letter are its value. -/
def short (s : State) (letter : Char) (rest : List Char) : Except Refusal State :=
  match program.flags.find? (·.short == some letter) with
  | some flag =>
    s.openFlag flag (match rest with
      | [] => none
      | '=' :: value => some (String.ofList value)
      | value => some (String.ofList value))
  | none => if letter == 'h' then s.askHelp else .error .unknownArgument

def stray : Refusal :=
  if program.subcommands.isEmpty then .unknownArgument else .invalidSubcommand

def read : State → List String → Except Refusal Parsed
  | s, [] => do
    let s ← s.settle
    return { given := s.given }
  | s, arg :: args =>
    if !s.waits && (program.subcommands.contains arg || (arg == "help" && !program.subcommands.isEmpty))
    then do
      let s ← s.settle
      return { given := s.given, subcommand := some (arg, args) }
    else match arg.toList with
      | ['-', '-'] =>
        if args.isEmpty then do
          let s ← s.settle
          return { given := s.given }
        else .error program.stray
      | '-' :: '-' :: body => do
        let s ← program.long s body
        read s args
      | '-' :: letter :: rest => do
        let s ← program.short s letter rest
        read s args
      | _ => if s.waits then read (s.fill arg) args else .error program.stray

/-- Reads a command line without its first word. -/
def parse (args : List String) : Except Refusal Parsed := program.read {} args

end Program

end WalletBridge.Command
