import WalletBridge.Command.Arguments
import WalletBridge.Http.Status
import WalletBridge.Json.Codec

/-!
# The command line client

Asks a running bridge one question and shows its answer: the JSON of a good one, indented, on the
output, and status and text of any other among the errors.
-/

namespace WalletBridge.Client

open Command Text

inductive Query where
  | version
  | available
  | features
  | csrf
deriving DecidableEq, Repr

namespace Query

def name : Query → String
  | .version => "version"
  | .available => "available"
  | .features => "features"
  | .csrf => "csrf"

def all : List Query := [.version, .available, .features, .csrf]

def ofName? (s : String) : Option Query := all.find? (·.name == s)

end Query

def clientProgram : Program where
  flags := [{ long := "url", short := some 'u', kind := .text }]
  subcommands := Query.all.map Query.name

/-- Where the bridge is unless the command line says otherwise. -/
def defaultUrl : String := "http://127.0.0.1:9510"

structure Wish where
  url : String
  query : Query
deriving DecidableEq, Repr

/-- Reads the arguments of `help`: at most one subcommand, or help itself. -/
def readHelp : List String → Refusal
  | [] => .help
  | [name] =>
    if clientProgram.subcommands.contains name || name == "help" then .help else .invalidSubcommand
  | _ => .invalidSubcommand

def Wish.parse (args : List String) : Except Refusal Wish := do
  let parsed ← clientProgram.parse args
  match parsed.subcommand with
  | none => throw .missingSubcommand
  | some (name, rest) =>
    match Query.ofName? name with
    | none => throw (readHelp rest)
    | some query =>
      let none : Program := { flags := [] }
      let _ ← none.parse rest
      let url := match parsed.given.find? "url" with
        | some (.text url) => url
        | _ => defaultUrl
      return { url, query }

def withoutSlashes (s : String) : String :=
  String.ofList (s.toList.reverse.dropWhile (· == '/')).reverse

def Wish.target (w : Wish) : String := withoutSlashes w.url ++ "/api/v1/" ++ w.query.name

/-- Puts a member among members that are sorted by their names; of two with one name the later one
stays. -/
def putMember (name : String) (value : Json) : List (String × Json) → List (String × Json)
  | [] => [(name, value)]
  | (other, v) :: rest =>
    if name == other then (name, value) :: rest
    else if name < other then (name, value) :: (other, v) :: rest
    else (other, v) :: putMember name value rest

mutual

/-- A value whose objects have their members sorted by name, each name once. -/
def tidy : Json → Json
  | .list items => .list (tidyItems items)
  | .object members => .object (tidyMembers [] members)
  | v => v

def tidyItems : List Json → List Json
  | [] => []
  | item :: items => tidy item :: tidyItems items

def tidyMembers (sorted : List (String × Json)) : List (String × Json) → List (String × Json)
  | [] => sorted
  | (name, value) :: members => tidyMembers (putMember name (tidy value) sorted) members

end

structure Report where
  exit : Nat
  output : String := ""
  errors : String := ""
deriving DecidableEq, Repr

/-- Shows an answer; `none` is a good one that is no JSON. -/
def showAnswer (status : Nat) (body : Bytes) : Option Report :=
  if 200 ≤ status && status < 300 then
    match Json.decode Json.anything body with
    | .ok v => some { exit := 0, output := (tidy v).indented ++ "\n" }
    | .error _ => none
  else some {
    exit := 0
    errors := "Error: daemon returned status " ++ Http.statusText status
      ++ "\nResponse: " ++ ofUtf8Lossy body ++ "\n" }

end WalletBridge.Client
