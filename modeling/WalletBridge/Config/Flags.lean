import WalletBridge.Command.Arguments
import WalletBridge.Config.File

/-!
# Settings from flags

Every setting has a flag of its name, with dashes for its underscores. A flag outweighs the file
that `--config` names, and the file outweighs the default.
-/

namespace WalletBridge.Config

open Command Json

def flagName (name : String) : String :=
  String.ofList (name.toList.map fun c => if c == '_' then '-' else c)

/-- What the value of a setting's flag must be. Numbers of 64 bits have no sign. -/
def Slot.kind : Slot ρ → Kind
  | .text .. => .text
  | .truth .. => .truth
  | .number range .. => .number (range.greatest < 0x8000000000000000) range

def daemonProgram : Program where
  flags :=
    { long := "config", short := some 'c', kind := .path } ::
      App.fields.map fun f => { long := flagName f.name, kind := f.slot.kind }

def Slot.fromFlag (slot : Slot ρ) (v : Value) (r : ρ) : ρ :=
  match slot, v with
  | .text _ set, .text s => set r s
  | .truth _ set, .truth b => set r b
  | .number _ _ set, .number n => set r n
  | _, _ => r

/-- Puts the flags over the settings. -/
def withFlags (given : Given) (fields : List (Field App)) (app : App) : App :=
  fields.foldl (fun app f =>
    match given.find? (flagName f.name) with
    | some v => f.slot.fromFlag v app
    | none => app) app

def Settings.set (s : Settings) (name : String) (v : Value) : Settings where
  app := match App.fields.find? (·.name == name) with
    | some f => f.slot.fromFlag v s.app
    | none => s.app
  build := match Build.fields.find? (·.name == name) with
    | some f => f.slot.fromFlag v s.build
    | none => s.build

def configPath (given : Given) : Option String :=
  match given.find? "config" with
  | some (.text path) => some path
  | _ => none

/-- The configuration of a command line. `file` is what reading the named file gives. -/
def fromCommandLine (home : Option String) (file : String → Except Os.Error Bytes)
    (given : Given) : Except Failure Settings := do
  let s ← match configPath given with
    | none => pure {}
    | some path => load home (file path)
  finish home { s with app := withFlags given App.fields s.app }

end WalletBridge.Config
