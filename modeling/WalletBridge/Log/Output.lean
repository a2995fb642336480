import WalletBridge.Log.Line
import WalletBridge.Os.FileTree

/-!
# Where the log goes

Events that pass the chosen level are written to the terminal, in colours or without, and to a file
while one is attached. Attaching and detaching loses nothing: what is written while no file is
attached is written to the terminal alone.
-/

namespace WalletBridge.Log

open Os

structure FileSlot where
  file : Option OpenFile := none
deriving DecidableEq, Repr

namespace FileSlot

def attach (_ : FileSlot) (file : OpenFile) : FileSlot := { file := some file }

def detach (s : FileSlot) : Option OpenFile × FileSlot := (s.file, {})

/-- Writes to the file: the number of bytes taken. Without a file all are taken and dropped. -/
def write (s : FileSlot) (t : FileTree) (bytes : Bytes) : Except Os.Error (Nat × FileTree) :=
  match s.file with
  | none => .ok (bytes.length, t)
  | some file => (file.write t bytes).map fun t => (bytes.length, t)

/-- Writes everything to the file, or drops it without one. -/
def writeAll (s : FileSlot) (t : FileTree) (bytes : Bytes) : Except Os.Error FileTree :=
  match s.file with
  | none => .ok t
  | some file => file.writeAll t bytes

end FileSlot

structure Output where
  level : Level := .info
  colours : Bool := true
  slot : FileSlot := {}
deriving DecidableEq, Repr

inductive Act where
  | setLevel (level : Level)
  | setColours (on : Bool)
  | attach (file : OpenFile)
  | detach
  | emit (line : Line)
deriving DecidableEq, Repr

structure Written where
  /-- The line on the terminal, if an event passed. -/
  line : Option String := none
  /-- Whether the line is coloured. -/
  coloured : Bool := false
  /-- The file that was let go. -/
  file : Option OpenFile := none
deriving DecidableEq, Repr

namespace Output

/-- Writes an event to the terminal and the file. A file that refuses it is ignored. -/
def emit (o : Output) (t : FileTree) (event : Line) : Written × FileTree :=
  if event.level.passes o.level then
    let line := event.text
    let t := match o.slot.writeAll t (Text.utf8 (line ++ "\n")) with
      | .ok t => t
      | .error _ => t
    ({ line := some line, coloured := o.colours }, t)
  else ({}, t)

def act (o : Output) (t : FileTree) : Act → Output × FileTree × Written
  | .setLevel level => ({ o with level }, t, {})
  | .setColours colours => ({ o with colours }, t, {})
  | .attach file => ({ o with slot := o.slot.attach file }, t, {})
  | .detach =>
    let (file, slot) := o.slot.detach
    ({ o with slot }, t, { file })
  | .emit line =>
    let (written, t) := o.emit t line
    (o, t, written)

/-- Does several things with the log: the lines on the terminal. -/
def run (o : Output) (t : FileTree) : List Act → Output × FileTree × List String
  | [] => (o, t, [])
  | a :: acts =>
    let (o, t, written) := o.act t a
    let (o, t, lines) := o.run t acts
    (o, t, written.line.toList ++ lines)

end Output

end WalletBridge.Log
