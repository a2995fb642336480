import WalletBridge.Config.Settings
import WalletBridge.Log.Moment
import WalletBridge.Os.FileTree

/-!
# Log files

A log file is named for the second in which its run began, so that names sort like time. It is
created for appending, together with the directory it lies in.
-/

namespace WalletBridge.Log

open Os Text

/-- The name of the log file of a run that began at that moment. -/
def fileName (m : Moment) : String :=
  Moment.yearText m.year ++ "-" ++ padded 2 m.month ++ "-" ++ padded 2 m.day ++ "-"
    ++ padded 2 m.hour ++ padded 2 m.minute ++ padded 2 m.second ++ ".log"

/-- Who may do what with a log file: its owner may read and write it. -/
def fileMode : Nat := 0o600

def directoryMode : Nat := 0o750

structure Created where
  path : String
  file : OpenFile

/-- Creates the log file of a run in a directory, which is made if it is missing. -/
def create (t : FileTree) (working : Place) (directory : String) (m : Moment) :
    FileTree × Except Os.Error Created :=
  match t.makeDirectory working directory directoryMode with
  | (t, .error e) => (t, .error e)
  | (t, .ok _) =>
    let path := Config.joinPath directory (fileName m)
    match t.openAppend working path fileMode with
    | .error e => (t, .error e)
    | .ok (t, place) => (t, .ok { path, file := { place } })

end WalletBridge.Log
