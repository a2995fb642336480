import WalletBridge.Binary64.Decimal
import WalletBridge.Text.Quoted

/-!
# Values of a settings file

A settings file holds texts, numbers, truth values, points in time, lists and tables.
-/

namespace WalletBridge.Toml

open Text

inductive Real where
  | finite (x : Binary64)
  | infinite (negative : Bool)
  | notANumber
deriving DecidableEq, Repr

def Real.text : Real → String
  | .finite x => x.positionalText
  | .infinite false => "inf"
  | .infinite true => "-inf"
  | .notANumber => "NaN"

/-- A value. The date and time of a moment do not matter to any setting. -/
inductive Value where
  | text (s : String)
  | whole (n : Int)
  | real (x : Real)
  | truth (b : Bool)
  | moment
  | list (items : List Value)
  | table (members : List (String × Value))
deriving Repr, Inhabited

def Value.describe : Value → String
  | .text s => "string " ++ quoted s
  | .whole n => "integer `" ++ signedDecimal n ++ "`"
  | .real x => "floating point `" ++ x.text ++ "`"
  | .truth b => "boolean `" ++ (if b then "true" else "false") ++ "`"
  | .moment => "map"
  | .list _ => "sequence"
  | .table _ => "map"

end WalletBridge.Toml
