import WalletBridge.Command.Arguments

/-!
# How a program is called

The text that answers the request for help, with one line for each option.
-/

namespace WalletBridge.Command

def Kind.placeholder : Kind → String
  | .path => "<PATH>"
  | .text => "<TEXT>"
  | .truth => "<true|false>"
  | .number .. => "<NUMBER>"

def Flag.usage (flag : Flag) : String :=
  let short := match flag.short with
    | some letter => "-" ++ String.singleton letter ++ ", "
    | none => "    "
  "  " ++ short ++ "--" ++ flag.long ++ " " ++ flag.kind.placeholder

def Program.usage (program : Program) (name : String) : String :=
  let subcommands := match program.subcommands with
    | [] => ""
    | names => " <" ++ String.intercalate "|" names ++ ">"
  String.intercalate "\n"
    (("Usage: " ++ name ++ " [OPTIONS]" ++ subcommands) :: program.flags.map Flag.usage)

end WalletBridge.Command
