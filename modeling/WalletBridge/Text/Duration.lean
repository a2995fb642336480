import WalletBridge.Text.Decimal

/-!
# Spans of time

How a span of whole milliseconds is shown: in seconds from one second on, with only as many
decimals as it needs.
-/

namespace WalletBridge.Text

/-- The digits after the point for thousandths, without zeros at the end. -/
def thousandths (n : Nat) : List Char :=
  ((padded 3 n).toList.reverse.dropWhile (· == '0')).reverse

def durationText (ms : Nat) : String :=
  if ms == 0 then "0ns"
  else if ms < 1000 then decimal ms ++ "ms"
  else
    let fraction := thousandths (ms % 1000)
    decimal (ms / 1000) ++ String.ofList (if fraction.isEmpty then [] else '.' :: fraction) ++ "s"

end WalletBridge.Text
