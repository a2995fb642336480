import WalletBridge.Device.Call
import WalletBridge.Device.Mode

/-!
# The way to a device

A `Link` carries one message to the device and brings back its reply, after a while or never. Its
state is whatever lies behind it. `Script` is a link whose replies are fixed in advance.
-/

namespace WalletBridge.Device

/-- What comes back, and after how many milliseconds. -/
structure Answer where
  after : Nat := 0
  result : Except Error Reply

structure Link (σ : Type) where
  /-- Sends one message; `none` when nothing ever comes back. -/
  exchange : Request → σ → Option Answer × σ
  /-- Whether a message is sent to find out if a device is there. Without it none ever is. -/
  asks : Bool := true

structure Finished where
  after : Nat := 0
  result : Except Error Value
  /-- What the statistics count, if anything. -/
  counted : Option Bool := none

namespace Call

/-- Makes a call over a link; `none` when it never ends. -/
def perform (link : Link σ) (call : Call) (state : σ) : Option Finished × σ :=
  if call == .available && !link.asks then (some { result := .ok (.truth false) }, state)
  else
    let (answer, state) := link.exchange call.request state
    (answer.map fun answer =>
      { after := answer.after
        result := call.conclude answer.result
        counted := call.counted answer.result }, state)

end Call

/-- The link to a device attached over USB; there is none. -/
def usbLink : Link σ where
  exchange _ state := (some { result := .error (.notConnected "no USB device found") }, state)
  asks := false

/-- Replies fixed in advance, and the messages sent so far, last first. -/
structure Script where
  replies : List (Option Answer)
  sent : List Request := []

namespace Script

def link : Link Script where
  exchange request script :=
    let sent := request :: script.sent
    match script.replies with
    | [] => (some { result := .error (.notConnected "script exhausted") }, { script with sent })
    | reply :: replies => (reply, { replies, sent })

end Script

end WalletBridge.Device
