import WalletBridge.Device.Link
import WalletBridge.Text.Duration

/-!
# The firmware emulator

Every exchange opens a socket of its own, sends one datagram and waits for one. What the network
does with them is a `Wire`.
-/

namespace WalletBridge.Device

open Json Text

def emulatorPort : Nat := 21324

def largestDatagram : Nat := 65536

structure Emulator where
  address : String := "127.0.0.1:" ++ decimal emulatorPort
  /-- The longest wait for a reply, in milliseconds. -/
  patience : Nat := 5000

/-- What the network does in one exchange. -/
structure Wire where
  bind : Except Os.Error Unit := .ok ()
  connect : Except Os.Error Unit := .ok ()
  send : Except Os.Error Unit := .ok ()
  /-- The first thing that comes back, and after how many milliseconds. -/
  receive : Option (Nat × Except Os.Error Bytes) := none

namespace Emulator

def failed (e : Emulator) (error : Os.Error) : Error :=
  if error == .connectionRefused then
    .notConnected ("emulator at " ++ e.address ++ " refused connection")
  else .transport error

def silent (e : Emulator) : Error :=
  .notConnected
    ("no response from emulator at " ++ e.address ++ " within " ++ durationText e.patience)

def datagram (request : Request) : Bytes := encode Request.codec request

def exchange (e : Emulator) (wire : Wire) : Answer :=
  match wire.bind, wire.connect, wire.send with
  | .error error, _, _ => { result := .error (.transport error) }
  | _, .error error, _ => { result := .error (.transport error) }
  | _, _, .error error => { result := .error (e.failed error) }
  | .ok _, .ok _, .ok _ =>
    match wire.receive with
    | none => { after := e.patience, result := .error e.silent }
    | some (after, received) =>
      if e.patience < after then { after := e.patience, result := .error e.silent }
      else match received with
        | .error error => { after, result := .error (e.failed error) }
        | .ok bytes => { after, result := Reply.decode (bytes.take largestDatagram) }

def link (e : Emulator) (network : Bytes → σ → Wire × σ) : Link σ where
  exchange request state :=
    let (wire, state) := network (datagram request) state
    (some (e.exchange wire), state)

end Emulator

def Mode.link (mode : Mode) (network : Bytes → σ → Wire × σ) : Link σ :=
  match mode with
  | .usb => usbLink
  | .emulator => Emulator.link {} network

end WalletBridge.Device
