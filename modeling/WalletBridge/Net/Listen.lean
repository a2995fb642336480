import WalletBridge.Net.Address
import WalletBridge.Os.Error

/-!
# Listening at an address

The text of an address is an address with a port, or a name with a port that has to be looked up.
Of two listeners at the same port only one can be at every address, and no two at the same one.
-/

namespace WalletBridge.Net

open Text

structure Network where
  /-- What listens already. -/
  listening : List SocketAddress := []
  /-- The next port that is given to a listener that did not ask for one. -/
  freePort : Nat := 40000
  lookUp : String → Except Os.Error Ip
  /-- Why nothing can listen at an address, if so. -/
  refusal : Ip → Option Os.Error := fun _ => none

def Network.target (n : Network) (host : String) : Except Os.Error SocketAddress :=
  match SocketAddress.ofText? host with
  | some a => .ok a
  | none =>
    match splitLastColon host.toList with
    | none => .error (.reason "invalid socket address")
    | some (name, port) =>
      match naturalUpTo? 65535 (String.ofList port) with
      | none => .error (.reason "invalid port value")
      | some port =>
        if name.contains '\x00' then .error .strayNul
        else (n.lookUp (String.ofList name)).map fun ip => { ip, port }

/-- An address in its short form, if it has one. -/
def Ip.shortest : Ip → Ip
  | .v6 [0, 0, 0, 0, 0, 0xFFFF, h, l] _ => .v4 (h / 256) (h % 256) (l / 256) (l % 256)
  | ip => ip

/-- Whether a listener at the first address gets what is sent to the second. An address of zeros
stands for every address of its kind, and a long one for the short ones too. -/
def Ip.covers : Ip → Ip → Bool
  | .v4 0 0 0 0, .v4 .. => true
  | .v4 a b c d, ip => ip == .v4 a b c d
  | .v6 groups scope, ip => groups.all (· == 0) || ip == .v6 groups scope

def SocketAddress.clashes (a b : SocketAddress) : Bool :=
  let (x, y) := (a.ip.shortest, b.ip.shortest)
  a.port == b.port && (x.covers y || y.covers x)

def Network.listen (n : Network) (host : String) : Except Os.Error (SocketAddress × Network) := do
  let a ← n.target host
  match n.refusal a.ip with
  | some e => throw e
  | none =>
    let (a, n) : SocketAddress × Network :=
      if a.port == 0 then ({ a with port := n.freePort }, { n with freePort := n.freePort + 1 })
      else (a, n)
    if n.listening.any a.clashes then throw .addressInUse
    else return (a, { n with listening := n.listening ++ [a] })

def Network.release (n : Network) (a : SocketAddress) : Network :=
  { n with listening := n.listening.filter (· != a) }

end WalletBridge.Net
