import WalletBridge.Http.Server
import WalletBridge.Net.Listen

/-!
# Servers at an address

A server that has been set up listens at an address of the network, and gives it back once nobody
holds its listener any more.
-/

namespace WalletBridge.Http

open Net

def cannotListen (host : String) (e : Os.Error) : String :=
  "listen on " ++ host ++ " failed: " ++ e.describe

structure Hosted (ι : Type) where
  address : SocketAddress
  server : Server ι := {}
  served : List (ι × Except ServeError Unit) := []
  closed : List ι := []

namespace Hosted

variable {ι : Type} [DecidableEq ι]

def create (n : Network) (host : String) : Except String (Hosted ι × Network) :=
  match n.listen host with
  | .ok (address, n) => .ok ({ address }, n)
  | .error e => .error (cannotListen host e)

def note (h : Hosted ι) : Server.Effect ι → Hosted ι
  | .nothing => h
  | .served id result => { h with served := h.served ++ [(id, result)] }
  | .closed id => { h with closed := h.closed ++ [id] }

/-- A step of the server and everything that follows by itself while nobody is connected. -/
def act (h : Hosted ι) (n : Network) (e : Server.Event ι) : Hosted ι × Network :=
  let (server, effects) := h.server.settle e
  let closes := h.server.isOpen && !server.isOpen
  (effects.foldl note { h with server }, if closes then n.release h.address else n)

def result? (h : Hosted ι) (id : ι) : Option (Except ServeError Unit) :=
  (h.served.find? (·.1 == id)).map (·.2)

end Hosted

end WalletBridge.Http
