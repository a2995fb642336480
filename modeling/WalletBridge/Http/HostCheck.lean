import WalletBridge.Http.Header
import WalletBridge.Http.Uri

/-!
# Which hosts a request may name

A request must name the bound address, a name of this machine with the bound port, or a host of
the list; where it says that it comes from must be such a host too.
-/

namespace WalletBridge.Http

open Net

structure AllowedHosts where
  hosts : List String
deriving DecidableEq, Repr

namespace AllowedHosts

def loopbackNames : List String := ["localhost", "127.0.0.1", "[::1]"]

def make (bound : SocketAddress) (whitelist : List String) : AllowedHosts where
  hosts :=
    (loopbackNames.map fun name => name ++ ":" ++ Text.decimal bound.port)
      ++ [bound.text] ++ whitelist.map lower

def contains (allowed : AllowedHosts) (host : String) : Bool := allowed.hosts.contains (lower host)

def allowsUrl (allowed : AllowedHosts) (url : String) : Bool :=
  match (Uri.parse? url.toList).bind Uri.hostAndPort? with
  | some host => allowed.contains host
  | none => false

def checkSource (allowed : AllowedHosts) (headers : Headers) (name : String) :
    Except String Unit :=
  match headers.first? name with
  | none => .ok ()
  | some value =>
    let url := (Headers.visible? value).getD ""
    if allowed.allowsUrl url then .ok () else .error ("invalid " ++ name ++ " header: " ++ url)

def check (allowed : AllowedHosts) (headers : Headers) : Except String Unit :=
  match headers.text? "host" with
  | none => .error "missing Host header"
  | some host =>
    if !allowed.contains host then .error ("invalid Host header: " ++ host)
    else do
      allowed.checkSource headers "origin"
      allowed.checkSource headers "referer"

end AllowedHosts

end WalletBridge.Http
