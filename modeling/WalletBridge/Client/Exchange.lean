import WalletBridge.Http.Uri
import WalletBridge.Text.Utf8

/-!
# What the client sends and takes

One question on a connection of its own, in the oldest form of HTTP that names its host, so that
the end of the answer is the end of the connection.
-/

namespace WalletBridge.Client

open Http Text

structure Destination where
  /-- Host and port, as they are looked up. -/
  host : String
  /-- The host as the address of the question names it. -/
  authority : String
  path : String
deriving DecidableEq, Repr

/-- The destination of an address; only plain HTTP is spoken. -/
def Destination.ofUrl? (url : String) : Option Destination := do
  let uri ← Uri.parse? url.toList
  if uri.scheme != some "http" then none
  else
    let host ← uri.hostAndPort?
    return { host, authority := String.ofList uri.authority, path := String.ofList uri.path }

def Destination.question (d : Destination) : Bytes :=
  utf8 ("GET " ++ d.path ++ " HTTP/1.0\r\nHost: " ++ d.authority
    ++ "\r\nAccept: */*\r\nConnection: close\r\n\r\n")

def bodyOf : Bytes → Bytes
  | 13 :: 10 :: 13 :: 10 :: body => body
  | _ :: rest => bodyOf rest
  | [] => []

/-- The status and the body of an answer; `none` when it is no answer. -/
def readAnswer (bytes : Bytes) : Option (Nat × Bytes) :=
  let first := bytes.takeWhile (· != 13)
  match (ofUtf8Lossy first).splitOn " " with
  | version :: status :: _ =>
    if version.startsWith "HTTP/1." then
      (naturalUpTo? 999 status).map fun status => (status, bodyOf bytes)
    else none
  | _ => none

end WalletBridge.Client
