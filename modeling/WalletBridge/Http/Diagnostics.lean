import WalletBridge.Http.Service
import WalletBridge.Text.Quoted

/-!
# Looking into a running bridge

A second interface shows the counters, figures of the running program and where a thread is. It is
open to everybody who can reach it, and changes nothing.
-/

namespace WalletBridge.Http

open Json Observe Text

structure Figures where
  workers : Nat := 0
  aliveTasks : Nat := 0
  /-- The tasks that wait for a worker. -/
  queueDepth : Nat := 0
deriving DecidableEq, Repr

namespace Figures

def members (f : Figures) : List (String × Nat) :=
  [("workers", f.workers), ("alive_tasks", f.aliveTasks), ("global_queue_depth", f.queueDepth)]

def toJson (f : Figures) : Json :=
  .object (f.members.map fun (name, n) => (name, .natural n))

end Figures

/-- The first line of a picture of where a thread is; what follows depends on the machine. -/
def threadTitle (thread : String) : String := "thread " ++ quoted thread ++ " backtrace:"

inductive Page where
  | metrics
  | figures
  | thread
deriving DecidableEq, Repr

structure Sight where
  /-- The counters, if they are kept. -/
  counters : Option Counters
  figures : Figures
  thread : String

namespace Page

def ofPath? (path : String) : Option Page :=
  match path with
  | "/metrics" => some .metrics
  | "/debug/runtime" => some .figures
  | "/debug/backtrace" => some .thread
  | _ => none

def plain (body : String) : Response where
  status := 200
  headers := [("content-type", "text/plain; charset=utf-8")]
  body

def render (sight : Sight) : Page → Response
  | .metrics =>
    plain (match sight.counters with
      | some counters => String.intercalate "\n" counters.lines
      | none => "")
  | .figures => .ofJson 200 sight.figures.toJson
  | .thread => plain (threadTitle sight.thread)

end Page

def pageMethods : List String := ["GET", "HEAD"]

def answerPage (sight : Sight) (method path : String) : Response :=
  match Page.ofPath? path with
  | none => { status := 404 }
  | some page =>
    if !pageMethods.contains method then
      { status := 405, headers := [("allow", String.intercalate "," pageMethods)] }
    else
      let response := page.render sight
      if method == "HEAD" then { response with body := "" } else response

end WalletBridge.Http
