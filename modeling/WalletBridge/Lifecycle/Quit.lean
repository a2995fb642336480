/-!
# Quit notifications

A notification fires once and stays fired. A child of a notification fires with it, but can also
be fired by itself. Any number of handles may stand for one notification.
-/

namespace WalletBridge.Lifecycle

/-- One notification: the one it is a child of, and whether it has fired. -/
structure Notice where
  parent : Option Nat
  fired : Bool
deriving DecidableEq, Repr

/-- All notifications, the oldest first, so that a child stands after its parent; and the
notification that each handle stands for. -/
structure Quits where
  notices : List Notice := []
  handles : List Nat := []
deriving DecidableEq, Repr

namespace Quits

def noticeFired (notices : List Notice) (n : Nat) : Bool :=
  match notices[n]? with
  | some notice => notice.fired
  | none => false

def noticeOf (q : Quits) (handle : Nat) : Nat := q.handles.getD handle q.notices.length

def isTriggered (q : Quits) (handle : Nat) : Bool := noticeFired q.notices (q.noticeOf handle)

def new (q : Quits) : Quits where
  notices := q.notices ++ [{ parent := none, fired := false }]
  handles := q.handles ++ [q.notices.length]

def clone (q : Quits) (handle : Nat) : Quits :=
  { q with handles := q.handles ++ [q.noticeOf handle] }

/-- A new child of a handle's notification. The child of one that has fired has fired too. -/
def child (q : Quits) (handle : Nat) : Quits where
  notices := q.notices ++ [{ parent := some (q.noticeOf handle), fired := q.isTriggered handle }]
  handles := q.handles ++ [q.notices.length]

/-- Whether a notification fires when number `n` does: it is that one, or its parent, which stands
among the `before`, has fired. -/
def fires (n index : Nat) (before : List Notice) (notice : Notice) : Bool :=
  notice.fired || index == n ||
    match notice.parent with
    | some p => noticeFired before p
    | none => false

/-- Fires notification `n` and everything below it; `before` holds those already gone through. -/
def fireFrom (n : Nat) : List Notice → List Notice → List Notice
  | before, [] => before
  | before, notice :: rest =>
    fireFrom n (before ++ [{ notice with fired := fires n before.length before notice }]) rest

def trigger (q : Quits) (handle : Nat) : Quits :=
  { q with notices := fireFrom (q.noticeOf handle) [] q.notices }

end Quits

end WalletBridge.Lifecycle
