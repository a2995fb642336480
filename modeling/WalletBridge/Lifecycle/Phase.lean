/-!
# Phases of a run

A run goes through its phases in one direction. A history records every phase that was entered.
-/

namespace WalletBridge.Lifecycle

inductive Phase where
  | init
  | configuring
  | starting
  | running
  | shuttingDown
  | terminated
deriving DecidableEq, Repr

namespace Phase

def rank : Phase → Nat
  | .init => 0
  | .configuring => 1
  | .starting => 2
  | .running => 3
  | .shuttingDown => 4
  | .terminated => 5

def name : Phase → String
  | .init => "init"
  | .configuring => "configuring"
  | .starting => "starting"
  | .running => "running"
  | .shuttingDown => "shutting_down"
  | .terminated => "terminated"

def all : List Phase := [.init, .configuring, .starting, .running, .shuttingDown, .terminated]

def ofName? (s : String) : Option Phase := all.find? (·.name == s)

theorem rank_injective {a b : Phase} (h : a.rank = b.rank) : a = b := by
  cases a <;> cases b <;> first | rfl | simp [rank] at h

end Phase

/-- The phases entered so far, the latest first. -/
structure History where
  current : Phase := .init
  earlier : List Phase := []
deriving DecidableEq, Repr

namespace History

/-- The phases entered so far, in order. -/
def phases (h : History) : List Phase := (h.current :: h.earlier).reverse

/-- Moves on to a later phase; an earlier one is ignored. -/
def advance (h : History) (next : Phase) : History :=
  if h.current.rank < next.rank then { current := next, earlier := h.current :: h.earlier } else h

end History

end WalletBridge.Lifecycle
