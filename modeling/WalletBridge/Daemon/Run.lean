import WalletBridge.Daemon.Release
import WalletBridge.Daemon.Start

/-!
# One run of the daemon

Whatever ends a run, it gives back everything it took, and its first failure is what it returns. A
run that is never told to quit and whose server never ends does not return; and it breaks off when
the clock cannot show the deadline for giving back.
-/

namespace WalletBridge.Daemon

open Config Http Lifecycle

inductive Verdict where
  | returned (result : Except Failure Unit)
  /-- It broke off at the deadline that the clock cannot show. -/
  | broken
  | endless

structure Outcome where
  verdict : Verdict
  progress : Progress

def Outcome.deeds (o : Outcome) : List Deed := o.progress.deeds.reverse

/-- The greatest number of seconds that the clock can show. -/
def lastSecond : Nat := 0x7FFFFFFFFFFFFFFF

def finishRun (s : Surroundings) (settings : Settings) (result : Except Failure Unit)
    (p : Progress) : Outcome :=
  let p := match result with
    | .error failure => p.say .error "daemon" "Daemon run failed" [("error", failure.describe)]
    | .ok _ => p
  let p := p.enter .shuttingDown
  if lastSecond < s.uptime + p.now / 1000 + settings.app.shutdownTimeout then ⟨.broken, p⟩
  else
    let p := p.release settings.app.shutdownTimeout s.syncFailure
    ⟨.returned result, p.enter .terminated⟩

def run (s : Surroundings) (settings : Settings) (tree : Os.FileTree) (network : Net.Network) :
    Outcome :=
  let p : Progress := { tree, network }
  match start s settings (p.enter .configuring) with
  | .error stopped => finishRun s settings (.error stopped.failure) stopped.progress
  | .ok p =>
    match wait s p with
    | (.nothing, p) => ⟨.endless, p⟩
    | (occasion, p) =>
      let (result, p) := react p occasion
      finishRun s settings result p

end WalletBridge.Daemon
