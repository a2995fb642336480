import WalletBridge.Proofs.Config.Bounds
import WalletBridge.Proofs.Daemon.Tasks

/-!
# The deadline for giving back

A run sets its deadline when it begins to give back: the time that the clock shows then, and the
seconds of its settings. The check of a configuration puts no upper bound on these seconds, and the
clock has one. Where the sum is past that bound, the run breaks off with everything it holds.
-/

namespace WalletBridge.Daemon

open Config Lifecycle

/-- A run that broke off before it gave anything back. -/
structure Stranded (s : Surroundings) (settings : Settings) (tree : Os.FileTree) (o : Outcome) :
    Prop where
  verdict : o.verdict = .broken
  /-- It holds everything that it took. -/
  ledger : o.deeds.filter Deed.keeps = taken s settings tree
  phases : o.progress.history.phases.getLast? = some .shuttingDown

/-- A run that gave back what it took. -/
structure Settles (s : Surroundings) (settings : Settings) (tree : Os.FileTree)
    (network : Net.Network) (result : Except Failure Unit) (deadline : Nat) (o : Outcome) :
    Prop where
  verdict : o.verdict = .returned result
  balanced : Balanced s settings tree network o
  tasks : TasksLeft s settings tree network deadline o.progress
  phases : o.progress.history.phases.getLast? = some .terminated

section
variable {s : Surroundings} {settings : Settings} {tree : Os.FileTree} {network : Net.Network}
  {result : Except Failure Unit} {p : Progress}

theorem settles_of_conclusion (hc : conclusion s settings tree network = some (result, p))
    (hfits : s.uptime + p.now / 1000 + settings.app.shutdownTimeout ≤ lastSecond) :
    Settles s settings tree network result (p.now + settings.app.shutdownTimeout * 1000)
      (run s settings tree network) := by
  have hnotLate := Nat.not_lt.mpr hfits
  have hverdict : (run s settings tree network).verdict = .returned result := by
    rw [run_of_conclusion hc, finishRun_eq, if_neg hnotLate]
  rcases run_settled s settings tree network with
    ⟨_, _, hclosed⟩ | ⟨hbroken, _⟩ | ⟨hendless, _⟩
  · refine ⟨hverdict, hclosed.balanced, tasksLeft_of_conclusion hc hnotLate, ?_⟩
    rw [hclosed.phases, phasesOf, List.getLast?_append]
    rfl
  · cases hbroken.symm.trans hverdict
  · cases hendless.symm.trans hverdict

theorem stranded_of_conclusion (hc : conclusion s settings tree network = some (result, p))
    (hlate : lastSecond < s.uptime + p.now / 1000 + settings.app.shutdownTimeout) :
    Stranded s settings tree (run s settings tree network) := by
  have held := (holding_of_conclusion hc).tended (still_tellResult result p).tended
  rw [run_of_conclusion hc, finishRun_eq, if_pos hlate]
  refine ⟨rfl, held.ledger, ?_⟩
  change ((p.tellResult result).history.advance .shuttingDown).phases.getLast? = _
  rw [held.history]
  cases configures s settings.app tree <;> cases constructs s settings.app network <;> rfl

end

/-- For every checked configuration and every run with it: it gives back everything, and returns,
just when its deadline does not lie past the last second that the clock can show. Else it breaks off
and gives back nothing. -/
theorem deadline_judged {home : Option String} {settings : Settings}
    (haccepted : Accepted home settings) (s : Surroundings) (tree : Os.FileTree)
    (network : Net.Network) :
    (0 < settings.app.shutdownTimeout ∧ settings.app.shutdownTimeout < 2 ^ 64 ∧
      (2 ^ 63 ≤ settings.app.shutdownTimeout → ∃ args parsed,
        daemonProgram.parse args = .ok parsed ∧
        parsed.given.find? "shutdown-timeout-secs" =
          some (.number settings.app.shutdownTimeout))) ∧
    ∀ result p, conclusion s settings tree network = some (result, p) →
      (s.uptime + p.now / 1000 + settings.app.shutdownTimeout ≤ lastSecond →
        Settles s settings tree network result (p.now + settings.app.shutdownTimeout * 1000)
          (run s settings tree network)) ∧
      (lastSecond < s.uptime + p.now / 1000 + settings.app.shutdownTimeout →
        Stranded s settings tree (run s settings tree network)) :=
  ⟨haccepted.timeout, fun _ _ hc => ⟨settles_of_conclusion hc, stranded_of_conclusion hc⟩⟩

/-- The defaults for somebody's home directory, with a time for giving back. -/
def timed (seconds : Nat) : Settings where
  app := { dataDirectory := "/home/u/.skycoin-hw-daemon", shutdownTimeout := seconds }

/-- A flag with a usual time, and a server that shuts down too late. -/
theorem deadline_judged_hung :
    Accepted (some "/home/u") (timed 5) ∧
    ∃ p, conclusion hungServer (timed 5) {} namelessNetwork = some (.ok (), p) ∧
      Settles hungServer (timed 5) {} namelessNetwork (.ok ()) (p.now + 5 * 1000)
        (run hungServer (timed 5) {} namelessNetwork) := by
  have hload : fromCommandLine (some "/home/u") (fun _ => .error .notFound)
      [("shutdown-timeout-secs", .number 5)] = .ok (timed 5) := by decide +kernel
  have hparse : daemonProgram.parse ["--shutdown-timeout-secs", "5"] =
      .ok { given := [("shutdown-timeout-secs", .number 5)] } := by rfl
  have haccepted : Accepted (some "/home/u") (timed 5) := .commandLine hparse hload
  obtain ⟨-, hjudged⟩ := deadline_judged haccepted hungServer {} namelessNetwork
  refine ⟨haccepted, _, rfl, ?_⟩
  exact (hjudged (.ok ()) _ rfl).1 (by decide +kernel)

/-- The greatest time that a flag can give is accepted, and so is the greatest that a file can give;
with the one a run breaks off at any time, with the other a second after the start of the machine,
and its server is not asked to shut down. -/
theorem accepted_timeout_strands :
    let flag := timed 18446744073709551615
    let file := timed 9223372036854775807
    daemonProgram.parse ["--shutdown-timeout-secs", "18446744073709551615"] =
      .ok { given := [("shutdown-timeout-secs", .number 18446744073709551615)] } ∧
    fromCommandLine (some "/home/u") (fun _ => .error .notFound)
      [("shutdown-timeout-secs", .number 18446744073709551615)] = .ok flag ∧
    parse (some "/home/u") "[app]\nshutdown_timeout_secs = 9223372036854775807\n" = .ok file ∧
    (run hungServer flag {} namelessNetwork).verdict = .broken ∧
    (run { hungServer with uptime := 1 } file {} namelessNetwork).verdict = .broken ∧
    .shutDown ∉ (run hungServer flag {} namelessNetwork).deeds := by
  refine ⟨rfl, ?_, ?_, rfl, rfl, ?_⟩ <;> decide +kernel

end WalletBridge.Daemon
