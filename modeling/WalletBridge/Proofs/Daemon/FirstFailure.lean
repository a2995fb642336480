import WalletBridge.Proofs.Daemon.Balance

/-!
# Which of two events a run returns

While a run waits, its serve loop may end by itself and the word to quit may come. The run takes
neither up when it happens but at its next turn, and what it finds by then decides: one of the two
alone, or both, in which case it may take either. So a failure that came first is returned unless
the word to quit comes before the run has had its turn.
-/

namespace WalletBridge.Daemon

open Config Lifecycle

/-- When and how the serve loop of a server ends that is never asked to stop. -/
def Service.ownEnd? (service : Service) : Option (Nat × Ending) :=
  match service.course with
  | .ends after ending => some (after, ending)
  | _ => none

/-! ## The first turn of the tasks -/

namespace Progress

theorem diagnosticsBegin_now (p : Progress) : p.diagnosticsBegin.now = p.now := by
  unfold diagnosticsBegin
  split
  · split <;> rfl
  · rfl

theorem diagnosticsEnd_now (p : Progress) : p.diagnosticsEnd.now = p.now := by
  unfold diagnosticsEnd
  split
  · split <;> rfl
  · rfl

theorem diagnosticsTurn_now (p : Progress) : p.diagnosticsTurn.now = p.now :=
  (diagnosticsEnd_now _).trans (diagnosticsBegin_now p)

theorem workerTurn_of_fresh {p : Progress} {w : Worker} {service : Service}
    (hw : p.worker = some w) (hfresh : w.Fresh service) :
    p.workerTurn.worker = some { w with begun := some p.now } ∧ p.workerTurn.now = p.now := by
  have hwaits : p.workerWaits = true := by
    rw [workerWaits, hw, Option.any_some, hfresh.begun, hfresh.fate]
    rfl
  unfold workerTurn
  rw [hw]
  dsimp only
  rw [if_pos hwaits]
  cases w.address with
  | none => exact ⟨rfl, rfl⟩
  | some address =>
      dsimp only
      rw [if_neg (by simp [hfresh.asked])]
      exact ⟨rfl, rfl⟩

/-- After its first turn a serve loop will end as it does by itself. -/
theorem turn_of_fresh {p : Progress} {w : Worker} {service : Service} (hw : p.worker = some w)
    (hfresh : w.Fresh service) (hnow : p.now = 0) : p.turn.now = 0 ∧
      p.turn.ending? = service.ownEnd?.map fun e => ({ w with begun := some 0 }, e) := by
  have hnow := (diagnosticsTurn_now p).trans hnow
  obtain ⟨hworker, hsame⟩ :=
    workerTurn_of_fresh ((still_diagnosticsTurn p).worker.trans hw) hfresh
  rw [hnow] at hworker
  have hturned : p.turn.worker = some { w with begun := some 0 } := hworker
  refine ⟨hsame.trans hnow, ?_⟩
  rw [ending?, hturned, Option.bind_some, hfresh.fate, Option.isSome_none,
    if_neg Bool.false_ne_true, Worker.ending?, Service.ownEnd?, ← hfresh.course]
  dsimp only
  cases w.course with
  | ends after ending => simp
  | _ => simp [hfresh.asked]

theorem conclude_now (p : Progress) (w : Worker) (time : Nat) (ending : Ending) :
    (p.conclude w time ending).now = max p.now time := by
  unfold conclude
  cases w.address <;> cases ending <;> rfl

/-- By a limit a serve loop has ended if it ends by then, and the clock is not past the limit. -/
theorem loopBy_of_ending {p : Progress} {w : Worker} {end? : Option (Nat × Ending)}
    (h : p.ending? = end?.map fun e => (w, e)) (limit : Nat) :
    (p.loopBy limit).1 = (end?.filter (·.1 ≤ limit)).map (·.2) ∧
      (p.loopBy limit).2.now ≤ max p.now limit := by
  unfold loopBy
  rw [h]
  cases end? with
  | none => exact ⟨rfl, Nat.le_max_left _ _⟩
  | some e =>
      obtain ⟨time, ending⟩ := e
      dsimp only [Option.map_some]
      by_cases hearly : time ≤ limit
      · rw [if_pos hearly]
        refine ⟨by simp [Option.filter, hearly], ?_⟩
        rw [conclude_now]
        omega
      · rw [if_neg hearly]
        exact ⟨by simp [Option.filter, hearly], Nat.le_max_left _ _⟩

end Progress

theorem overheard_now (lines : List Log.Line) (p : Progress) :
    (lines.foldl (fun p line => p.note (.log (.emit line))) p).now = p.now := by
  induction lines generalizing p with
  | nil => rfl
  | cons line lines ih => exact ih (p.note (.log (.emit line)))

theorem ending?_overheard (lines : List Log.Line) (p : Progress) :
    (lines.foldl (fun p line => p.note (.log (.emit line))) p).ending? = p.ending? := by
  rw [Progress.ending?, Progress.ending?, (still_overheard lines p).worker]

/-! ## The turn of the run -/

/-- When a run that waits gets its turn, if ever. -/
def Surroundings.turn? (s : Surroundings) : Option Nat :=
  (s.quit.merge min (s.service.ownEnd?.map (·.1))).map (· + s.lag)

def Surroundings.finds (s : Surroundings) (turn : Nat) : Occasion :=
  .take s.quitFirst (s.quit.any (· ≤ turn))
    ((s.service.ownEnd?.filter (·.1 ≤ turn)).map (·.2))

section
variable {s : Surroundings}

/-- A failure before the word to quit is found alone when the run has its turn in between. -/
theorem finds_failure {failed : Nat} {e : Http.ServeError}
    (hend : s.service.ownEnd? = some (failed, .failed e))
    (hquit : ∀ quit, s.quit = some quit → failed + s.lag < quit) :
    s.turn? = some (failed + s.lag) ∧ s.finds (failed + s.lag) = .ended (.failed e) := by
  cases hq : s.quit with
  | none =>
      exact ⟨by simp [Surroundings.turn?, hend, hq],
        by simp [Surroundings.finds, Occasion.take, Option.filter, hend, hq]⟩
  | some quit =>
      have hlater : failed + s.lag < quit := hquit quit hq
      have hfirst : min quit failed = failed := by omega
      have huntold : ¬ quit ≤ failed + s.lag := Nat.not_le.mpr hlater
      exact ⟨by simp [Surroundings.turn?, hend, hq, hfirst],
        by simp [Surroundings.finds, Occasion.take, Option.filter, hend, hq, huntold]⟩

/-- The word to quit is found alone when the loop ends only after the run has had its turn. -/
theorem finds_quit {quit : Nat} (hq : s.quit = some quit)
    (hend : ∀ time ending, s.service.ownEnd? = some (time, ending) → quit + s.lag < time) :
    s.turn? = some (quit + s.lag) ∧ s.finds (quit + s.lag) = .quit := by
  cases he : s.service.ownEnd? with
  | none =>
      exact ⟨by simp [Surroundings.turn?, he, hq],
        by simp [Surroundings.finds, Occasion.take, he, hq]⟩
  | some e =>
      have hlater : quit + s.lag < e.1 := hend e.1 e.2 he
      have hfirst : min quit e.1 = quit := by omega
      have hunended : ¬ e.1 ≤ quit + s.lag := Nat.not_le.mpr hlater
      exact ⟨by simp [Surroundings.turn?, he, hq, hfirst],
        by simp [Surroundings.finds, Occasion.take, Option.filter, he, hq, hunended]⟩

/-- Of two events that are both there at its turn the run takes either. -/
theorem finds_both {failed quit : Nat} {e : Http.ServeError}
    (hend : s.service.ownEnd? = some (failed, .failed e)) (hq : s.quit = some quit)
    (hfailed : failed ≤ quit + s.lag) (hquit : quit ≤ failed + s.lag) :
    s.turn? = some (min quit failed + s.lag) ∧
      s.finds (min quit failed + s.lag) =
        if s.quitFirst then .quit else .ended (.failed e) := by
  have htold : quit ≤ min quit failed + s.lag := by omega
  have hended : failed ≤ min quit failed + s.lag := by omega
  exact ⟨by simp [Surroundings.turn?, hend, hq],
    by simp [Surroundings.finds, Occasion.take, Option.filter, hend, hq, htold, hended]⟩

end

section
variable {s : Surroundings} {settings : Settings} {tree : Os.FileTree} {network : Net.Network}
  {p : Progress}

/-- A run that is not told to quit before it waits takes up what it finds at its turn, and then. -/
theorem wait_of_started (h : Started s settings tree network true p)
    (hlate : ¬ (s.quit = some 0 ∧ s.lag = 0)) {turn : Nat} (hturn : s.turn? = some turn) :
    (wait s p).1 = s.finds turn ∧ (wait s p).2.now = turn := by
  obtain ⟨w, hw⟩ := Option.isSome_iff_exists.mp h.held.worker
  obtain ⟨hnow, hending⟩ := Progress.turn_of_fresh hw (h.loop w hw) h.now
  obtain ⟨first, hfirst, rfl⟩ := Option.map_eq_some_iff.mp hturn
  unfold wait
  rw [if_neg (by simpa using hlate)]
  dsimp only
  have hnow := (overheard_now s.overheard p.turn).trans hnow
  have hending := (ending?_overheard s.overheard p.turn).trans hending
  generalize s.overheard.foldl (fun p line => p.note (.log (.emit line))) p.turn = q
    at hnow hending ⊢
  have hfirst' : s.quit.merge min (q.ending?.map (·.2.1)) = some first := by
    rw [hending, Option.map_map]
    exact hfirst
  obtain ⟨hended, hclock⟩ := Progress.loopBy_of_ending hending (first + s.lag)
  rw [hfirst', Surroundings.finds, ← hended]
  refine ⟨rfl, (Progress.diagnosticsEnd_now _).trans ?_⟩
  dsimp only
  omega

/-- A run that was told to quit before it waits, and gets its turn at once, takes that up. -/
theorem wait_of_told (hquit : s.quit = some 0) (hlag : s.lag = 0) (p : Progress) :
    wait s p = (.quit, p) := by
  rw [wait, hquit, hlag]
  rfl

def Occasion.result : Occasion → Except Failure Unit
  | .ended (.failed e) => .error (.serve e)
  | _ => .ok ()

theorem react_eq (p : Progress) (occasion : Occasion) :
    (react p occasion).1 = occasion.result ∧ (react p occasion).2.now = p.now := by
  cases occasion with
  | ended ending => cases ending <;> exact ⟨rfl, rfl⟩
  | _ => exact ⟨rfl, rfl⟩

/-- A run whose wait ends at a time returns a result, unless the clock cannot show its deadline. -/
def Returns (s : Surroundings) (settings : Settings) (o : Outcome) (time : Nat)
    (result : Except Failure Unit) : Prop :=
  o.verdict = if lastSecond < s.uptime + time / 1000 + settings.app.shutdownTimeout then .broken
    else .returned result

theorem returns_of_wait {occasion : Occasion} {q : Progress}
    (hc : conclusion s settings tree network = afterWait (wait s p)) (hw : wait s p = (occasion, q))
    (hsome : occasion ≠ .nothing) :
    Returns s settings (run s settings tree network) q.now occasion.result := by
  obtain ⟨hresult, hnow⟩ := react_eq q occasion
  have hconcluded : conclusion s settings tree network =
      some (occasion.result, (react q occasion).2) := by
    rw [hc, hw, ← hresult]
    cases occasion with
    | nothing => exact absurd rfl hsome
    | _ => rfl
  unfold Returns
  rw [run_of_conclusion hconcluded, finishRun_eq, hnow]
  split <;> rfl

/-- Everything starts when the surroundings allow it, and then the run waits. -/
theorem started_of_running
    (hrunning : (configures s settings.app tree && constructs s settings.app network) = true) :
    ∃ p, Started s settings tree network true p ∧
      conclusion s settings tree network = afterWait (wait s p) := by
  rcases conclusion_cases s settings tree network with hwaits | ⟨e, hstarted, -⟩
  · exact hwaits
  · cases hstarted.allowed.trans hrunning

theorem returns_at_turn
    (hrunning : (configures s settings.app tree && constructs s settings.app network) = true)
    (hlate : ¬ (s.quit = some 0 ∧ s.lag = 0)) {turn : Nat} (hturn : s.turn? = some turn)
    (hsome : s.finds turn ≠ .nothing) :
    Returns s settings (run s settings tree network) turn (s.finds turn).result := by
  obtain ⟨p, hstarted, hc⟩ := started_of_running hrunning
  obtain ⟨hoccasion, hnow⟩ := wait_of_started hstarted hlate hturn
  have hwaited : wait s p = (s.finds turn, (wait s p).2) := by rw [← hoccasion]
  have hreturns := returns_of_wait hc hwaited hsome
  rw [hnow] at hreturns
  exact hreturns

/-- A run that is told to quit before it waits, and gets its turn at once, returns without a
failure. -/
theorem returns_of_told
    (hrunning : (configures s settings.app tree && constructs s settings.app network) = true)
    (hquit : s.quit = some 0) (hlag : s.lag = 0) :
    Returns s settings (run s settings tree network) 0 (.ok ()) := by
  obtain ⟨p, hstarted, hc⟩ := started_of_running hrunning
  have hreturns := returns_of_wait hc (wait_of_told hquit hlag p) (by simp)
  rw [hstarted.now] at hreturns
  exact hreturns

end

/-- Whichever of the two events a run that waits finds at its turn decides what it returns. A serve
loop that failed is returned when the word to quit has not come by then, and no failure is when the
loop has not ended by then or the run has been told before; when both have happened, either may
be. -/
theorem first_event_returned (s : Surroundings) (settings : Settings) (tree : Os.FileTree)
    (network : Net.Network)
    (hrunning : (configures s settings.app tree && constructs s settings.app network) = true) :
    let o := run s settings tree network
    (∀ failed e, s.service.ownEnd? = some (failed, .failed e) →
      (∀ quit, s.quit = some quit → failed + s.lag < quit) →
      Returns s settings o (failed + s.lag) (.error (.serve e))) ∧
    (∀ quit, s.quit = some quit →
      (∀ time ending, s.service.ownEnd? = some (time, ending) → quit + s.lag < time) ∨
        (quit = 0 ∧ s.lag = 0) →
      Returns s settings o (quit + s.lag) (.ok ())) ∧
    ∀ failed e quit, s.service.ownEnd? = some (failed, .failed e) → s.quit = some quit →
      ¬ (quit = 0 ∧ s.lag = 0) → failed ≤ quit + s.lag → quit ≤ failed + s.lag →
      Returns s settings o (min quit failed + s.lag)
        (if s.quitFirst then .ok () else .error (.serve e)) := by
  intro o
  refine ⟨?_, ?_, ?_⟩
  · intro failed e hend hquit
    obtain ⟨hturn, hfinds⟩ := finds_failure hend hquit
    have hlate : ¬ (s.quit = some 0 ∧ s.lag = 0) := by
      rintro ⟨hq, hlag⟩
      exact absurd (hquit 0 hq) (Nat.not_lt_zero _)
    have hreturns : Returns s settings o _ _ :=
      returns_at_turn hrunning hlate hturn (by simp [hfinds])
    rw [hfinds] at hreturns
    exact hreturns
  · intro quit hq hunended
    by_cases htold : quit = 0 ∧ s.lag = 0
    · obtain ⟨rfl, hlag⟩ := htold
      rw [hlag]
      exact returns_of_told hrunning hq hlag
    · obtain ⟨hturn, hfinds⟩ := finds_quit hq (hunended.resolve_right htold)
      have hlate : ¬ (s.quit = some 0 ∧ s.lag = 0) := by simpa [hq] using htold
      have hreturns : Returns s settings o _ _ :=
        returns_at_turn hrunning hlate hturn (by simp [hfinds])
      rw [hfinds] at hreturns
      exact hreturns
  · intro failed e quit hend hq hlate hfailed hquit
    obtain ⟨hturn, hfinds⟩ := finds_both hend hq hfailed hquit
    have hlate : ¬ (s.quit = some 0 ∧ s.lag = 0) := by simpa [hq] using hlate
    have hfound : s.finds (min quit failed + s.lag) ≠ .nothing := by
      rw [hfinds]
      split <;> simp
    have hreturns : Returns s settings o _ _ := returns_at_turn hrunning hlate hturn hfound
    rw [hfinds] at hreturns
    cases hfirst : s.quitFirst <;> rw [hfirst] at hreturns <;> exact hreturns

/-- A run whose serve loop fails, and which is told to quit at some time if at all. -/
def failingServer (quit : Option Nat) : Surroundings where
  quit
  lag := 5
  service := .planned none (.ends 10 (.failed (.io "late"))) 0
  moment := ⟨2024, 2, 29, 12, 0, 0⟩
  working := []

theorem first_event_returned_failing :
    let s := failingServer (some 16)
    (configures s {} {} && constructs s {} namelessNetwork) = true ∧
      Returns s {} (run s {} {} namelessNetwork) 15 (.error (.serve (.io "late"))) := by
  intro s
  have hrunning : (configures s {} {} && constructs s {} namelessNetwork) = true := rfl
  refine ⟨hrunning, ?_⟩
  refine (first_event_returned s {} {} namelessNetwork hrunning).1 10 _ rfl ?_
  intro quit hq
  cases hq
  decide

/-- The loop fails at 10, which neither run returns: one is told to quit at 12 and has its turn
after that, the other is never told to quit and cannot set its deadline. -/
theorem failure_swallowed :
    (failingServer (some 12)).service.ownEnd? = some (10, .failed (.io "late")) ∧
    (run (failingServer (some 12)) {} {} namelessNetwork).verdict = .returned (.ok ()) ∧
    (run (failingServer none) { app := { shutdownTimeout := 18446744073709551615 } } {}
      namelessNetwork).verdict = .broken :=
  ⟨rfl, rfl, rfl⟩

end WalletBridge.Daemon
