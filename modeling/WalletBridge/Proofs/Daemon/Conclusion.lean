import WalletBridge.Proofs.Daemon.Taking

/-!
# What a run comes to before it gives back

Between its start and its release a run only waits. The result that it will return is settled by
then, and it holds what its start took; whatever comes afterwards, the release or a deadline that
the clock cannot show, begins at this point.
-/

namespace WalletBridge.Daemon

open Config Lifecycle

/-! ## From the start to the release -/

/-- A run that has not given anything back yet: it holds what the surroundings allow. -/
structure Holding (s : Surroundings) (settings : Settings) (tree : Os.FileTree)
    (network : Net.Network) (p : Progress) : Prop where
  ledger : p.ledger = taken s settings tree
  told : p.Told
  logFile : p.logFile.isSome = !(takenLog s settings.app tree).isEmpty
  profile : p.profile.isSome = !(takenProfile s settings.app tree).isEmpty
  closing : p.closing.isSome = p.worker.isSome
  worker : p.worker.isSome =
    (configures s settings.app tree && constructs s settings.app network)
  history : p.history =
    startHistory (configures s settings.app tree) (constructs s settings.app network)

section
variable {s : Surroundings} {settings : Settings} {tree : Os.FileTree} {network : Net.Network}

theorem Started.holding {succeeded : Bool} {p : Progress}
    (h : Started s settings tree network succeeded p) : Holding s settings tree network p where
  ledger := h.held.ledger
  told := h.held.told
  logFile := h.held.logFile
  profile := h.held.profile
  closing := h.held.closing.trans h.held.worker.symm
  worker := h.held.worker.trans h.allowed
  history := h.held.history

theorem Holding.tended {p q : Progress} (h : Holding s settings tree network p)
    (hk : p.Tended q) : Holding s settings tree network q where
  ledger := hk.ledger.trans h.ledger
  told := hk.told h.told
  logFile := by rw [hk.logFile, h.logFile]
  profile := by rw [hk.profile, h.profile]
  closing := by rw [hk.closing, hk.worker, h.closing]
  worker := hk.worker.trans h.worker
  history := hk.history.trans h.history

end

/-- What other parts of the program log is not the business of the run. -/
theorem still_overheard (lines : List Log.Line) (p : Progress) :
    p.Still (lines.foldl (fun p line => p.note (.log (.emit line))) p) := by
  induction lines generalizing p with
  | nil => exact Progress.Still.refl p
  | cons line lines ih =>
      exact (Progress.still_note p rfl rfl).trans (ih (p.note (.log (.emit line))))

/-- A wait takes nothing and gives nothing back, whatever ends it. -/
theorem tended_wait (s : Surroundings) (p : Progress) : p.Tended (wait s p).2 := by
  have hwaited := (Progress.tended_turn p).trans (still_overheard s.overheard p.turn).tended
  unfold wait
  split
  · exact Progress.Tended.refl p
  · dsimp only
    generalize s.overheard.foldl (fun p line => p.note (.log (.emit line))) p.turn = q at hwaited ⊢
    split
    · exact hwaited
    · rename_i first _
      have hlooped := hwaited.trans (Progress.tended_loopBy q (first + s.lag))
      exact (hlooped.trans (Progress.still_clock _ _).tended).trans
        (Progress.still_diagnosticsEnd _).tended

/-- A run that finds nothing at its turn was not told to quit by then, and its loop is not over. -/
theorem take_eq_nothing {quitFirst told : Bool} {ended : Option Ending}
    (h : Occasion.take quitFirst told ended = .nothing) : told = false ∧ ended = none := by
  unfold Occasion.take at h
  split at h <;> split at h <;> simp_all

theorem wait_ne_nothing {s : Surroundings} {quit : Nat} (hq : s.quit = some quit) (p : Progress) :
    (wait s p).1 ≠ .nothing := by
  intro h
  unfold wait at h
  rw [hq] at h
  split at h
  · cases h
  · dsimp only at h
    generalize s.overheard.foldl (fun p line => p.note (.log (.emit line))) p.turn = q at h
    cases he : q.ending? with
    | none =>
        rw [he] at h
        obtain ⟨huntold, -⟩ := take_eq_nothing h
        simp at huntold
    | some e =>
        obtain ⟨w, time, ending⟩ := e
        rw [he] at h
        obtain ⟨huntold, hrunning⟩ := take_eq_nothing h
        have hlate : min quit time + s.lag < quit := by simpa using huntold
        have hearly : time ≤ min quit time + s.lag := by omega
        simp [Progress.loopBy, he, hearly] at hrunning

theorem still_react (p : Progress) (occasion : Occasion) : p.Still (react p occasion).2 := by
  unfold react
  split <;> exact Progress.still_say p _ _ _ _

/-! ## The point at which a run begins to give back -/

/-- What a run comes to when its wait is over, if it ever is. -/
def afterWait : Occasion × Progress → Option (Except Failure Unit × Progress)
  | (.nothing, _) => none
  | (occasion, p) => some (react p occasion)

/-- The result of a run, and where the run is when it begins to give back. There is none when it
goes on for ever. -/
def conclusion (s : Surroundings) (settings : Settings) (tree : Os.FileTree)
    (network : Net.Network) : Option (Except Failure Unit × Progress) :=
  match start s settings (Progress.enter { tree, network } .configuring) with
  | .error stopped => some (.error stopped.failure, stopped.progress)
  | .ok p => afterWait (wait s p)

/-- A run waits once everything has started, and otherwise has failed. -/
theorem conclusion_cases (s : Surroundings) (settings : Settings) (tree : Os.FileTree)
    (network : Net.Network) :
    (∃ p, Started s settings tree network true p ∧
      conclusion s settings tree network = afterWait (wait s p)) ∨
    (∃ e : Stopped, Started s settings tree network false e.progress ∧
      conclusion s settings tree network = some (.error e.failure, e.progress)) := by
  -- nothing is held when a run begins
  have hnothing : (Progress.enter { tree, network } .configuring).Holds [] false false false
      ⟨.configuring, [.init]⟩ :=
    ⟨rfl, rfl, rfl, rfl, rfl, rfl, (fun w hw => by cases hw), rfl⟩
  rcases start_cases s settings hnothing rfl rfl with ⟨p, hstart, hstarted⟩ | ⟨e, hstart, hstarted⟩
  · exact .inl ⟨p, hstarted, by rw [conclusion, hstart]⟩
  · exact .inr ⟨e, hstarted, by rw [conclusion, hstart]⟩

theorem afterWait_eq_some {w : Occasion × Progress} {result : Except Failure Unit} {p : Progress}
    (h : afterWait w = some (result, p)) : w.1 ≠ .nothing ∧ react w.2 w.1 = (result, p) := by
  obtain ⟨occasion, q⟩ := w
  cases occasion with
  | nothing => cases h
  | quit => exact ⟨by simp, Option.some.inj h⟩
  | ended ending => exact ⟨by simp, Option.some.inj h⟩

theorem holding_of_conclusion {s : Surroundings} {settings : Settings} {tree : Os.FileTree}
    {network : Net.Network} {result : Except Failure Unit} {p : Progress}
    (h : conclusion s settings tree network = some (result, p)) :
    Holding s settings tree network p := by
  rcases conclusion_cases s settings tree network with ⟨q, hstarted, hc⟩ | ⟨e, hstarted, hc⟩
  · obtain ⟨-, hreact⟩ := afterWait_eq_some (hc.symm.trans h)
    have hreacted := still_react (wait s q).2 (wait s q).1
    rw [hreact] at hreacted
    exact (hstarted.holding.tended (tended_wait s q)).tended hreacted.tended
  · cases hc.symm.trans h
    exact hstarted.holding

/-- A run ends at its conclusion, or goes on for ever, which it does only when it is never told to
quit. -/
theorem run_cases (s : Surroundings) (settings : Settings) (tree : Os.FileTree)
    (network : Net.Network) :
    (∃ result p, conclusion s settings tree network = some (result, p) ∧
      run s settings tree network = finishRun s settings result p) ∨
    (conclusion s settings tree network = none ∧
      (run s settings tree network).verdict = .endless ∧ s.quit = none) := by
  unfold conclusion run
  dsimp only
  cases hstart : start s settings (Progress.enter { tree, network } .configuring) with
  | error stopped => exact .inl ⟨_, _, rfl, rfl⟩
  | ok p =>
      dsimp only
      rcases hw : wait s p with ⟨occasion, q⟩
      cases occasion with
      | quit => exact .inl ⟨_, _, rfl, rfl⟩
      | ended ending => exact .inl ⟨_, _, rfl, rfl⟩
      | nothing =>
          refine .inr ⟨rfl, rfl, ?_⟩
          cases hq : s.quit with
          | none => rfl
          | some quit => exact absurd (congrArg Prod.fst hw) (wait_ne_nothing hq p)

theorem run_of_conclusion {s : Surroundings} {settings : Settings} {tree : Os.FileTree}
    {network : Net.Network} {result : Except Failure Unit} {p : Progress}
    (h : conclusion s settings tree network = some (result, p)) :
    run s settings tree network = finishRun s settings result p := by
  rcases run_cases s settings tree network with ⟨result', p', hc, hrun⟩ | ⟨hnone, -, -⟩
  · obtain ⟨rfl, rfl⟩ := Prod.mk.inj (Option.some.inj (h.symm.trans hc))
    exact hrun
  · rw [hnone] at h
    cases h

/-- A run says first why it failed, if so. -/
def Progress.tellResult (p : Progress) (result : Except Failure Unit) : Progress :=
  match result with
  | .error failure => p.say .error "daemon" "Daemon run failed" [("error", failure.describe)]
  | .ok _ => p

theorem still_tellResult (result : Except Failure Unit) (p : Progress) :
    p.Still (p.tellResult result) := by
  cases result with
  | ok _ => exact Progress.Still.refl p
  | error failure => exact Progress.still_say p _ _ _ _

theorem tellResult_now (p : Progress) (result : Except Failure Unit) :
    (p.tellResult result).now = p.now := by
  cases result <;> rfl

/-- Whether a run gives back depends on one sum alone. -/
theorem finishRun_eq (s : Surroundings) (settings : Settings) (result : Except Failure Unit)
    (p : Progress) : finishRun s settings result p =
      if lastSecond < s.uptime + p.now / 1000 + settings.app.shutdownTimeout then
        ⟨.broken, (p.tellResult result).enter .shuttingDown⟩
      else
        ⟨.returned result, (((p.tellResult result).enter .shuttingDown).release
          settings.app.shutdownTimeout s.syncFailure).enter .terminated⟩ := by
  cases result <;> rfl

end WalletBridge.Daemon
