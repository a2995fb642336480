import WalletBridge.Proofs.Daemon.Balance

/-!
# Which tasks are over when a run returns

A run starts up to three tasks: its serve loop, the sampling of its profile and its listener for
diagnostics. It waits until the first two are over, also when it gives the loop up. The listener is
given up without a wait, so it alone can go on after the run, and does so only when the deadline
that all three share has come.
-/

namespace WalletBridge.Daemon

open Config Lifecycle

namespace Progress

/-- Whether the listener for diagnostics was given up, if there is one. -/
def abandoned (p : Progress) : Option Bool := p.diagnostics.map fun d => d.state == .abandoned

/-! ## Before its own turn the listener is not given up -/

section
variable (p : Progress)

@[simp] theorem abandoned_note (d : Deed) : (p.note d).abandoned = p.abandoned := rfl

@[simp] theorem abandoned_say (level : Log.Level) (part message : String)
    (fields : List (String × String)) :
    (p.say level part message fields).abandoned = p.abandoned := rfl

@[simp] theorem abandoned_enter (phase : Phase) : (p.enter phase).abandoned = p.abandoned := rfl

@[simp] theorem abandoned_clock (now : Nat) :
    ({ p with now } : Progress).abandoned = p.abandoned := rfl

@[simp] theorem abandoned_diagnosticsBegin : p.diagnosticsBegin.abandoned = p.abandoned := by
  unfold diagnosticsBegin
  split
  · next host told lingers hd => split <;> simp [abandoned, say, note, hd]
  · rfl

@[simp] theorem abandoned_diagnosticsEnd : p.diagnosticsEnd.abandoned = p.abandoned := by
  unfold diagnosticsEnd
  split
  · next host address told lingers hd => split <;> simp [abandoned, hd]
  · rfl

@[simp] theorem abandoned_diagnosticsTurn : p.diagnosticsTurn.abandoned = p.abandoned := by
  simp [diagnosticsTurn]

@[simp] theorem abandoned_conclude (w : Worker) (time : Nat) (ending : Ending) :
    (p.conclude w time ending).abandoned = p.abandoned := by
  unfold conclude
  cases w.address <;> cases ending <;> rfl

@[simp] theorem abandoned_workerTurn : p.workerTurn.abandoned = p.abandoned := by
  unfold workerTurn
  cases p.worker with
  | none => rfl
  | some w =>
      dsimp only
      split
      · cases w.address with
        | none => rfl
        | some address =>
            dsimp only
            split <;> rfl
      · rfl

@[simp] theorem abandoned_turn : p.turn.abandoned = p.abandoned := by simp [turn]

@[simp] theorem abandoned_passTo (limit : Nat) : (p.passTo limit).abandoned = p.abandoned := by
  unfold passTo
  cases p.ending? with
  | none => rfl
  | some e =>
      dsimp only
      split
      · exact abandoned_conclude p _ _ _
      · rfl

@[simp] theorem abandoned_loopBy (limit : Nat) :
    (p.loopBy limit).2.abandoned = p.abandoned := by
  unfold loopBy
  cases p.ending? with
  | none => rfl
  | some e =>
      dsimp only
      split
      · exact abandoned_conclude p _ _ _
      · rfl

@[simp] theorem abandoned_closeLate (seconds : Nat) :
    (p.closeLate seconds).abandoned = p.abandoned := rfl

@[simp] theorem abandoned_closeAfter (seconds deadline duration : Nat) :
    (p.closeAfter seconds deadline duration).abandoned = p.abandoned := by
  unfold closeAfter
  split
  · simp
  · split
    · simp
    · dsimp only
      split <;> simp

@[simp] theorem abandoned_closeWithLoop (seconds deadline : Nat) :
    (p.closeWithLoop seconds deadline).abandoned = p.abandoned := by
  unfold closeWithLoop
  split
  · simp
  · split
    · simp
    · dsimp only
      split
      · split <;> simp
      · simp

@[simp] theorem abandoned_closeServer (seconds deadline : Nat) :
    (p.closeServer seconds deadline).abandoned = p.abandoned := by
  unfold closeServer
  cases p.closing with
  | none => rfl
  | some closing =>
      let asked : Progress := { (p.say .info "daemon" "Closing api server" []).note .shutDown with
        worker := p.worker.map fun (w : Worker) => w.ask p.now }
      have hsame : asked.abandoned = p.abandoned := rfl
      cases closing with
      | after duration => exact (abandoned_closeAfter asked _ _ _).trans hsame
      | withLoop =>
          dsimp only
          split
          · exact hsame
          · exact (abandoned_closeWithLoop asked _ _).trans hsame

@[simp] theorem abandoned_abortWorker (w : Worker) :
    (p.abortWorker w).abandoned = p.abandoned := by
  have hturned := abandoned_diagnosticsTurn
    (p.say .warn "daemon" "API server task still running, aborting" [])
  unfold abortWorker
  dsimp only
  split <;> exact hturned

@[simp] theorem abandoned_joinEnded (fate : Fate) : (p.joinEnded fate).abandoned = p.abandoned := by
  unfold joinEnded
  split <;> rfl

@[simp] theorem abandoned_joinWorker (deadline : Nat) :
    (p.joinWorker deadline).abandoned = p.abandoned := by
  unfold joinWorker
  cases p.worker with
  | none => rfl
  | some w =>
      dsimp only
      split
      · simp
      · split
        · simp
        · split
          · simp
          · split <;> simp
          · simp

end

/-! ## The listener's own turn -/

variable {p : Progress} {d : Diagnostics}

/-- A listener that is over, or knows when it will be. -/
def Ends (d : Diagnostics) : Prop := d.state = .done ∨ d.over?.isSome = true

theorem ends_of_listening {address : Net.SocketAddress} (hs : d.state = .listening address)
    (htold : d.told.isSome = true) : Ends d := by
  right
  rw [Diagnostics.over?, hs]
  dsimp only
  rw [Option.isSome_map]
  exact htold

theorem tell_told (d : Diagnostics) (now : Nat) : (d.tell now).told.isSome = true := by
  unfold Diagnostics.tell
  cases d.told <;> rfl

/-- A listener that was told to end, and not given up, ends once it has begun. -/
theorem diagnosticsBegin_ends (hd : p.diagnostics = some d) (htold : d.told.isSome = true)
    (hkept : d.state ≠ .abandoned) : ∃ e, p.diagnosticsBegin.diagnostics = some e ∧ Ends e := by
  obtain ⟨host, state, told?, lingers⟩ := d
  unfold diagnosticsBegin
  rw [hd]
  cases state with
  | waiting =>
      dsimp only
      split
      · exact ⟨_, rfl, ends_of_listening rfl (by rw [Option.isSome_map]; exact htold)⟩
      · exact ⟨_, rfl, .inl rfl⟩
  | listening address => exact ⟨_, hd, ends_of_listening rfl htold⟩
  | done => exact ⟨_, hd, .inl rfl⟩
  | abandoned => exact absurd rfl hkept

theorem diagnosticsEnd_of_over {due : Nat} (hd : p.diagnostics = some d)
    (hover : d.over? = some due) (hdue : due ≤ p.now) :
    ∃ e, p.diagnosticsEnd.diagnostics = some e ∧ e.state = .done := by
  obtain ⟨host, state, told, lingers⟩ := d
  cases state with
  | listening address =>
      obtain ⟨time, rfl, rfl⟩ := Option.map_eq_some_iff.mp hover
      unfold diagnosticsEnd
      rw [hd]
      dsimp only
      rw [if_pos hdue]
      exact ⟨_, rfl, rfl⟩
  | _ => cases hover

theorem diagnosticsEnd_ends (hd : p.diagnostics = some d) (hends : Ends d) :
    ∃ e, p.diagnosticsEnd.diagnostics = some e ∧ Ends e := by
  by_cases hpast : ∃ due, d.over? = some due ∧ due ≤ p.now
  · obtain ⟨due, hover, hdue⟩ := hpast
    obtain ⟨e, he, hdone⟩ := diagnosticsEnd_of_over hd hover hdue
    exact ⟨e, he, .inl hdone⟩
  · refine ⟨d, ?_, hends⟩
    rw [← hd]
    unfold diagnosticsEnd
    split
    · next host address told lingers hlistening =>
        split
        · next hdue =>
            obtain rfl := Option.some.inj (hd.symm.trans hlistening)
            exact absurd ⟨_, rfl, hdue⟩ hpast
        · rfl
    · rfl

/-- In the end the listener is over, or it was given up at the deadline. -/
def Left (deadline : Nat) (p : Progress) : Prop :=
  ∀ d, p.diagnostics = some d → d.state = .done ∨ (d.state = .abandoned ∧ deadline ≤ p.now)

theorem left_of_done {deadline : Nat} (h : ∃ e, p.diagnostics = some e ∧ e.state = .done) :
    Left deadline p := by
  intro d hd
  obtain ⟨e, he, hdone⟩ := h
  rw [← Option.some.inj (he.symm.trans hd)]
  exact .inl hdone

theorem left_of_abandoned {deadline : Nat} (h : deadline ≤ p.now) :
    Left deadline p.abandonDiagnostics := by
  intro d hd
  obtain ⟨e, -, rfl⟩ := Option.map_eq_some_iff.mp hd
  exact .inr ⟨rfl, h⟩

theorem left_endDiagnostics {deadline : Nat} (h : p.abandoned ≠ some true) :
    Left deadline (p.endDiagnostics deadline) := by
  unfold endDiagnostics
  cases hd : p.diagnostics with
  | none =>
      intro d hsome
      cases hd.symm.trans hsome
  | some d =>
      dsimp only
      have hkept : d.state ≠ .abandoned := by
        intro hgiven
        exact h (by rw [abandoned, hd, Option.map_some, hgiven]; rfl)
      split
      · next hdone => exact left_of_done ⟨d, hd, beq_iff_eq.mp hdone⟩
      · split
        · next halready =>
            -- it was told with the run, and is over since then
            cases hover : d.over? with
            | none => simp [hover] at halready
            | some due =>
                have hpast : due < p.now := by simpa [hover] using halready
                exact left_of_done (diagnosticsEnd_of_over hd hover (Nat.le_of_lt hpast))
        · split
          · next hlate => exact left_of_abandoned hlate
          · obtain ⟨e, he, hends⟩ := diagnosticsBegin_ends
              (p := { p with diagnostics := some (d.tell p.now) }) rfl (tell_told d p.now) hkept
            obtain ⟨e, he, hends⟩ := diagnosticsEnd_ends he hends
            change Progress.diagnostics (diagnosticsTurn _) = some e at he
            split
            · next hover =>
                refine left_of_done ⟨e, he, ?_⟩
                rw [he, Option.bind_some] at hover
                exact hends.resolve_right (by simp [hover])
            · next due hover =>
                rw [he, Option.bind_some] at hover
                split
                · exact left_of_done
                    (diagnosticsEnd_of_over (p := { diagnosticsTurn _ with now := due }) he hover
                      (Nat.le_refl due))
                · exact left_of_abandoned (p := { diagnosticsTurn _ with now := deadline })
                    (Nat.le_refl deadline)

theorem abandoned_isSome (p : Progress) : p.abandoned.isSome = p.diagnostics.isSome :=
  Option.isSome_map

theorem endDiagnostics_isSome (p : Progress) (deadline : Nat) :
    (p.endDiagnostics deadline).diagnostics.isSome = p.diagnostics.isSome := by
  have hgiven (q : Progress) : q.abandonDiagnostics.diagnostics.isSome = q.diagnostics.isSome :=
    Option.isSome_map
  have hatEnd (q : Progress) : q.diagnosticsEnd.diagnostics.isSome = q.diagnostics.isSome := by
    rw [← abandoned_isSome, ← abandoned_isSome, abandoned_diagnosticsEnd]
  unfold endDiagnostics
  cases hd : p.diagnostics with
  | none => rw [hd]
  | some d =>
      have hturned : (diagnosticsTurn { p with
          diagnostics := some (d.tell p.now) }).diagnostics.isSome = true := by
        rw [← abandoned_isSome, abandoned_diagnosticsTurn]
        rfl
      dsimp only
      split
      · rw [hd]
      · split
        · rw [hatEnd, hd]
        · split
          · rw [hgiven]
            rfl
          · split
            · exact hturned
            · split
              · exact (hatEnd _).trans hturned
              · exact (hgiven _).trans hturned

/-! ## The profile, and everything together -/

theorem stopProfile_profile (p : Progress) :
    p.stopProfile.profile = p.profile.map fun f => { f with ended := true } := by
  unfold stopProfile
  cases hp : p.profile with
  | none => exact hp
  | some profile =>
      dsimp only
      split <;> rfl

theorem stopProfile_alone (p : Progress) : p.Alone p.stopProfile := by
  unfold stopProfile
  cases p.profile with
  | none => exact ⟨rfl, rfl⟩
  | some profile =>
      dsimp only
      split <;> exact ⟨rfl, rfl⟩

theorem closeLog_alone (p : Progress) (syncFailure : Option Os.Error) :
    p.Alone (p.closeLog syncFailure) ∧ (p.closeLog syncFailure).profile = p.profile := by
  unfold closeLog
  cases p.logFile with
  | none => exact ⟨⟨rfl, rfl⟩, rfl⟩
  | some path => cases syncFailure <;> exact ⟨⟨rfl, rfl⟩, rfl⟩

theorem joinWorker_profile {p : Progress} (htold : p.Told)
    (hserved : p.closing.isSome = p.worker.isSome) (seconds deadline : Nat) :
    ((p.closeServer seconds deadline).joinWorker deadline).profile = p.profile := by
  cases hw : p.worker with
  | none =>
      rw [hw] at hserved
      rw [closeServer_none (Option.not_isSome_iff_eq_none.mp (by simp [hserved])),
        joinWorker_none hw]
  | some w =>
      rw [hw] at hserved
      have hnote : Adds [.shutDown] p (p.note .shutDown) := adds_note p rfl rfl
      have hasked := tended_closeServer hserved seconds deadline
      have hjoined := joined_joinWorker (hasked.worker.trans (by rw [hnote.worker, hw]; rfl))
        (hasked.told (hnote.story.trans (htold.trans (by rw [hnote.worker])))) deadline
      exact hjoined.profile.trans hasked.profile

theorem left_release {p : Progress} (htold : p.Told)
    (hserved : p.closing.isSome = p.worker.isSome) (hkept : p.abandoned ≠ some true)
    (seconds : Nat) (syncFailure : Option Os.Error) :
    Left (p.now + seconds * 1000) (p.release seconds syncFailure) ∧
      (p.release seconds syncFailure).diagnostics.isSome = p.diagnostics.isSome ∧
      (p.release seconds syncFailure).profile =
        p.profile.map fun f => { f with ended := true } := by
  let deadline := p.now + seconds * 1000
  let joined := (p.closeServer seconds deadline).joinWorker deadline
  have hsame : joined.abandoned = p.abandoned := by simp [joined]
  let ended := joined.endDiagnostics deadline
  have hleft : Left deadline ended := left_endDiagnostics (hsame ▸ hkept)
  let spoken := ended.stopProfile.say .info "daemon" "Goodbye" []
  have hstopped : ended.Alone spoken := (stopProfile_alone ended).trans ⟨rfl, rfl⟩
  obtain ⟨hfile, hprofile⟩ := closeLog_alone spoken syncFailure
  have hrest : ended.Alone (p.release seconds syncFailure) := hstopped.trans hfile
  refine ⟨?_, ?_, ?_⟩
  · unfold Left
    rw [hrest.diagnostics, hrest.now]
    exact hleft
  · rw [hrest.diagnostics, endDiagnostics_isSome, ← abandoned_isSome, hsame, abandoned_isSome]
  · refine hprofile.trans ((stopProfile_profile ended).trans ?_)
    rw [(still_endDiagnostics joined deadline).profile, joinWorker_profile htold hserved]

end Progress

/-! ## A whole run -/

theorem abandoned_overheard (lines : List Log.Line) (p : Progress) :
    (lines.foldl (fun p line => p.note (.log (.emit line))) p).abandoned = p.abandoned := by
  induction lines generalizing p with
  | nil => rfl
  | cons line lines ih => exact ih (p.note (.log (.emit line)))

theorem abandoned_wait (s : Surroundings) (p : Progress) :
    (wait s p).2.abandoned = p.abandoned := by
  unfold wait
  split
  · rfl
  · dsimp only
    split
    · simp [abandoned_overheard]
    · simp [abandoned_overheard]

theorem abandoned_react (p : Progress) (occasion : Occasion) :
    (react p occasion).2.abandoned = p.abandoned := by
  unfold react
  split <;> rfl

section
variable {s : Surroundings} {settings : Settings} {tree : Os.FileTree} {network : Net.Network}
  {result : Except Failure Unit} {p : Progress}

/-- Until a run begins to give back, its listener was started if it was to be, and not given up. -/
theorem abandoned_of_conclusion (h : conclusion s settings tree network = some (result, p)) :
    p.abandoned =
      if configures s settings.app tree && settings.app.httpProf then some false else none := by
  have hstart' {succeeded : Bool} {q : Progress}
      (hstarted : Started s settings tree network succeeded q) : q.abandoned =
        if configures s settings.app tree && settings.app.httpProf then some false else none := by
    rw [Progress.abandoned, hstarted.listener, Progress.listener?]
    cases configures s settings.app tree <;> cases settings.app.httpProf <;> rfl
  rcases conclusion_cases s settings tree network with ⟨q, hstarted, hc⟩ | ⟨e, hstarted, hc⟩
  · obtain ⟨-, hreact⟩ := afterWait_eq_some (hc.symm.trans h)
    have hreacted := abandoned_react (wait s q).2 (wait s q).1
    rw [hreact] at hreacted
    exact (hreacted.trans (abandoned_wait s q)).trans (hstart' hstarted)
  · cases hc.symm.trans h
    exact hstart' hstarted

/-- The tasks that a run has started, when it has returned: its serve loop and the sampling of its
profile are over, and its listener is, or was given up at the deadline. -/
structure TasksLeft (s : Surroundings) (settings : Settings) (tree : Os.FileTree)
    (network : Net.Network) (deadline : Nat) (p : Progress) : Prop where
  worker : p.worker.isSome =
      (configures s settings.app tree && constructs s settings.app network) ∧
    ∀ w, p.worker = some w → w.fate.isSome = true
  profile : p.profile.isSome = !(takenProfile s settings.app tree).isEmpty ∧
    ∀ f, p.profile = some f → f.ended = true
  listener : p.diagnostics.isSome =
      (configures s settings.app tree && settings.app.httpProf) ∧
    p.Left deadline

/-- A deadline that the clock can show leaves no task behind but a listener that is not over by
then. -/
theorem tasksLeft_of_conclusion (hc : conclusion s settings tree network = some (result, p))
    (hfits : ¬ lastSecond < s.uptime + p.now / 1000 + settings.app.shutdownTimeout) :
    TasksLeft s settings tree network (p.now + settings.app.shutdownTimeout * 1000)
      (run s settings tree network).progress := by
  have held := (holding_of_conclusion hc).tended (still_tellResult result p).tended
  let q : Progress := (p.tellResult result).enter .shuttingDown
  have hnow : q.now = p.now := tellResult_now p result
  have hlistener : q.abandoned =
      if configures s settings.app tree && settings.app.httpProf then some false else none := by
    rw [← abandoned_of_conclusion hc]
    cases result <;> rfl
  have hgiven : q.abandoned ≠ some true := by
    rw [hlistener]
    split <;> simp
  have hreleased := Progress.released_release (p := q) held.told held.closing
    settings.app.shutdownTimeout s.syncFailure
  have hclosed := closed_of_released (holding_of_conclusion hc) (still_tellResult result p)
    hreleased
  obtain ⟨hleft, hstarted, hprofile⟩ := Progress.left_release (p := q) held.told held.closing hgiven
    settings.app.shutdownTimeout s.syncFailure
  rw [run_of_conclusion hc, finishRun_eq, if_neg hfits]
  refine ⟨⟨hclosed.worker, fun w hw => (hclosed.ended w hw).1⟩, ?_, ?_⟩
  · change (q.release _ _).profile.isSome = _ ∧ ∀ f, (q.release _ _).profile = some f → _
    rw [hprofile]
    refine ⟨Option.isSome_map.trans held.profile, ?_⟩
    intro f hf
    obtain ⟨g, -, rfl⟩ := Option.map_eq_some_iff.mp hf
    rfl
  · rw [← hnow]
    refine ⟨hstarted.trans ?_, hleft⟩
    rw [← Progress.abandoned_isSome, hlistener]
    split <;> simp_all

end

/-- When a run returns, every task that it started is over, except for a listener for diagnostics
that goes on until the deadline for giving back: that one is left behind. -/
theorem run_leaves_listener (s : Surroundings) (settings : Settings) (tree : Os.FileTree)
    (network : Net.Network) {result : Except Failure Unit}
    (h : (run s settings tree network).verdict = .returned result) :
    ∃ p, conclusion s settings tree network = some (result, p) ∧
      TasksLeft s settings tree network (p.now + settings.app.shutdownTimeout * 1000)
        (run s settings tree network).progress := by
  rcases run_cases s settings tree network with ⟨concluded, p, hc, hrun⟩ | ⟨-, hendless, -⟩
  · rw [hrun, finishRun_eq] at h
    split at h
    · cases h
    · next hfits =>
        cases h
        exact ⟨p, hc, tasksLeft_of_conclusion hc hfits⟩
  · rw [hendless] at h
    cases h

/-- A run that the server's loop ends, with a listener, and a server that takes a second longer to
shut down than it may. -/
def slowServer : Surroundings where
  service := .planned none (.ends 10 .finished) 31000
  moment := ⟨2024, 2, 29, 12, 0, 0⟩
  working := []

def diagnosed : Settings := { app := { httpProf := true, httpProfHost := "127.0.0.1:6060" } }

theorem run_leaves_listener_slow :
    (run slowServer diagnosed {} namelessNetwork).verdict = .returned (.ok ()) ∧
      ∃ p, conclusion slowServer diagnosed {} namelessNetwork = some (.ok (), p) ∧
        TasksLeft slowServer diagnosed {} namelessNetwork (p.now + 30 * 1000)
          (run slowServer diagnosed {} namelessNetwork).progress :=
  ⟨rfl, run_leaves_listener slowServer diagnosed {} namelessNetwork rfl⟩

/-- The run has returned, and its listener, which was given up and not waited for, has not ended. -/
theorem listener_outlives_run :
    (run slowServer diagnosed {} namelessNetwork).verdict = .returned (.ok ()) ∧
      (run slowServer diagnosed {} namelessNetwork).progress.diagnostics.map (·.state) =
        some .abandoned :=
  ⟨rfl, by decide +kernel⟩

end WalletBridge.Daemon
