import WalletBridge.Daemon.Release
import WalletBridge.Proofs.Daemon.Ledger

/-!
# Every release gives back what is held

The server is asked to shut down if there is one, its task is joined, and the profile and the log
file follow if there are such. Which of these happen depends on what is held alone, and not on how
long the server, its loop or the listener for diagnostics take.
-/

namespace WalletBridge.Daemon.Progress

/-! ## The server -/

theorem still_closed (p : Progress) : Still p (p.note .closed) := still_note p rfl rfl

theorem still_closeLate (p : Progress) (seconds : Nat) : Still p (p.closeLate seconds) :=
  still_say p _ _ _ _

theorem tended_closeAfter (p : Progress) (seconds deadline duration : Nat) :
    Tended p (p.closeAfter seconds deadline duration) := by
  unfold closeAfter
  split
  · exact (still_closed p).tended
  · split
    · exact (still_closeLate p seconds).tended
    · have hpassed (limit : Nat) : Tended p (p.turn.passTo limit) :=
        (tended_turn p).trans (tended_passTo _ limit)
      dsimp only
      split
      · exact (hpassed _).trans (still_closed _).tended
      · exact (hpassed _).trans (still_closeLate _ seconds).tended

theorem tended_closeWithLoop (p : Progress) (seconds deadline : Nat) :
    Tended p (p.closeWithLoop seconds deadline) := by
  have hlate : Tended p ((p.turn.passTo deadline).closeLate seconds) :=
    ((tended_turn p).trans (tended_passTo _ deadline)).trans (still_closeLate _ seconds).tended
  unfold closeWithLoop
  split
  · exact (still_closed p).tended
  · split
    · exact (still_closeLate p seconds).tended
    · dsimp only
      cases he : p.turn.ending? with
      | none => exact hlate
      | some e =>
          obtain ⟨w, time, ending⟩ := e
          obtain ⟨hw, hb, hf⟩ := ending?_eq_some he
          dsimp only
          split
          · have hended := (tended_conclude hw hb hf time ending).1
            exact ((tended_turn p).trans hended).trans (still_closed _).tended
          · exact hlate

/-- A server is asked once to shut down, whatever then becomes of it. -/
theorem tended_closeServer {p : Progress} (h : p.closing.isSome = true) (seconds deadline : Nat) :
    Tended (p.note .shutDown) (p.closeServer seconds deadline) := by
  obtain ⟨closing, hc⟩ := Option.isSome_iff_exists.mp h
  have hasked := ((still_say p .info "daemon" "Closing api server" []).note .shutDown).tended.trans
    (tended_ask _)
  unfold closeServer
  rw [hc]
  cases closing with
  | after duration => exact hasked.trans (tended_closeAfter _ seconds deadline duration)
  | withLoop =>
      dsimp only
      split
      · exact hasked.trans (still_closed _).tended
      · exact hasked.trans (tended_closeWithLoop _ seconds deadline)

theorem closeServer_none {p : Progress} (h : p.closing = none) (seconds deadline : Nat) :
    p.closeServer seconds deadline = p := by
  rw [closeServer, h]

/-! ## The task of the serve loop -/

/-- The loop is over and its task is joined; nothing else that is held has changed. -/
structure Joined (p q : Progress) : Prop where
  ledger : q.ledger = p.ledger ++ [.joined]
  ended : ∃ w, q.worker = some w ∧ w.fate.isSome = true ∧ q.story = w.told ++ [.joined]
  logFile : q.logFile = p.logFile
  profile : q.profile = p.profile
  history : q.history = p.history

theorem Tended.joined {p q r : Progress} (h : Tended p q) (hk : Joined q r) : Joined p r where
  ledger := by rw [hk.ledger, h.ledger]
  ended := hk.ended
  logFile := hk.logFile.trans h.logFile
  profile := hk.profile.trans h.profile
  history := hk.history.trans h.history

theorem Joined.still {p q r : Progress} (h : Joined p q) (hk : Still q r) : Joined p r where
  ledger := by rw [hk.ledger, h.ledger]
  ended := by
    rw [hk.worker, hk.story]
    exact h.ended
  logFile := hk.logFile.trans h.logFile
  profile := hk.profile.trans h.profile
  history := hk.history.trans h.history

theorem joined_note {p : Progress} {w : Worker} (hw : p.worker = some w)
    (hf : w.fate.isSome = true) (htold : p.Told) : Joined p (p.note .joined) where
  ledger := ledger_note p .joined
  ended := by
    refine ⟨w, hw, hf, ?_⟩
    rw [story_note, htold, hw]
    rfl
  logFile := rfl
  profile := rfl
  history := rfl

theorem joined_joinEnded {p : Progress} {w : Worker} (hw : p.worker = some w)
    (hf : w.fate.isSome = true) (htold : p.Told) (fate : Fate) : Joined p (p.joinEnded fate) := by
  unfold joinEnded
  split
  · exact (joined_note hw hf htold).still (still_say _ _ _ _ _)
  · exact joined_note hw hf htold

/-- A loop that is given up is over, and has begun as little as before. -/
theorem tended_abort {p : Progress} {w : Worker} (hw : p.worker = some w) (hf : w.fate = none) :
    Tended p { if w.begun.isSome then p.note .served else p with
      worker := some { w with fate := some .aborted } } := by
  by_cases hb : w.begun.isSome = true
  · rw [if_pos hb]
    exact tended_served hw hb hf .aborted
  · rw [if_neg hb]
    refine ⟨rfl, rfl, rfl, rfl, by rw [hw]; rfl, rfl, ?_⟩
    intro htold
    change p.story = Worker.told { w with fate := some .aborted }
    rw [htold.story hw, Worker.told, Worker.told, if_neg hb, if_neg hb]

theorem joined_abortWorker {p : Progress} {w : Worker} (hw : p.worker = some w)
    (hf : w.fate = none) (htold : p.Told) : Joined p (p.abortWorker w) := by
  let q := (p.say .warn "daemon" "API server task still running, aborting" []).diagnosticsTurn
  have hstill : Still p q := (still_say p _ _ _ _).trans (still_diagnosticsTurn _)
  have haborted := hstill.tended.trans (tended_abort (hstill.worker.trans hw) hf)
  unfold abortWorker
  refine Tended.joined (haborted.trans (Still.tended ?_)) (joined_note rfl rfl ?_)
  · exact ⟨rfl, rfl, rfl, rfl, rfl, rfl, rfl⟩
  · exact haborted.told htold

/-- Whatever the loop does until the deadline, its task is joined in the end. -/
theorem joined_joinWorker {p : Progress} (h : p.worker.isSome = true) (htold : p.Told)
    (deadline : Nat) : Joined p (p.joinWorker deadline) := by
  obtain ⟨w, hw⟩ := Option.isSome_iff_exists.mp h
  let q := p.say .info "daemon" "Waiting for tasks to finish" []
  have hstill : Still p q := still_say p _ _ _ _
  have htoldq : q.Told := hstill.tended.told htold
  have hwq : q.worker = some w := hstill.worker.trans hw
  unfold joinWorker
  rw [hw]
  dsimp only
  cases hf : w.fate with
  | some fate => exact hstill.tended.joined (joined_joinEnded hwq (by rw [hf]; rfl) htoldq fate)
  | none =>
      dsimp only
      split
      · exact hstill.tended.joined (joined_abortWorker hwq hf htoldq)
      · have hturned : Tended p q.turn := hstill.tended.trans (tended_turn q)
        have hwaited : Tended p { q.turn with now := deadline } :=
          hturned.trans ⟨rfl, rfl, rfl, rfl, rfl, rfl, id⟩
        obtain ⟨v, hv⟩ := Option.isSome_iff_exists.mp (hturned.worker.trans h)
        cases hfate : q.turn.worker.bind (·.fate) with
        | some fate =>
            have hended : v.fate = some fate := by simpa [hv] using hfate
            exact hturned.joined
              (joined_joinEnded hv (by rw [hended]; rfl) (hturned.told htold) fate)
        | none =>
            have hopen' : v.fate = none := by simpa [hv] using hfate
            cases he : q.turn.ending? with
            | none =>
                have hgiven : q.turn.worker.getD w = v := by rw [hv]; rfl
                dsimp only
                rw [hgiven]
                exact hwaited.joined (joined_abortWorker hv hopen' (hwaited.told htold))
            | some e =>
                obtain ⟨u, time, ending⟩ := e
                obtain ⟨hu, hb, hfu⟩ := ending?_eq_some he
                dsimp only
                split
                · obtain ⟨hconcluded, hworker⟩ := tended_conclude hu hb hfu time ending
                  exact (hturned.trans hconcluded).joined (joined_joinEnded hworker rfl
                    (hconcluded.told (hturned.told htold)) (.ended ending))
                · exact hwaited.joined (joined_abortWorker hu hfu (hwaited.told htold))

theorem joinWorker_none {p : Progress} (h : p.worker = none) (deadline : Nat) :
    p.joinWorker deadline = p := by
  rw [joinWorker, h]

/-! ## Listener, profile and log file -/

/-- The ledger has these entries more; the loop and the log file are as they were. -/
structure Adds (ds : List Deed) (p q : Progress) : Prop where
  ledger : q.ledger = p.ledger ++ ds
  story : q.story = p.story
  logFile : q.logFile = p.logFile
  worker : q.worker = p.worker
  history : q.history = p.history

theorem Still.adds {p q : Progress} (h : Still p q) : Adds [] p q where
  ledger := by rw [h.ledger, List.append_nil]
  story := h.story
  logFile := h.logFile
  worker := h.worker
  history := h.history

theorem Adds.trans {ds es : List Deed} {p q r : Progress} (h : Adds ds p q) (hk : Adds es q r) :
    Adds (ds ++ es) p r where
  ledger := by rw [hk.ledger, h.ledger, List.append_assoc]
  story := hk.story.trans h.story
  logFile := hk.logFile.trans h.logFile
  worker := hk.worker.trans h.worker
  history := hk.history.trans h.history

theorem adds_note (p : Progress) {d : Deed} (hk : d.keeps = true) (hl : d.loops = false) :
    Adds [d] p (p.note d) where
  ledger := by rw [ledger_note, hk, if_pos rfl]
  story := by rw [story_note, hl, if_neg Bool.false_ne_true, List.append_nil]
  logFile := rfl
  worker := rfl
  history := rfl

theorem still_abandonDiagnostics (p : Progress) : Still p p.abandonDiagnostics := by
  refine Still.trans ?_ (still_say _ _ _ _ _)
  exact ⟨rfl, rfl, rfl, rfl, rfl, rfl, rfl⟩

theorem still_endDiagnostics (p : Progress) (deadline : Nat) :
    Still p (p.endDiagnostics deadline) := by
  unfold endDiagnostics
  cases p.diagnostics with
  | none => exact Still.refl p
  | some d =>
      dsimp only
      let q : Progress := { p with diagnostics := some (d.tell p.now) }
      have htold : Still p q := ⟨rfl, rfl, rfl, rfl, rfl, rfl, rfl⟩
      have hturned : Still p q.diagnosticsTurn := htold.trans (still_diagnosticsTurn q)
      split
      · exact Still.refl p
      · split
        · exact still_diagnosticsEnd p
        · split
          · exact htold.trans (still_abandonDiagnostics q)
          · split
            · exact hturned
            · rename_i due _
              split
              · exact (hturned.trans (still_clock _ due)).trans (still_diagnosticsEnd _)
              · exact (hturned.trans (still_clock _ deadline)).trans (still_abandonDiagnostics _)

/-- A profile is ended if there is one, whether or not it can be stored. -/
theorem adds_stopProfile (p : Progress) :
    Adds (if p.profile.isSome then [.stopProfile] else []) p p.stopProfile := by
  unfold stopProfile
  cases p.profile with
  | none => exact (Still.refl p).adds
  | some profile =>
      let q : Progress := { p with profile := some { profile with ended := true } }
      have hmarked : Adds [] p q := ⟨(List.append_nil _).symm, rfl, rfl, rfl, rfl⟩
      have hstopped := (hmarked.trans (adds_note q (d := .stopProfile) rfl rfl)).trans
        (still_say (q.note .stopProfile) .info "profiling::cpu" "CPU profiling stopped"
          [("path", profile.path)]).adds
      rw [Option.isSome_some, if_pos rfl]
      dsimp only
      split
      · exact hstopped.trans (Still.adds ⟨rfl, rfl, rfl, rfl, rfl, rfl, rfl⟩)
      · exact hstopped.trans (still_say _ _ _ _ _).adds

/-- A log file is closed if there is one, whether or not it can be brought to the disk. -/
theorem adds_closeLog (p : Progress) (syncFailure : Option Os.Error) :
    Adds (if p.logFile.isSome then [.log .detach] else []) p (p.closeLog syncFailure) := by
  unfold closeLog
  cases p.logFile with
  | none => exact (Still.refl p).adds
  | some path =>
      have hdetached := adds_note p (d := .log .detach) rfl rfl
      cases syncFailure with
      | none => exact hdetached
      | some e => exact hdetached.trans (still_say _ _ _ _ _).adds

/-- Once the log file is closed, nothing but lines of the log can follow. -/
theorem closeLog_deeds {p : Progress} (h : p.logFile.isSome = true)
    (syncFailure : Option Os.Error) :
    ∃ lines : List Log.Line, (p.closeLog syncFailure).deeds.reverse =
      p.deeds.reverse ++ .log .detach :: lines.map fun line => .log (.emit line) := by
  obtain ⟨path, hp⟩ := Option.isSome_iff_exists.mp h
  unfold closeLog
  rw [hp]
  cases syncFailure with
  | none => exact ⟨[], List.reverse_cons⟩
  | some e =>
      refine ⟨[{ level := .error, source := Log.source "daemon"
                 message := "Failed to sync log file"
                 fields := [("path", path), ("error", e.describe)] }], ?_⟩
      simp [say, note]

/-! ## Everything -/

/-- What a release does once the serve loop is over. -/
def releaseRest (p : Progress) (deadline : Nat) (syncFailure : Option Os.Error) : Progress :=
  ((p.endDiagnostics deadline).stopProfile.say .info "daemon" "Goodbye" []).closeLog syncFailure

theorem release_eq (p : Progress) (seconds : Nat) (syncFailure : Option Os.Error) :
    p.release seconds syncFailure =
      ((p.closeServer seconds (p.now + seconds * 1000)).joinWorker
        (p.now + seconds * 1000)).releaseRest (p.now + seconds * 1000) syncFailure := rfl

/-- Profile and log file are given back if there are such, and the log file is closed last. -/
theorem adds_releaseRest (p : Progress) (deadline : Nat) (syncFailure : Option Os.Error) :
    Adds ((if p.profile.isSome then [.stopProfile] else []) ++
      if p.logFile.isSome then [.log .detach] else []) p (p.releaseRest deadline syncFailure) ∧
    (p.logFile.isSome = true → ∃ (before : List Deed) (lines : List Log.Line),
      (p.releaseRest deadline syncFailure).deeds.reverse =
        before ++ .log .detach :: lines.map fun line => .log (.emit line)) := by
  let stopped := (p.endDiagnostics deadline).stopProfile
  let spoken := stopped.say .info "daemon" "Goodbye" []
  have hlistener : Still p (p.endDiagnostics deadline) := still_endDiagnostics p deadline
  have hstop := adds_stopProfile (p.endDiagnostics deadline)
  rw [hlistener.profile] at hstop
  have hprofile : Adds (if p.profile.isSome then [.stopProfile] else []) p spoken := by
    have hgoodbye : Still stopped spoken := still_say stopped _ _ _ _
    simpa using (hlistener.adds.trans hstop).trans hgoodbye.adds
  have hfile := adds_closeLog spoken syncFailure
  rw [hprofile.logFile] at hfile
  refine ⟨hprofile.trans hfile, ?_⟩
  intro held
  exact ⟨spoken.deeds.reverse, closeLog_deeds (by rw [hprofile.logFile, held]) syncFailure⟩

structure Released (p q : Progress) : Prop where
  ledger : q.ledger = p.ledger ++ ((if p.worker.isSome then [.shutDown, .joined] else []) ++
    ((if p.profile.isSome then [.stopProfile] else []) ++
      if p.logFile.isSome then [.log .detach] else []))
  /-- Without a server there is no loop. -/
  idle : p.worker = none → q.worker = none ∧ q.story = p.story
  /-- With a server its loop is over. -/
  ended : p.worker.isSome = true →
    ∃ w, q.worker = some w ∧ w.fate.isSome = true ∧ q.story = w.told ++ [.joined]
  last : p.logFile.isSome = true → ∃ (before : List Deed) (lines : List Log.Line),
    q.deeds.reverse = before ++ .log .detach :: lines.map fun line => .log (.emit line)
  history : q.history = p.history

theorem released_idle {p : Progress} (hw : p.worker = none) (hc : p.closing = none)
    (seconds : Nat) (syncFailure : Option Os.Error) :
    Released p (p.release seconds syncFailure) := by
  rw [release_eq, closeServer_none hc, joinWorker_none hw]
  obtain ⟨hrest, hlast⟩ := adds_releaseRest p (p.now + seconds * 1000) syncFailure
  refine ⟨?_, fun _ => ⟨hrest.worker.trans hw, hrest.story⟩, ?_, hlast, hrest.history⟩
  · rw [hrest.ledger, hw]
    rfl
  · intro hsome
    rw [hw] at hsome
    cases hsome

theorem released_served {p : Progress} (htold : p.Told) (hw : p.worker.isSome = true)
    (hc : p.closing.isSome = true) (seconds : Nat) (syncFailure : Option Os.Error) :
    Released p (p.release seconds syncFailure) := by
  let deadline := p.now + seconds * 1000
  have hnote : Adds [.shutDown] p (p.note .shutDown) := adds_note p rfl rfl
  have htoldAsked : (p.note .shutDown).Told := hnote.story.trans htold
  have hasked := tended_closeServer hc seconds deadline
  have hjoined : Joined (p.note .shutDown) ((p.closeServer seconds deadline).joinWorker deadline) :=
    hasked.joined (joined_joinWorker (hasked.worker.trans hw) (hasked.told htoldAsked) deadline)
  obtain ⟨hrest, hlast⟩ := adds_releaseRest
    ((p.closeServer seconds deadline).joinWorker deadline) deadline syncFailure
  have hlogFile : ((p.closeServer seconds deadline).joinWorker deadline).logFile = p.logFile :=
    hjoined.logFile
  have hprofile : ((p.closeServer seconds deadline).joinWorker deadline).profile = p.profile :=
    hjoined.profile
  rw [hlogFile] at hlast
  rw [release_eq]
  refine ⟨?_, ?_, ?_, hlast, hrest.history.trans hjoined.history⟩
  · rw [hrest.ledger, hjoined.ledger, hnote.ledger, hprofile, hlogFile, hw]
    simp
  · intro hnone
    rw [hnone] at hw
    cases hw
  · intro _
    rw [hrest.worker, hrest.story]
    exact hjoined.ended

theorem released_release {p : Progress} (htold : p.Told)
    (hserved : p.closing.isSome = p.worker.isSome) (seconds : Nat)
    (syncFailure : Option Os.Error) : Released p (p.release seconds syncFailure) := by
  cases hw : p.worker with
  | none =>
      rw [hw] at hserved
      exact released_idle hw (Option.not_isSome_iff_eq_none.mp (by simp [hserved])) _ _
  | some w =>
      rw [hw] at hserved
      exact released_served htold (by rw [hw]; rfl) hserved _ _

end WalletBridge.Daemon.Progress
