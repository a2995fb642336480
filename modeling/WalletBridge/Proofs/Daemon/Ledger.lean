import WalletBridge.Daemon.Progress

/-!
# The ledger of a run

Of everything that a run does, some deeds take a resource or give it back, and some tell of its
serve loop. Read apart from the rest they make the ledger of the run and the story of its loop.
Between two entries of the ledger only tasks move on: the loop gets its turn, is over, or time
passes.
-/

namespace WalletBridge.Daemon

open Lifecycle

def Deed.keeps : Deed → Bool
  | .log (.attach _) | .log .detach | .create _ _ | .shutDown | .joined | .startProfile
  | .stopProfile => true
  | _ => false

def Deed.loops : Deed → Bool
  | .serve | .served | .joined => true
  | _ => false

/-- What a serve loop that is not joined yet has done so far. -/
def Worker.told (w : Worker) : List Deed :=
  if w.begun.isSome then if w.fate.isSome then [.serve, .served] else [.serve] else []

namespace Progress

def ledger (p : Progress) : List Deed := p.deeds.reverse.filter Deed.keeps

def story (p : Progress) : List Deed := p.deeds.reverse.filter Deed.loops

/-- The story of the loop is that of its task, which is not joined yet. -/
def Told (p : Progress) : Prop := p.story = (p.worker.map Worker.told).getD []

theorem ledger_note (p : Progress) (d : Deed) :
    (p.note d).ledger = p.ledger ++ if d.keeps then [d] else [] := by
  unfold ledger note
  rw [List.reverse_cons, List.filter_append, List.filter_cons, List.filter_nil]

theorem story_note (p : Progress) (d : Deed) :
    (p.note d).story = p.story ++ if d.loops then [d] else [] := by
  unfold story note
  rw [List.reverse_cons, List.filter_append, List.filter_cons, List.filter_nil]

/-- The ledger, the loop and everything that is held are as they were. -/
structure Still (p q : Progress) : Prop where
  ledger : q.ledger = p.ledger
  story : q.story = p.story
  logFile : q.logFile = p.logFile
  profile : q.profile = p.profile
  closing : q.closing = p.closing
  worker : q.worker = p.worker
  history : q.history = p.history

/-- Only the serve loop may have moved on. -/
structure Tended (p q : Progress) : Prop where
  ledger : q.ledger = p.ledger
  logFile : q.logFile = p.logFile
  profile : q.profile = p.profile
  closing : q.closing = p.closing
  worker : q.worker.isSome = p.worker.isSome
  history : q.history = p.history
  told : p.Told → q.Told

theorem Still.refl (p : Progress) : Still p p := ⟨rfl, rfl, rfl, rfl, rfl, rfl, rfl⟩

theorem Still.trans {p q r : Progress} (h : Still p q) (hk : Still q r) : Still p r where
  ledger := hk.ledger.trans h.ledger
  story := hk.story.trans h.story
  logFile := hk.logFile.trans h.logFile
  profile := hk.profile.trans h.profile
  closing := hk.closing.trans h.closing
  worker := hk.worker.trans h.worker
  history := hk.history.trans h.history

theorem Tended.refl (p : Progress) : Tended p p := ⟨rfl, rfl, rfl, rfl, rfl, rfl, id⟩

theorem Tended.trans {p q r : Progress} (h : Tended p q) (hk : Tended q r) : Tended p r where
  ledger := hk.ledger.trans h.ledger
  logFile := hk.logFile.trans h.logFile
  profile := hk.profile.trans h.profile
  closing := hk.closing.trans h.closing
  worker := hk.worker.trans h.worker
  history := hk.history.trans h.history
  told := hk.told ∘ h.told

theorem Still.tended {p q : Progress} (h : Still p q) : Tended p q where
  ledger := h.ledger
  logFile := h.logFile
  profile := h.profile
  closing := h.closing
  worker := by rw [h.worker]
  history := h.history
  told := by
    intro htold
    unfold Told
    rw [h.story, h.worker]
    exact htold

/-- A deed of neither kind leaves no trace. -/
theorem still_note (p : Progress) {d : Deed} (hk : d.keeps = false) (hl : d.loops = false) :
    Still p (p.note d) := by
  refine ⟨?_, ?_, rfl, rfl, rfl, rfl, rfl⟩
  · rw [ledger_note, hk, if_neg Bool.false_ne_true, List.append_nil]
  · rw [story_note, hl, if_neg Bool.false_ne_true, List.append_nil]

theorem still_say (p : Progress) (level : Log.Level) (part message : String)
    (fields : List (String × String)) : Still p (p.say level part message fields) :=
  still_note p rfl rfl

theorem still_diagnosticsBegin (p : Progress) : Still p p.diagnosticsBegin := by
  unfold diagnosticsBegin
  split
  · split
    · refine Still.trans ?_ (still_say _ _ _ _ _)
      exact ⟨rfl, rfl, rfl, rfl, rfl, rfl, rfl⟩
    · refine Still.trans ?_ (still_say _ _ _ _ _)
      exact ⟨rfl, rfl, rfl, rfl, rfl, rfl, rfl⟩
  · exact Still.refl p

theorem still_diagnosticsEnd (p : Progress) : Still p p.diagnosticsEnd := by
  unfold diagnosticsEnd
  split
  · split
    · exact ⟨rfl, rfl, rfl, rfl, rfl, rfl, rfl⟩
    · exact Still.refl p
  · exact Still.refl p

theorem still_diagnosticsTurn (p : Progress) : Still p p.diagnosticsTurn :=
  (still_diagnosticsBegin p).trans (still_diagnosticsEnd _)

theorem Still.note {p q : Progress} (h : Still p q) (d : Deed) : Still (p.note d) (q.note d) where
  ledger := by rw [ledger_note, ledger_note, h.ledger]
  story := by rw [story_note, story_note, h.story]
  logFile := h.logFile
  profile := h.profile
  closing := h.closing
  worker := h.worker
  history := h.history

/-! ## The serve loop moves on -/

/-- A loop that will end has begun and is not over. -/
theorem ending?_eq_some {p : Progress} {w : Worker} {time : Nat} {ending : Ending}
    (h : p.ending? = some (w, time, ending)) :
    p.worker = some w ∧ w.begun.isSome = true ∧ w.fate = none := by
  unfold ending? at h
  cases hw : p.worker with
  | none => simp [hw] at h
  | some v =>
      rw [hw, Option.bind_some] at h
      cases hf : v.fate with
      | some fate => simp [hf] at h
      | none =>
          rw [hf, Option.isSome_none, if_neg Bool.false_ne_true, Option.map_eq_some_iff] at h
          obtain ⟨e, he, hv⟩ := h
          obtain rfl : v = w := congrArg Prod.fst hv
          refine ⟨rfl, ?_, hf⟩
          cases hb : v.begun with
          | none => simp [Worker.ending?, hb] at he
          | some begun => rfl

private theorem still_unbound (p : Progress) (address : Option Net.SocketAddress) :
    Still p (match address with
      | some address =>
        { p with network := p.network.release address }.say .info "http::server"
          "API server stopped" []
      | none => p) := by
  cases address with
  | none => exact Still.refl p
  | some address =>
      refine Still.trans ?_ (still_say _ _ _ _ _)
      exact ⟨rfl, rfl, rfl, rfl, rfl, rfl, rfl⟩

theorem Told.story {p : Progress} {w : Worker} (h : p.Told) (hw : p.worker = some w) :
    p.story = w.told := by
  rw [h, hw]
  rfl

/-- A loop that has begun is over when its end is noted. -/
theorem tended_served {p : Progress} {w : Worker} (hw : p.worker = some w)
    (hb : w.begun.isSome = true) (hf : w.fate = none) (fate : Fate) :
    Tended p ({ p with worker := some { w with fate := some fate } }.note .served) := by
  refine ⟨?_, rfl, rfl, rfl, ?_, rfl, ?_⟩
  · exact (ledger_note _ _).trans (List.append_nil _)
  · rw [hw]
    rfl
  · intro htold
    have hbefore : p.story = [.serve] := by
      rw [htold.story hw, Worker.told, hb, hf]
      rfl
    have hafter : Worker.told { w with fate := some fate } = [.serve, .served] := by
      rw [Worker.told, hb]
      rfl
    refine (story_note _ _).trans ?_
    change p.story ++ [.served] = Worker.told { w with fate := some fate }
    rw [hbefore, hafter]
    rfl

/-- Whatever the last words of a loop are, its end is the one thing told of it. -/
theorem tended_conclude {p : Progress} {w : Worker} (hw : p.worker = some w)
    (hb : w.begun.isSome = true) (hf : w.fate = none) (time : Nat) (ending : Ending) :
    Tended p (p.conclude w time ending) ∧
      (p.conclude w time ending).worker = some { w with fate := some (.ended ending) } := by
  let w' : Worker := { w with fate := some (.ended ending) }
  let ended : Progress := { p with now := max p.now time, worker := some w' }
  have hwords : Still (ended.note .served) (p.conclude w time ending) := by
    have hunbound := (still_unbound ended w.address).note .served
    cases ending with
    | failed e => exact hunbound.trans (still_say _ _ _ _ _)
    | _ => exact hunbound
  have hclock : Still ({ p with worker := some w' }.note .served) (ended.note .served) :=
    ⟨rfl, rfl, rfl, rfl, rfl, rfl, rfl⟩
  exact ⟨(tended_served hw hb hf (.ended ending)).trans (hclock.trans hwords).tended, hwords.worker⟩

/-- A loop gets its first turn only when it has not begun. -/
theorem workerWaits_eq_true {p : Progress} {w : Worker} (hw : p.worker = some w)
    (h : p.workerWaits = true) : w.begun = none ∧ w.fate = none := by
  rw [workerWaits, hw, Option.any_some, Bool.and_eq_true, Option.isNone_iff_eq_none,
    Option.isNone_iff_eq_none] at h
  exact h

theorem tended_serve {p : Progress} {w : Worker} (hw : p.worker = some w) (hb : w.begun = none)
    (hf : w.fate = none) :
    Tended p ({ p with worker := some { w with begun := some p.now } }.note .serve) := by
  refine ⟨?_, rfl, rfl, rfl, ?_, rfl, ?_⟩
  · exact (ledger_note _ _).trans (List.append_nil _)
  · rw [hw]
    rfl
  · intro htold
    have hbefore : p.story = [] := by
      rw [htold.story hw, Worker.told, hb]
      rfl
    have hafter : Worker.told { w with begun := some p.now } = [.serve] := by
      rw [Worker.told, hf]
      rfl
    refine (story_note _ _).trans ?_
    change p.story ++ [.serve] = Worker.told { w with begun := some p.now }
    rw [hbefore, hafter]
    rfl

theorem tended_workerTurn (p : Progress) : Tended p p.workerTurn := by
  unfold workerTurn
  cases hw : p.worker with
  | none => exact Tended.refl p
  | some w =>
      dsimp only
      split
      · rename_i hwait
        obtain ⟨hb, hf⟩ := workerWaits_eq_true hw hwait
        let w' : Worker := { w with begun := some p.now }
        let begun : Progress := { p with worker := some w' }.note .serve
        have hfirst : Tended p begun := tended_serve hw hb hf
        change Tended p (match w.address with
          | some address =>
            if w.asked.isSome then
              { begun with worker := some { w' with fate := some (.ended .finished) } }.note .served
            else begun.say .info "http::server" "API server listening" [("address", address.text)]
          | none => begun)
        split
        · split
          · exact hfirst.trans (tended_served (w := w') rfl rfl hf (.ended .finished))
          · exact hfirst.trans (still_say _ _ _ _ _).tended
        · exact hfirst
      · exact Tended.refl p

theorem tended_turn (p : Progress) : Tended p p.turn :=
  (still_diagnosticsTurn p).tended.trans (tended_workerTurn _)

theorem still_clock (p : Progress) (now : Nat) : Still p { p with now } :=
  ⟨rfl, rfl, rfl, rfl, rfl, rfl, rfl⟩

theorem tended_loopBy (p : Progress) (limit : Nat) : Tended p (p.loopBy limit).2 := by
  unfold loopBy
  cases he : p.ending? with
  | none => exact Tended.refl p
  | some e =>
      obtain ⟨w, time, ending⟩ := e
      obtain ⟨hw, hb, hf⟩ := ending?_eq_some he
      dsimp only
      split
      · exact (tended_conclude hw hb hf time ending).1
      · exact Tended.refl p

theorem tended_passTo (p : Progress) (limit : Nat) : Tended p (p.passTo limit) := by
  have hclock (q : Progress) : Tended q { q with now := limit } := (still_clock q limit).tended
  unfold passTo
  cases he : p.ending? with
  | none => exact hclock p
  | some e =>
      obtain ⟨w, time, ending⟩ := e
      obtain ⟨hw, hb, hf⟩ := ending?_eq_some he
      dsimp only
      split
      · exact (tended_conclude hw hb hf time ending).1.trans (hclock _)
      · exact hclock p

/-- Being asked to stop is not told of. -/
theorem tended_ask (p : Progress) :
    Tended p { p with worker := p.worker.map fun (w : Worker) => w.ask p.now } := by
  refine ⟨rfl, rfl, rfl, rfl, Option.isSome_map, rfl, ?_⟩
  intro htold
  change p.story = ((p.worker.map fun (w : Worker) => w.ask p.now).map Worker.told).getD []
  rw [htold, Option.map_map]
  rfl

end Progress

end WalletBridge.Daemon
