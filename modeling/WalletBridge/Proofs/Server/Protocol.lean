import WalletBridge.Proofs.Server.Tenure

/-! # Serving and shutting down over whole histories

A history is any list of events. `Sound` ties everything that ever happened in one
to the tenure at its end: who owned the listener, whether a call to shut down took
it, which calls missed it, and what was told. One more event keeps it, so every
history has a tenure, and `Orderly` collects what callers can rely on.
-/

namespace WalletBridge.Http.Server

variable {ι : Type}

/-- The call to serve has the listener, or had it last. -/
def Tenure.Had (t : Tenure ι) (id : ι) : Prop := t = .held id ∨ t = .past id

/-- Once the listener was taken, the one that had it stays the same. -/
theorem Moves.had_iff {e : Event ι} {t t' : Tenure ι} (h : Moves e t t') (ht : t ≠ .untaken)
    (id : ι) : t'.Had id ↔ t.Had id := by
  cases h with
  | taken => exact absurd rfl ht
  | shut => exact absurd rfl ht
  | _ => simp [Tenure.Had]

theorem Moves.eq_of_ended {e : Event ι} {t t' : Tenure ι} (h : Moves e t t')
    (ht : t = .shut ∨ ∃ id, t = .past id) : t' = t := by
  cases h with
  | stays => rfl
  | _ => simp at ht

variable [DecidableEq ι]

section
variable {events earlier later : List (Event ι)} {e : Event ι} {t t' : Tenure ι} {id : ι}

theorem Owned.mono (h : Owned events id) : Owned (events ++ [e]) id :=
  owned_concat.mpr (.inl h)

theorem shut_concat : Shut (events ++ [e]) ↔ Shut events ∨
    (∃ id, e = .take id) ∧ (after events).listener = true ∧
      (after (events ++ [e])).listener = false := by
  unfold Shut
  simp only [List.prefix_concat_iff]
  constructor
  · rintro ⟨earlier, id, hwhole | hearlier, hbefore, hafter⟩
    · obtain ⟨rfl, rfl⟩ : earlier = events ∧ .take id = e := by simpa using hwhole
      exact .inr ⟨⟨id, rfl⟩, hbefore, hafter⟩
    · exact .inl ⟨earlier, id, hearlier, hbefore, hafter⟩
  · rintro (⟨earlier, id, hearlier, htaken⟩ | ⟨⟨id, rfl⟩, htaken⟩)
    · exact ⟨earlier, id, .inr hearlier, htaken⟩
    · exact ⟨events, id, .inl rfl, htaken⟩

/-! ## The tenure of a history -/

/-- The tenure tells everything that the events did. -/
structure Sound (events : List (Event ι)) (t : Tenure ι) : Prop where
  tells : Tells (after events) t
  waits : Waits (after events) t
  owned : ∀ id, Owned events id ↔ t.Had id
  shut : Shut events ↔ t = .shut
  /-- A call that is empty-handed came after the listener was taken. -/
  missed : ∀ id, (id, .emptyHanded) ∈ (after events).serving → t ≠ .untaken ∧ ¬ Owned events id
  closed : ∀ id, .closed id ∈ effects events → t = .shut ∨ ∃ owner, t = .past owner
  refused : ∀ id, .served id (.error .alreadyStarted) ∈ effects events →
    ∃ other, other ≠ id ∧ Owned events other

theorem sound_nil : Sound ([] : List (Event ι)) .untaken where
  tells := ⟨by simp [after, run], rfl, by simp [after, run]⟩
  waits := ⟨.inl rfl, by simp⟩
  owned id := by simp [Owned, Tenure.Had, after, run, owners]
  shut := by simp [Shut]
  missed := by simp [after, run]
  closed := by simp [effects, run]
  refused := by simp [effects, run]

theorem Sound.owned_step (h : Sound events t) (hmoves : Moves e t t')
    (htells : Tells (after (events ++ [e])) t') (id : ι) :
    Owned (events ++ [e]) id ↔ t'.Had id := by
  rw [owned_concat, h.owned, htells.owners, Tenure.mem_owners]
  cases hmoves with
  | stays => exact or_iff_left_of_imp .inl
  | _ => simp [Tenure.Had]

theorem Sound.shut_step (h : Sound events t) (hmoves : Moves e t t')
    (htells : Tells (after (events ++ [e])) t') : Shut (events ++ [e]) ↔ t' = .shut := by
  have hgone : (after (events ++ [e])).listener = false ↔ t' ≠ .untaken := by
    rw [Ne, ← htells.listener, Bool.not_eq_true]
  rw [shut_concat, h.shut, h.tells.listener, hgone]
  cases hmoves with
  | stays =>
      refine ⟨?_, .inl⟩
      rintro (ht | ⟨-, huntaken, htaken⟩)
      · exact ht
      · exact absurd huntaken htaken
  | _ => simp

/-- A call that finds no listener is told of in the tenure, and it is not the one that had it. -/
theorem Sound.missed_step (h : Sound events t) (hmoves : Moves e t t')
    (hfresh : ∀ id, e = .serve id → .serve id ∉ events)
    (howned : ∀ id, Owned (events ++ [e]) id ↔ t'.Had id) :
    ∀ id, (id, .emptyHanded) ∈ (after (events ++ [e])).serving →
      t' ≠ .untaken ∧ ¬ Owned (events ++ [e]) id := by
  intro id hmem
  rw [after_concat] at hmem
  have hbefore : t ≠ .untaken ∧ ¬ Owned events id := by
    rcases (step_spec _ e).of_emptyHanded hmem with hmem | ⟨rfl, hlistener⟩
    · exact h.missed id hmem
    · refine ⟨fun ht => ?_, fun howned => hfresh id rfl howned.begun⟩
      rw [h.tells.listener.mpr ht] at hlistener
      cases hlistener
  refine ⟨fun ht => hbefore.1 (hmoves.untaken ht), ?_⟩
  rw [howned, hmoves.had_iff hbefore.1, ← h.owned]
  exact hbefore.2

theorem Sound.closed_step (h : Sound events t) (hmoves : Moves e t t')
    (htells : Tells (after (events ++ [e])) t') :
    ∀ id, .closed id ∈ effects (events ++ [e]) → t' = .shut ∨ ∃ owner, t' = .past owner := by
  intro id hmem
  rw [effects_concat, List.mem_append, List.mem_singleton] at hmem
  rcases hmem with hmem | heffect
  · have hended := h.closed id hmem
    exact hmoves.eq_of_ended hended ▸ hended
  · rw [after_concat] at htells
    rcases (step_spec _ e).of_closed heffect.symm with ⟨rfl, hlistener, hgone⟩ | hstopped
    · have htaken : t' ≠ .untaken := by
        rw [Ne, ← htells.listener, hgone]
        simp
      cases hmoves with
      | stays => exact absurd (h.tells.listener.mp hlistener) htaken
      | shut => exact .inl rfl
    · have hended : t = .shut ∨ ∃ owner, t = .past owner := .inr (h.tells.stopped.mp hstopped)
      exact hmoves.eq_of_ended hended ▸ hended

theorem Sound.refused_step (h : Sound events t) :
    ∀ id, .served id (.error .alreadyStarted) ∈ effects (events ++ [e]) →
      ∃ other, other ≠ id ∧ Owned (events ++ [e]) other := by
  intro id hmem
  rw [effects_concat, List.mem_append, List.mem_singleton] at hmem
  have hbefore : ∃ other, other ≠ id ∧ Owned events other := by
    rcases hmem with hmem | heffect
    · exact h.refused id hmem
    · obtain ⟨hplace, hstop⟩ := (step_spec _ e).of_refused heffect.symm
      obtain ⟨htaken, hnot⟩ := h.missed id (mem_of_stateOf hplace)
      have hne : ∀ other, Owned events other → other ≠ id := by
        rintro other howned rfl
        exact hnot howned
      cases t with
      | untaken => exact absurd rfl htaken
      | held owner =>
          have howned : Owned events owner := (h.owned owner).mpr (.inl rfl)
          exact ⟨owner, hne owner howned, howned⟩
      | past owner =>
          have howned : Owned events owner := (h.owned owner).mpr (.inr rfl)
          exact ⟨owner, hne owner howned, howned⟩
      -- Where a call to shut down has the listener, the server was stopped, and nobody is refused.
      | shut => exact absurd (h.waits.stop rfl) (by simp [hstop])
  obtain ⟨other, hne, howned⟩ := hbefore
  exact ⟨other, hne, howned.mono⟩

theorem Sound.step (h : Sound events t) (hproper : Proper (events ++ [e])) :
    ∃ t', Sound (events ++ [e]) t' := by
  have hstep := step_spec (after events) e
  obtain ⟨t', hmoves, htells⟩ := h.tells.step hproper.of_append.serving_names hstep
  have hfresh : ∀ id, e = .serve id → .serve id ∉ events := by
    rintro id rfl
    exact hproper.fresh
  have hfirst : ∀ id, e = .shutDown id → (after events).stop = false := by
    rintro id rfl
    rw [← Bool.not_eq_true, stop_iff]
    rintro ⟨other, hother⟩
    exact hproper.first other hother
  have hwaits := h.waits.step h.tells hstep hmoves htells hfirst
  rw [← after_concat] at htells hwaits
  have howned := h.owned_step hmoves htells
  exact ⟨t', htells, hwaits, howned, h.shut_step hmoves htells,
    h.missed_step hmoves hfresh howned, h.closed_step hmoves htells, h.refused_step⟩

theorem exists_sound (h : Proper events) : ∃ t, Sound events t := by
  induction events using List.reverseRecOn with
  | nil => exact ⟨.untaken, sound_nil⟩
  | append_singleton events e ih =>
      obtain ⟨t, hsound⟩ := ih h.of_append
      exact hsound.step h

/-! ## What callers can rely on -/

/-- A history keeps its promises to the calls that it serves and to the one that shuts down. -/
structure Orderly (events : List (Event ι)) : Prop where
  /-- No two calls to serve ever own the listener, neither at once nor one after another. -/
  sole : ∀ a b, Owned events a → Owned events b → a = b
  single : (after events).owners.length ≤ 1
  /-- Who is refused for having served came after another owner, and before the stop. -/
  refused : ∀ id, .served id (.error .alreadyStarted) ∈ effects events →
    (∃ other, other ≠ id ∧ Owned events other) ∧
    ∀ earlier later, events = earlier ++ .serve id :: later → ∀ c, .shutDown c ∉ earlier
  /-- Who begins after the listener was shut never serves, and returns without an error. -/
  late : ∀ id earlier later, events = earlier ++ .serve id :: later → Shut earlier →
    ¬ Owned events id ∧ (∀ result, .served id result ∈ effects events → result = .ok ()) ∧
    (.look id ∈ later → .served id (.ok ()) ∈ effects events)
  closed : ∀ id, .closed id ∈ effects events → (after events).owners = []
  /-- A call to shut down waits for somebody who serves, or can leave at once. -/
  waiting : ∀ id, (id, .waiting) ∈ (after events).closing → (after events).owners ≠ [] ∨
    (after events).stopped = true ∧ ((after events).step (.leave id)).2 = .closed id

theorem Sound.owners_of_ended (h : Sound events t) (ht : t = .shut ∨ ∃ owner, t = .past owner) :
    (after events).owners = [] := by
  rw [h.tells.owners]
  rcases ht with rfl | ⟨owner, rfl⟩ <;> rfl

theorem Sound.closed_of_shut (h : Sound events t) (hshut : Shut events) :
    (after events).Closed := by
  obtain rfl := h.shut.mp hshut
  refine ⟨?_, h.owners_of_ended (.inl rfl), h.waits.stop rfl⟩
  rw [← Bool.not_eq_true, h.tells.listener]
  simp

/-- A call that begins in a closed server returns without an error once it looks. -/
theorem late_of_closed (hproper : Proper (earlier ++ .serve id :: later))
    (hclosed : (after earlier).Closed) :
    (∀ result, .served id result ∈ effects (earlier ++ .serve id :: later) → result = .ok ()) ∧
    (.look id ∈ later → .served id (.ok ()) ∈ effects (earlier ++ .serve id :: later)) := by
  rw [effects_append]
  constructor
  · intro result hmem
    rcases List.mem_append.mp hmem with hmem | hmem
    · exact absurd (served_begun hmem) hproper.fresh
    · exact hclosed.run.2 id result hmem
  · intro hlook
    have habsent : ∀ call ∈ (after earlier).serving, call.1 ≠ id := by
      rintro call hcall rfl
      exact hproper.fresh (serving_begun earlier call hcall)
    have hplace : stateOf ((after earlier).step (.serve id)).1.serving id = some .emptyHanded := by
      simp only [step, hclosed.listener, Bool.false_eq_true, if_false]
      exact stateOf_concat_self habsent
    have hserved := run_look hplace ((step_spec _ _).stop hclosed.stop) hlook
    exact List.mem_append_right _ (List.mem_cons_of_mem _ hserved)

/-- A call that begins after the stop is not refused. -/
theorem refused_before_stop (hproper : Proper (earlier ++ .serve id :: later))
    (hrefused : .served id (.error .alreadyStarted) ∈ effects (earlier ++ .serve id :: later))
    (c : ι) : .shutDown c ∉ earlier := by
  intro hmem
  have hstop := (stop_iff earlier).mpr ⟨c, hmem⟩
  rw [effects_append, List.mem_append] at hrefused
  rcases hrefused with hrefused | hrefused
  · exact hproper.fresh (served_begun hrefused)
  · exact run_refuses hstop hrefused

/-- Nobody who begins after the listener was shut ever owns it. -/
theorem Owned.not_late (hproper : Proper (earlier ++ .serve id :: later))
    (hclosed : (after earlier).Closed) : ¬ Owned (earlier ++ .serve id :: later) id := by
  rintro ⟨first, hfirst, hid⟩
  rcases List.prefix_or_prefix_of_prefix hfirst (List.prefix_append _ _) with hbefore | ⟨more, rfl⟩
  · obtain ⟨place, hplace, -⟩ := mem_ownersOf.mp hid
    exact hproper.fresh (hbefore.subset (serving_begun first _ hplace))
  · rw [after_append, hclosed.run.1.owners] at hid
    cases hid

/-- Whatever the order of its events, a server of which every call has a name of its own and which
is shut down once at most keeps its promises. -/
theorem run_orderly (h : Proper events) : Orderly events := by
  -- The history is judged by the one tenure at its end; only `late` needs an earlier one as well.
  obtain ⟨t, hsound⟩ := exists_sound h
  refine ⟨?sole, ?single, ?refused, ?late, ?closed, ?waiting⟩
  case sole =>
    intro a b ha hb
    rcases (hsound.owned a).mp ha with rfl | rfl <;>
      simpa [Tenure.Had, eq_comm] using (hsound.owned b).mp hb
  case single =>
    rw [hsound.tells.owners]
    cases t <;> simp [Tenure.owners]
  case refused =>
    intro id hrefused
    refine ⟨hsound.refused id hrefused, ?_⟩
    rintro earlier later rfl
    exact refused_before_stop h hrefused
  case late =>
    rintro id earlier later rfl hshut
    obtain ⟨t, hearlier⟩ := exists_sound h.of_append
    have hclosed := hearlier.closed_of_shut hshut
    exact ⟨Owned.not_late h hclosed, late_of_closed h hclosed⟩
  case closed => exact fun id hclosed => hsound.owners_of_ended (hsound.closed id hclosed)
  case waiting =>
    intro id hmem
    have hone : (after events).closing = [(id, .waiting)] ∧ t ≠ .shut ∧ t ≠ .untaken := by
      rcases hsound.waits.closing with hnil | ⟨other, place, hclosing, -, hnot, hwaits⟩
      · simp [hnil] at hmem
      · rw [hclosing, List.mem_singleton, Prod.mk.injEq] at hmem
        obtain ⟨rfl, rfl⟩ := hmem
        exact ⟨hclosing, hnot, hwaits rfl⟩
    obtain ⟨hclosing, hnot, htaken⟩ := hone
    cases t with
    | untaken => exact absurd rfl htaken
    | shut => exact absurd rfl hnot
    | held owner =>
        refine .inl ?_
        rw [hsound.tells.owners]
        simp [Tenure.owners]
    | past owner =>
        have hstopped := hsound.tells.stopped.mpr ⟨owner, rfl⟩
        exact .inr ⟨hstopped, by simp [step, hclosing, hstopped]⟩

end

/-- One call serves, a second one is refused, a third comes too late, and the call to shut down
waits for the first. -/
theorem run_orderly_interleaved :
    let events : List (Event Nat) := [.serve 1, .serve 2, .look 2, .shutDown 0, .take 0, .arm 1,
      .serve 3, .look 3, .finish 1 none, .leave 0]
    effects events = [.nothing, .nothing, .served 2 (.error .alreadyStarted), .nothing, .nothing,
      .nothing, .nothing, .served 3 (.ok ()), .served 1 (.ok ()), .closed 0] ∧
    Proper events ∧ Orderly events := by
  intro events
  have hproper : Proper events := ⟨by decide, by decide⟩
  exact ⟨rfl, hproper, run_orderly hproper⟩

end WalletBridge.Http.Server
