import Mathlib.Data.List.Infix
import Mathlib.Data.List.Nodup
import WalletBridge.Http.Server

/-! # The calls inside a server, event by event

What the events of a history left behind, and what they led to. The laws here are
about one state and the events that follow it, whatever came before: a server
that was stopped stays stopped, one whose listener a call to shut down has taken
never gives it to anyone, and a call that is empty-handed returns when it looks.
-/

namespace WalletBridge.Http.Server

variable {ι : Type}

/-! ## Histories -/

def Event.begun? : Event ι → Option ι
  | .serve id => some id
  | _ => none

def Event.asked? : Event ι → Option ι
  | .shutDown id => some id
  | _ => none

/-- Every call to serve has a name of its own, and there is one call to shut down at most. -/
structure Proper (events : List (Event ι)) : Prop where
  names : (events.filterMap Event.begun?).Nodup
  single : (events.filterMap Event.asked?).length ≤ 1

section
variable {earlier later : List (Event ι)} {id : ι}

theorem Proper.of_append (h : Proper (earlier ++ later)) : Proper earlier := by
  obtain ⟨hnames, hsingle⟩ := h
  rw [List.filterMap_append] at hnames hsingle
  refine ⟨hnames.sublist (List.sublist_append_left _ _), ?_⟩
  rw [List.length_append] at hsingle
  omega

theorem Proper.fresh (h : Proper (earlier ++ .serve id :: later)) : .serve id ∉ earlier := by
  intro hmem
  have hnames := h.names
  rw [List.filterMap_append, List.nodup_append] at hnames
  have hbegun : id ∈ earlier.filterMap Event.begun? := List.mem_filterMap.mpr ⟨_, hmem, rfl⟩
  exact hnames.2.2 id hbegun id (by simp [Event.begun?]) rfl

theorem Proper.first (h : Proper (earlier ++ .shutDown id :: later)) (other : ι) :
    .shutDown other ∉ earlier := by
  intro hmem
  have hsingle := h.single
  have hasked : other ∈ earlier.filterMap Event.asked? := List.mem_filterMap.mpr ⟨_, hmem, rfl⟩
  have hlength := List.length_pos_of_mem hasked
  rw [List.filterMap_append, List.length_append] at hsingle
  simp only [Event.asked?, List.filterMap_cons, List.length_cons] at hsingle
  omega

end

/-! ## Who owns the listener -/

def ownersOf (serving : List (ι × Serving)) : List ι :=
  (serving.filter (·.2 != .emptyHanded)).map (·.1)

theorem owners_eq (s : Server ι) : s.owners = ownersOf s.serving := rfl

section
variable {serving : List (ι × Serving)} {id : ι} {place : Serving}

theorem mem_ownersOf : id ∈ ownersOf serving ↔ ∃ place, (id, place) ∈ serving ∧
    place ≠ .emptyHanded := by
  simp [ownersOf]

theorem ownersOf_concat : ownersOf (serving ++ [(id, place)]) =
    ownersOf serving ++ if place = .emptyHanded then [] else [id] := by
  by_cases h : place = .emptyHanded <;> simp [ownersOf, h]

end

theorem names_concat {α : Type} {calls : List (ι × α)} {id : ι} {a : α}
    (h : (calls.map (·.1)).Nodup) (hfresh : ∀ call ∈ calls, call.1 ≠ id) :
    ((calls ++ [(id, a)]).map (·.1)).Nodup := by
  rw [List.map_append, List.nodup_append]
  refine ⟨h, by simp, ?_⟩
  intro x hx y hy
  obtain ⟨call, hcall, rfl⟩ := List.mem_map.mp hx
  simp only [List.map_cons, List.map_nil, List.mem_singleton] at hy
  exact hy ▸ hfresh call hcall

variable [DecidableEq ι]

/-! ## Names among calls -/

section
variable {α : Type} {calls more : List (ι × α)} {id other : ι} {a : α}

theorem mem_of_stateOf (h : stateOf calls id = some a) : (id, a) ∈ calls := by
  obtain ⟨⟨name, b⟩, hfound, rfl⟩ := Option.map_eq_some_iff.mp h
  have hname : name = id := by simpa using List.find?_some hfound
  exact hname ▸ List.mem_of_find?_eq_some hfound

theorem stateOf_of_mem (hnames : (calls.map (·.1)).Nodup) (h : (id, a) ∈ calls) :
    stateOf calls id = some a := by
  induction calls with
  | nil => cases h
  | cons first calls ih =>
      simp only [List.map_cons, List.nodup_cons, List.mem_map, not_exists, not_and] at hnames
      rcases List.mem_cons.mp h with rfl | h
      · simp [stateOf]
      · have hne : first.1 ≠ id := fun he => hnames.1 (id, a) h he.symm
        have hlater := ih hnames.2 h
        unfold stateOf at hlater ⊢
        rw [List.find?_cons_of_neg (by simpa using hne)]
        exact hlater

@[simp] theorem stateOf_singleton (id : ι) (a : α) : stateOf [(id, a)] id = some a := by
  simp [stateOf]

@[simp] theorem without_singleton (id : ι) (a : α) : without [(id, a)] id = [] := by
  simp [without]

theorem stateOf_append (h : stateOf calls id = some a) : stateOf (calls ++ more) id = some a := by
  obtain ⟨found, hfound, rfl⟩ := Option.map_eq_some_iff.mp h
  simp [stateOf, List.find?_append, hfound]

theorem stateOf_without (h : other ≠ id) : stateOf (without calls other) id = stateOf calls id := by
  unfold stateOf without
  rw [List.find?_filter]
  congr 2
  funext call
  by_cases hname : call.1 = id <;> simp [hname, Ne.symm h]

theorem stateOf_concat_self (h : ∀ call ∈ calls, call.1 ≠ id) :
    stateOf (calls ++ [(id, a)]) id = some a := by
  have hnone : calls.find? (·.1 == id) = none := List.find?_eq_none.mpr (by simpa using h)
  simp [stateOf, List.find?_append, hnone]

theorem mem_without {call : ι × α} : call ∈ without calls id ↔ call ∈ calls ∧ call.1 ≠ id := by
  simp [without]

theorem without_names (h : (calls.map (·.1)).Nodup) : ((without calls id).map (·.1)).Nodup :=
  h.sublist (List.filter_sublist.map _)

end

section
variable {serving : List (ι × Serving)} {id : ι}

theorem ownersOf_without : ownersOf (without serving id) = (ownersOf serving).filter (· != id) := by
  simp only [ownersOf, without, List.filter_map, List.filter_filter]
  congr 2
  funext call
  simp [Bool.and_comm]

/-- A call that is known not to own the listener may leave. -/
theorem ownersOf_without_of_not_mem (h : id ∉ ownersOf serving) :
    ownersOf (without serving id) = ownersOf serving := by
  rw [ownersOf_without, List.filter_eq_self]
  intro other hother
  have hne : other ≠ id := fun he => h (he ▸ hother)
  simpa using hne

end

/-! ## What events leave behind -/

def after (events : List (Event ι)) : Server ι := (({} : Server ι).run events).1

def effects (events : List (Event ι)) : List (Effect ι) := (({} : Server ι).run events).2

/-- The call to serve owned the listener at some time. -/
def Owned (events : List (Event ι)) (id : ι) : Prop :=
  ∃ earlier, earlier <+: events ∧ id ∈ (after earlier).owners

/-- A call to shut down took the listener at some time. -/
def Shut (events : List (Event ι)) : Prop :=
  ∃ earlier id, earlier ++ [.take id] <+: events ∧ (after earlier).listener = true ∧
    (after (earlier ++ [.take id])).listener = false

theorem run_append (s : Server ι) (earlier later : List (Event ι)) :
    s.run (earlier ++ later) = (((s.run earlier).1.run later).1,
      (s.run earlier).2 ++ ((s.run earlier).1.run later).2) := by
  induction earlier generalizing s with
  | nil => rfl
  | cons e earlier ih => simp [run, ih]

section
variable {events earlier later : List (Event ι)} {e : Event ι} {id : ι}

theorem after_append : after (earlier ++ later) = ((after earlier).run later).1 := by
  simp [after, run_append]

theorem effects_append :
    effects (earlier ++ later) = effects earlier ++ ((after earlier).run later).2 := by
  simp [effects, after, run_append]

theorem after_concat : after (events ++ [e]) = ((after events).step e).1 := after_append

theorem effects_concat :
    effects (events ++ [e]) = effects events ++ [((after events).step e).2] := effects_append

theorem owned_concat :
    Owned (events ++ [e]) id ↔ Owned events id ∨ id ∈ (after (events ++ [e])).owners := by
  unfold Owned
  simp only [List.prefix_concat_iff]
  constructor
  · rintro ⟨earlier, rfl | hearlier, hid⟩
    · exact .inr hid
    · exact .inl ⟨earlier, hearlier, hid⟩
  · rintro (⟨earlier, hearlier, hid⟩ | hid)
    · exact ⟨earlier, .inr hearlier, hid⟩
    · exact ⟨_, .inl rfl, hid⟩

end

/-! ## What one event does, whatever came before -/

/-- Everything an event can do to a server, each with what it needs. -/
inductive Transition (s : Server ι) : Event ι → Server ι → Effect ι → Prop where
  /-- A call to serve begins and takes the listener. -/
  | taken (id : ι) (hlistener : s.listener = true) : Transition s (.serve id)
      { s with listener := false, serving := s.serving ++ [(id, .holding)] } .nothing
  /-- A call to serve begins and finds no listener. -/
  | missed (id : ι) (hlistener : s.listener = false) : Transition s (.serve id)
      { s with serving := s.serving ++ [(id, .emptyHanded)] } .nothing
  /-- An empty-handed call looks, and the server was stopped. -/
  | excused (id : ι) (hplace : stateOf s.serving id = some .emptyHanded) (hstop : s.stop = true) :
      Transition s (.look id) { s with serving := without s.serving id } (.served id (.ok ()))
  /-- An empty-handed call looks, and the server was not stopped. -/
  | refused (id : ι) (hplace : stateOf s.serving id = some .emptyHanded) (hstop : s.stop = false) :
      Transition s (.look id) { s with serving := without s.serving id }
        (.served id (.error .alreadyStarted))
  | armed (id : ι) (hplace : stateOf s.serving id = some .holding) : Transition s (.arm id)
      { s with serving := without s.serving id ++ [(id, .owning)] } .nothing
  | finished (id : ι) (error : Option String) (hplace : stateOf s.serving id = some .owning) :
      Transition s (.finish id error)
        { s with serving := without s.serving id, stopped := true } (.served id (loopResult error))
  | dropped (id : ι) (hplace : stateOf s.serving id = some .owning) : Transition s (.drop id)
      { s with serving := without s.serving id, stopped := true } .nothing
  | asked (id : ι) : Transition s (.shutDown id)
      { s with stop := true, closing := s.closing ++ [(id, .asked)] } .nothing
  /-- A call to shut down takes the listener. -/
  | shut (id : ι) (hplace : stateOf s.closing id = some .asked) (hlistener : s.listener = true) :
      Transition s (.take id)
        { s with listener := false, closing := without s.closing id } (.closed id)
  /-- A call to shut down finds no listener, and waits. -/
  | waits (id : ι) (hplace : stateOf s.closing id = some .asked) (hlistener : s.listener = false) :
      Transition s (.take id)
        { s with closing := without s.closing id ++ [(id, .waiting)] } .nothing
  | left (id : ι) (hplace : stateOf s.closing id = some .waiting) (hstopped : s.stopped = true) :
      Transition s (.leave id) { s with closing := without s.closing id } (.closed id)
  | gaveUp (id : ι) (hplace : stateOf s.closing id = some .waiting) :
      Transition s (.giveUp id) { s with closing := without s.closing id } .nothing
  /-- An event that begins no call does nothing for a call that is elsewhere. -/
  | idle (e : Event ι) (hbegun : e.begun? = none) (hasked : e.asked? = none) :
      Transition s e s .nothing

theorem step_spec (s : Server ι) (e : Event ι) : Transition s e (s.step e).1 (s.step e).2 := by
  cases e with
  | serve id =>
      simp only [step]
      split
      · rename_i hlistener
        exact .taken id hlistener
      · rename_i hlistener
        exact .missed id (Bool.eq_false_iff.mpr hlistener)
  | look id =>
      simp only [step, beq_iff_eq]
      split
      · rename_i hplace
        split
        · rename_i hstop
          exact .excused id hplace hstop
        · rename_i hstop
          exact .refused id hplace (Bool.eq_false_iff.mpr hstop)
      · exact .idle _ rfl rfl
  | arm id =>
      simp only [step, beq_iff_eq]
      split
      · rename_i hplace
        exact .armed id hplace
      · exact .idle _ rfl rfl
  | finish id error =>
      simp only [step, beq_iff_eq]
      split
      · rename_i hplace
        exact .finished id error hplace
      · exact .idle _ rfl rfl
  | drop id =>
      simp only [step, beq_iff_eq]
      split
      · rename_i hplace
        exact .dropped id hplace
      · exact .idle _ rfl rfl
  | shutDown id => exact .asked id
  | take id =>
      simp only [step, beq_iff_eq]
      split
      · rename_i hplace
        split
        · rename_i hlistener
          exact .shut id hplace hlistener
        · rename_i hlistener
          exact .waits id hplace (Bool.eq_false_iff.mpr hlistener)
      · exact .idle _ rfl rfl
  | leave id =>
      simp only [step, Bool.and_eq_true, beq_iff_eq]
      split
      · rename_i hplace
        exact .left id hplace.1 hplace.2
      · exact .idle _ rfl rfl
  | giveUp id =>
      simp only [step, beq_iff_eq]
      split
      · rename_i hplace
        exact .gaveUp id hplace
      · exact .idle _ rfl rfl

section
variable {s s' : Server ι} {e : Event ι} {effect : Effect ι} {id : ι}

theorem Transition.stop_iff (h : Transition s e s' effect) :
    s'.stop = true ↔ s.stop = true ∨ ∃ id, e = .shutDown id := by
  cases h with
  | asked => simp
  | idle _ hbegun hasked =>
      refine (or_iff_left ?_).symm
      rintro ⟨id, rfl⟩
      cases hasked
  | _ => simp

theorem Transition.stop (h : Transition s e s' effect) (hstop : s.stop = true) : s'.stop = true :=
  h.stop_iff.mpr (.inl hstop)

/-- Only an empty-handed call of a server that was not stopped is refused. -/
theorem Transition.of_refused (h : Transition s e s' effect)
    (heffect : effect = .served id (.error .alreadyStarted)) :
    stateOf s.serving id = some .emptyHanded ∧ s.stop = false := by
  cases h with
  | refused other hplace hstop =>
      obtain ⟨rfl, -⟩ := Effect.served.inj heffect
      exact ⟨hplace, hstop⟩
  | excused => simp at heffect
  | finished other error => cases error <;> simp [loopResult] at heffect
  | _ => cases heffect

theorem Transition.of_served (h : Transition s e s' effect) {result : Except ServeError Unit}
    (heffect : effect = .served id result) : ∃ place, stateOf s.serving id = some place := by
  cases h with
  | excused other hplace | refused other hplace | finished other error hplace =>
      obtain ⟨rfl, -⟩ := Effect.served.inj heffect
      exact ⟨_, hplace⟩
  | _ => cases heffect

/-- A call to shut down returns when it takes the listener, or when a loop has ended. -/
theorem Transition.of_closed (h : Transition s e s' effect) (heffect : effect = .closed id) :
    e = .take id ∧ s.listener = true ∧ s'.listener = false ∨ s.stopped = true := by
  cases h with
  | shut other hplace hlistener =>
      obtain rfl := Effect.closed.inj heffect
      exact .inl ⟨rfl, hlistener, rfl⟩
  | left other hplace hstopped => exact .inr hstopped
  | _ => cases heffect

theorem Transition.mem_serving (h : Transition s e s' effect) {call : ι × Serving}
    (hmem : call ∈ s'.serving) : (∃ place, (call.1, place) ∈ s.serving) ∨ e = .serve call.1 := by
  obtain ⟨name, place⟩ := call
  cases h with
  | taken other | missed other =>
      rcases List.mem_append.mp hmem with hmem | hmem
      · exact .inl ⟨place, hmem⟩
      · simp only [List.mem_singleton, Prod.mk.injEq] at hmem
        exact .inr (by rw [hmem.1])
  | armed other hplace =>
      rcases List.mem_append.mp hmem with hmem | hmem
      · exact .inl ⟨place, (mem_without.mp hmem).1⟩
      · simp only [List.mem_singleton, Prod.mk.injEq] at hmem
        exact .inl ⟨_, hmem.1 ▸ mem_of_stateOf hplace⟩
  | excused | refused | finished | dropped => exact .inl ⟨place, (mem_without.mp hmem).1⟩
  | _ => exact .inl ⟨place, hmem⟩

/-- Whoever is empty-handed was so before, or begins and finds no listener. -/
theorem Transition.of_emptyHanded (h : Transition s e s' effect)
    (hmem : (id, .emptyHanded) ∈ s'.serving) :
    (id, .emptyHanded) ∈ s.serving ∨ e = .serve id ∧ s.listener = false := by
  cases h with
  | taken => exact .inl (by simpa using hmem)
  | missed other hlistener =>
      rcases List.mem_append.mp hmem with hmem | hmem
      · exact .inl hmem
      · simp only [List.mem_singleton, Prod.mk.injEq, and_true] at hmem
        exact .inr ⟨by rw [hmem], hlistener⟩
  | armed other =>
      have hothers : (id, .emptyHanded) ∈ without s.serving other := by simpa using hmem
      exact .inl (mem_without.mp hothers).1
  | excused | refused | finished | dropped => exact .inl (mem_without.mp hmem).1
  | _ => exact .inl hmem

/-- A call that is empty-handed stays so until it looks. -/
theorem Transition.emptyHanded (h : Transition s e s' effect)
    (hempty : stateOf s.serving id = some .emptyHanded) (he : e ≠ .look id) :
    stateOf s'.serving id = some .emptyHanded := by
  -- A call that is at another place is another call.
  have hother : ∀ {other : ι} {place : Serving}, stateOf s.serving other = some place →
      place ≠ .emptyHanded → other ≠ id := by
    rintro other place hplace hne rfl
    exact hne (Option.some.inj (hplace.symm.trans hempty))
  cases h with
  | taken | missed => exact stateOf_append hempty
  | excused other | refused other =>
      have hne : other ≠ id := fun heq => he (heq ▸ rfl)
      exact (stateOf_without hne).trans hempty
  | armed other hplace =>
      exact stateOf_append ((stateOf_without (hother hplace (by simp))).trans hempty)
  | finished other error hplace => exact (stateOf_without (hother hplace (by simp))).trans hempty
  | dropped other hplace => exact (stateOf_without (hother hplace (by simp))).trans hempty
  | _ => exact hempty

/-- Names stay apart as long as those that begin are new. -/
theorem Transition.serving_names (h : Transition s e s' effect)
    (hnames : (s.serving.map (·.1)).Nodup)
    (hfresh : ∀ id, e = .serve id → ∀ call ∈ s.serving, call.1 ≠ id) :
    (s'.serving.map (·.1)).Nodup := by
  cases h with
  | taken id | missed id => exact names_concat hnames (hfresh id rfl)
  | armed =>
      exact names_concat (without_names hnames) fun call hcall => (mem_without.mp hcall).2
  | excused | refused | finished | dropped => exact without_names hnames
  | _ => exact hnames

/-- The listener is gone, nobody owns it, and the loops have been asked to stop. -/
structure Closed (s : Server ι) : Prop where
  listener : s.listener = false
  owners : s.owners = []
  stop : s.stop = true

theorem Closed.not_placed (h : s.Closed) {place : Serving} (hne : place ≠ .emptyHanded) :
    stateOf s.serving id ≠ some place := by
  intro hplace
  have hmem : id ∈ s.owners := mem_ownersOf.mpr ⟨place, mem_of_stateOf hplace, hne⟩
  rw [h.owners] at hmem
  cases hmem

theorem Closed.step (h : s.Closed) (hstep : Transition s e s' effect) : s'.Closed := by
  have howners : ownersOf s.serving = [] := h.owners
  have hwithout : ∀ id, ownersOf (without s.serving id) = [] := by
    intro id
    rw [ownersOf_without, howners]
    rfl
  cases hstep with
  | taken id hlistener => exact absurd (h.listener.symm.trans hlistener) (by simp)
  | missed id =>
      refine ⟨h.listener, ?_, h.stop⟩
      rw [owners_eq, ownersOf_concat, howners]
      rfl
  | excused id | refused id => exact ⟨h.listener, hwithout id, h.stop⟩
  | armed id hplace => exact absurd hplace (h.not_placed (by simp))
  | finished id error hplace => exact absurd hplace (h.not_placed (by simp))
  | dropped id hplace => exact absurd hplace (h.not_placed (by simp))
  | asked => exact ⟨h.listener, h.owners, rfl⟩
  | shut => exact ⟨rfl, h.owners, h.stop⟩
  | _ => exact ⟨h.listener, h.owners, h.stop⟩

/-- A call to serve returns from a closed server without an error or not at all. -/
theorem Closed.served (h : s.Closed) (hstep : Transition s e s' effect)
    {result : Except ServeError Unit} (heffect : effect = .served id result) : result = .ok () := by
  cases hstep with
  | excused => exact (Effect.served.inj heffect).2.symm
  | refused other hplace hstop => exact absurd (h.stop.symm.trans hstop) (by simp)
  | finished other error hplace => exact absurd hplace (h.not_placed (by simp))
  | _ => cases heffect

end

/-! ## What follows a state -/

section
variable {s : Server ι} {events : List (Event ι)} {id : ι}

theorem run_refuses (h : s.stop = true) :
    .served id (.error .alreadyStarted) ∉ (s.run events).2 := by
  induction events generalizing s with
  | nil => simp [run]
  | cons e events ih =>
      simp only [run, List.mem_cons, not_or]
      refine ⟨fun heffect => ?_, ih ((step_spec s e).stop h)⟩
      obtain ⟨-, hstop⟩ := (step_spec s e).of_refused heffect.symm
      exact absurd (h.symm.trans hstop) (by simp)

theorem Closed.run (h : s.Closed) : (s.run events).1.Closed ∧
    ∀ id result, .served id result ∈ (s.run events).2 → result = .ok () := by
  induction events generalizing s with
  | nil => exact ⟨h, by simp [Server.run]⟩
  | cons e events ih =>
      obtain ⟨hend, hresults⟩ := ih (h.step (step_spec s e))
      refine ⟨hend, fun id result hmem => ?_⟩
      rcases List.mem_cons.mp hmem with hmem | hmem
      · exact h.served (step_spec s e) hmem.symm
      · exact hresults id result hmem

/-- An empty-handed call of a stopped server returns without an error once it has looked. -/
theorem run_look (h : stateOf s.serving id = some .emptyHanded) (hstop : s.stop = true)
    (hlook : .look id ∈ events) : .served id (.ok ()) ∈ (s.run events).2 := by
  induction events generalizing s with
  | nil => cases hlook
  | cons e events ih =>
      by_cases he : e = .look id
      · subst he
        simp [run, step, h, hstop]
      · have hlater : .look id ∈ events := by
          rcases List.mem_cons.mp hlook with heq | hlater
          · exact absurd heq.symm he
          · exact hlater
        have hstep := step_spec s e
        exact List.mem_cons_of_mem _ (ih (hstep.emptyHanded h he) (hstep.stop hstop) hlater)

end

/-! ## Who has begun -/

section
variable {events : List (Event ι)} {id : ι}

theorem serving_begun (events : List (Event ι)) :
    ∀ call ∈ (after events).serving, .serve call.1 ∈ events := by
  induction events using List.reverseRecOn with
  | nil => simp [after, run]
  | append_singleton events e ih =>
      intro call hcall
      rw [after_concat] at hcall
      rcases (step_spec _ e).mem_serving hcall with ⟨place, hbefore⟩ | rfl
      · exact List.mem_append_left _ (ih (call.1, place) hbefore)
      · simp

theorem Proper.absent (h : Proper (events ++ [.serve id])) :
    ∀ call ∈ (after events).serving, call.1 ≠ id := by
  rintro call hcall rfl
  exact h.fresh (serving_begun events call hcall)

theorem Proper.serving_names (h : Proper events) : ((after events).serving.map (·.1)).Nodup := by
  induction events using List.reverseRecOn with
  | nil => simp [after, run]
  | append_singleton events e ih =>
      rw [after_concat]
      refine (step_spec _ e).serving_names (ih h.of_append) ?_
      rintro id rfl
      exact h.absent

theorem Owned.begun (h : Owned events id) : .serve id ∈ events := by
  obtain ⟨earlier, ⟨later, rfl⟩, hid⟩ := h
  obtain ⟨place, hplace, -⟩ := mem_ownersOf.mp hid
  exact List.mem_append_left _ (serving_begun earlier _ hplace)

theorem served_begun {result : Except ServeError Unit} (h : .served id result ∈ effects events) :
    .serve id ∈ events := by
  induction events using List.reverseRecOn with
  | nil => simp [effects, run] at h
  | append_singleton events e ih =>
      rw [effects_concat, List.mem_append, List.mem_singleton] at h
      refine List.mem_append_left _ (h.elim ih fun heffect => ?_)
      obtain ⟨place, hplace⟩ := (step_spec _ e).of_served heffect.symm
      exact serving_begun events _ (mem_of_stateOf hplace)

theorem stop_iff (events : List (Event ι)) :
    (after events).stop = true ↔ ∃ id, .shutDown id ∈ events := by
  induction events using List.reverseRecOn with
  | nil => simp [after, run]
  | append_singleton events e ih =>
      rw [after_concat, (step_spec _ e).stop_iff, ih, ← exists_or]
      simp only [List.mem_append, List.mem_singleton, eq_comm]

end

end WalletBridge.Http.Server
