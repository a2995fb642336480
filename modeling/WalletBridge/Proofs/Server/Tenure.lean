import WalletBridge.Proofs.Server.Calls

/-! # Who has the listener

The listener goes through few hands: nobody has it, then a call to serve has it
and later had it, or a call to shut down took it. A `Tenure` says where it is,
and every event moves it on or leaves it. What a call to serve is told, and
whether a call to shut down can go on waiting, is read off the tenure.
-/

namespace WalletBridge.Http.Server

variable {ι : Type}

/-- Who has the listener, or had it last. -/
inductive Tenure (ι : Type) where
  | untaken
  /-- A call to serve has it. -/
  | held (id : ι)
  /-- A call to serve had it, and has ended. -/
  | past (id : ι)
  /-- A call to shut down has taken it. -/
  | shut
deriving DecidableEq

def Tenure.owners : Tenure ι → List ι
  | .held id => [id]
  | _ => []

theorem Tenure.mem_owners {t : Tenure ι} {id : ι} : id ∈ t.owners ↔ t = .held id := by
  cases t <;> simp [owners, eq_comm]

/-- The server is in the state that the tenure tells. -/
structure Tells (s : Server ι) (t : Tenure ι) : Prop where
  listener : s.listener = true ↔ t = .untaken
  owners : s.owners = t.owners
  stopped : s.stopped = true ↔ ∃ id, t = .past id

/-- How an event moves the listener on. -/
inductive Moves : Event ι → Tenure ι → Tenure ι → Prop where
  | stays (e : Event ι) (t : Tenure ι) : Moves e t t
  | taken (id : ι) : Moves (.serve id) .untaken (.held id)
  | finished (id : ι) (error : Option String) : Moves (.finish id error) (.held id) (.past id)
  | dropped (id : ι) : Moves (.drop id) (.held id) (.past id)
  | shut (id : ι) : Moves (.take id) .untaken .shut

theorem Moves.untaken {e : Event ι} {t t' : Tenure ι} (h : Moves e t t') (ht : t' = .untaken) :
    t = .untaken := by
  cases h with
  | stays => exact ht
  | _ => cases ht

/-- One call to shut down is there at most. It has stopped the server and not taken the listener,
and it waits only when somebody has taken it. -/
structure Waits (s : Server ι) (t : Tenure ι) : Prop where
  closing : s.closing = [] ∨ ∃ id place, s.closing = [(id, place)] ∧ s.stop = true ∧
    t ≠ .shut ∧ (place = .waiting → t ≠ .untaken)
  stop : t = .shut → s.stop = true

/-- An event that leaves the call to shut down where it is keeps what is known of it. -/
theorem Waits.other {s s' : Server ι} {t t' : Tenure ι} {e : Event ι} (h : Waits s t)
    (hmoves : Moves e t t') (hshut : t' = .shut → t = .shut) (hclosing : s'.closing = s.closing)
    (hstop : s'.stop = s.stop) : Waits s' t' := by
  constructor
  · rw [hclosing, hstop]
    refine h.closing.imp id ?_
    rintro ⟨id, place, hthere, hstopped, hnot, hwaits⟩
    exact ⟨id, place, hthere, hstopped, fun ht => hnot (hshut ht),
      fun hplace ht => hwaits hplace (hmoves.untaken ht)⟩
  · intro ht
    rw [hstop]
    exact h.stop (hshut ht)

variable [DecidableEq ι]

section
variable {s s' : Server ι} {t t' : Tenure ι} {e : Event ι} {effect : Effect ι} {id : ι}

theorem Tells.held (h : Tells s t) {place : Serving} (hplace : stateOf s.serving id = some place)
    (hne : place ≠ .emptyHanded) : t = .held id := by
  rw [← Tenure.mem_owners, ← h.owners]
  exact mem_ownersOf.mpr ⟨place, mem_of_stateOf hplace, hne⟩

theorem Tells.end_held (h : Tells s t) (hplace : stateOf s.serving id = some .owning) :
    t = .held id ∧
      Tells { s with serving := without s.serving id, stopped := true } (.past id) := by
  obtain rfl := h.held hplace (by simp)
  refine ⟨rfl, ?_, ?_, ?_⟩
  · simpa using h.listener
  · have howners : ownersOf s.serving = [id] := h.owners
    rw [owners_eq, ownersOf_without, howners]
    simp [Tenure.owners]
  · simp

theorem Tells.step (h : Tells s t) (hnames : (s.serving.map (·.1)).Nodup)
    (hstep : Transition s e s' effect) : ∃ t', Moves e t t' ∧ Tells s' t' := by
  have howners : ownersOf s.serving = t.owners := h.owners
  -- An empty-handed call owns nothing, so that it may leave.
  have hlooked : ∀ {id : ι}, stateOf s.serving id = some .emptyHanded →
      Tells { s with serving := without s.serving id } t := by
    intro id hplace
    refine ⟨h.listener, ?_, h.stopped⟩
    rw [owners_eq, ownersOf_without_of_not_mem, howners]
    intro hid
    obtain ⟨place, hmem, hne⟩ := mem_ownersOf.mp hid
    have hother := (stateOf_of_mem hnames hmem).symm.trans hplace
    exact hne (Option.some.inj hother)
  cases hstep with
  | taken id hlistener =>
      obtain rfl := h.listener.mp hlistener
      refine ⟨_, .taken id, by simp, ?_, by simpa using h.stopped⟩
      rw [owners_eq, ownersOf_concat, howners]
      rfl
  | missed id =>
      refine ⟨t, .stays _ t, h.listener, ?_, h.stopped⟩
      rw [owners_eq, ownersOf_concat, howners]
      simp
  | excused id hplace | refused id hplace => exact ⟨t, .stays _ t, hlooked hplace⟩
  | armed id hplace =>
      obtain rfl := h.held hplace (by simp)
      refine ⟨_, .stays _ _, h.listener, ?_, h.stopped⟩
      rw [owners_eq, ownersOf_concat, ownersOf_without, howners]
      simp [Tenure.owners]
  | finished id error hplace =>
      obtain ⟨rfl, hpast⟩ := h.end_held hplace
      exact ⟨_, .finished id error, hpast⟩
  | dropped id hplace =>
      obtain ⟨rfl, hpast⟩ := h.end_held hplace
      exact ⟨_, .dropped id, hpast⟩
  | shut id hplace hlistener =>
      obtain rfl := h.listener.mp hlistener
      exact ⟨_, .shut id, by simp, h.owners, by simpa using h.stopped⟩
  | _ => exact ⟨t, .stays _ t, h.listener, h.owners, h.stopped⟩

/-! ## The one call to shut down -/

theorem Waits.single (h : Waits s t) {place : Closing}
    (hplace : stateOf s.closing id = some place) :
    s.closing = [(id, place)] ∧ s.stop = true ∧ t ≠ .shut ∧ (place = .waiting → t ≠ .untaken) := by
  have hmem := mem_of_stateOf hplace
  rcases h.closing with hnil | ⟨other, there, hclosing, hrest⟩
  · rw [hnil] at hmem
    cases hmem
  · rw [hclosing, List.mem_singleton] at hmem
    cases hmem
    exact ⟨hclosing, hrest⟩

theorem Waits.step (h : Waits s t) (htells : Tells s t) (hstep : Transition s e s' effect)
    (hmoves : Moves e t t') (hafter : Tells s' t')
    (hfirst : ∀ id, e = .shutDown id → s.stop = false) : Waits s' t' := by
  cases hstep with
  | asked id =>
      have hstop := hfirst id rfl
      have hnil : s.closing = [] := by
        rcases h.closing with hnil | ⟨other, place, -, hstopped, -⟩
        · exact hnil
        · exact absurd (hstop.symm.trans hstopped) (by simp)
      have hnot : t' ≠ .shut := by
        rintro rfl
        cases hmoves
        exact absurd (hstop.symm.trans (h.stop rfl)) (by simp)
      exact ⟨.inr ⟨id, .asked, by simp [hnil], rfl, hnot, by simp⟩, fun _ => rfl⟩
  | shut id hplace =>
      obtain ⟨hclosing, hstop, -⟩ := h.single hplace
      exact ⟨.inl (by simp [hclosing]), fun _ => hstop⟩
  | waits id hplace hlistener =>
      obtain ⟨hclosing, hstop, hnot, -⟩ := h.single hplace
      have htaken : t ≠ .untaken := by
        rw [Ne, ← htells.listener, hlistener]
        simp
      have ht : t' = t := by
        cases hmoves with
        | stays => rfl
        | shut => exact absurd rfl htaken
      exact ⟨.inr ⟨id, .waiting, by simp [hclosing], hstop, ht ▸ hnot, fun _ => ht ▸ htaken⟩,
        fun _ => hstop⟩
  | left id hplace | gaveUp id hplace =>
      obtain ⟨hclosing, hstop, -⟩ := h.single hplace
      exact ⟨.inl (by simp [hclosing]), fun _ => hstop⟩
  | idle =>
      -- The listener is where it was, so that no call to shut down has taken it.
      have hshut : t' = .shut → t = .shut := by
        rintro rfl
        cases hmoves with
        | stays => rfl
        | shut => exact absurd (hafter.listener.mp (htells.listener.mpr rfl)) (by simp)
      exact h.other hmoves hshut rfl rfl
  | _ =>
      have hshut : t' = .shut → t = .shut := by
        rintro rfl
        cases hmoves
        rfl
      exact h.other hmoves hshut rfl rfl

end

end WalletBridge.Http.Server
