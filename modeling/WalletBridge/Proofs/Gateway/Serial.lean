import WalletBridge.Device.Call
import WalletBridge.Proofs.Gateway.Steps

/-! # Calls are made one at a time

Every event that can happen leaves a sound history sound. So in every history
that comes about, no two calls that wait for their turn are inside together, and
they enter in the order in which they began; a call that skips the queue neither
waits nor makes another one wait.
-/

namespace WalletBridge.Gateway.History

variable {ι κ ρ : Type} [DecidableEq ι] {skips : κ → Bool} {h : History ι κ ρ}

theorem Told.next (ht : h.Told) {e : Event ι κ ρ}
    (hdone : (h.next skips e).done = h.done ++ e.result?.toList)
    (hfinish : ∀ id result, e.result? = some (id, result) →
      has h.entered id = true ∧ h.ended id = false) : (h.next skips e).Told := by
  have hkeeps : ∀ id, has h.entered id = true → has (h.next skips e).entered id = true := by
    intro id hid
    simp [History.next, hid]
  have hends : ∀ r, e.result? = some r → e.ended? = some r.1 := by
    intro r hr
    cases e with
    | finish id result =>
        cases hr
        rfl
    | begin id call | drop id => cases hr
  constructor
  · rw [hdone, ht.results]
    cases e <;> simp [History.next, Event.result?]
  · intro r hr
    rw [hdone, List.mem_append] at hr
    rcases hr with hr | hr
    · exact hkeeps _ (ht.entered r hr)
    · exact hkeeps _ (hfinish r.1 r.2 (by simpa using hr)).1
  · intro r hr
    rw [hdone, List.mem_append] at hr
    rcases hr with hr | hr
    · simp [ht.ended r hr]
    · simp [hends r (by simpa using hr)]
  · rw [hdone, List.map_append, List.nodup_append]
    refine ⟨ht.names, by cases e.result? <;> simp, ?_⟩
    intro id hid id' hid' heq
    obtain ⟨r, hr, rfl⟩ := List.mem_map.mp hid
    obtain ⟨r', hr', rfl⟩ := List.mem_map.mp hid'
    have hfresh := (hfinish r'.1 r'.2 (by simpa using hr')).2
    rw [← heq, ht.ended r hr] at hfresh
    cases hfresh

theorem counted_next_begin {id : ι} {call : κ} {entered : List (Pending ι κ)}
    (hentered : (h.next skips (.begin id call)).entered = h.entered ++ entered)
    (hnames : ∀ p ∈ entered, p.id = id) (hfresh : ∀ p ∈ h.begun, p.id ≠ id)
    (hnew : h.ended id = false) :
    (h.next skips (.begin id call)).counted skips =
      h.counted skips ++ if skips call then [] else [⟨id, call⟩] := by
  unfold counted
  rw [begun_next, List.filter_append]
  congr 1
  · refine List.filter_congr fun p hp => ?_
    have hother : has entered p.id = false := has_eq_false.mpr fun q hq => by
      rw [hnames q hq]
      exact Ne.symm (hfresh p hp)
    simp [hentered, hother, Event.ended?]
  · simp only [Event.begun?, Option.toList_some, List.filter_cons, List.filter_nil, ended_next,
      Event.ended?, hnew]
    cases skips call <;> simp

theorem begun_next_end {e : Event ι κ ρ} {id : ι} (he : e.ended? = some id) :
    (h.next skips e).begun = h.begun := by
  cases e with
  | begin id call => cases he
  | finish id result | drop id => simp [Event.begun?]

theorem counted_next_end {e : Event ι κ ρ} {id : ι} {entered : List (Pending ι κ)}
    (he : e.ended? = some id)
    (hentered : (h.next skips e).entered = h.entered ++ entered)
    (hold : has h.entered id = true) (hnew : ∀ p ∈ entered, h.ended p.id = false) :
    (h.next skips e).counted skips = h.counted skips := by
  unfold counted
  rw [begun_next_end he]
  refine List.filter_congr fun p _ => ?_
  by_cases hid : p.id = id
  · simp [hentered, hid, hold]
  · have hne : (some id == some p.id) = false := by simpa using Ne.symm hid
    have hlive : has entered p.id = true → h.ended p.id = false := by
      intro hp
      obtain ⟨q, hq, hqid⟩ := has_iff.mp hp
      rw [← hqid]
      exact hnew q hq
    simp only [hentered, has_append, ended_next, he, hne, Bool.or_false]
    cases hp : has entered p.id with
    | false => simp
    | true => simp [hlive hp]

/-- A call that is dropped before it entered does not count any more. -/
theorem counted_next_drop {id : ι}
    (hentered : (h.next skips (.drop id)).entered = h.entered)
    (hold : has h.entered id = false) :
    (h.next skips (.drop id)).counted skips = without (h.counted skips) id := by
  unfold counted without
  rw [begun_next_end (e := .drop id) rfl, List.filter_filter]
  refine List.filter_congr fun p _ => ?_
  by_cases hid : p.id = id
  · simp [hentered, hid, hold, Event.ended?]
  · have hne : (some id == some p.id) = false := by simpa using Ne.symm hid
    simp [hentered, hid, hne, Event.ended?]

theorem Named.next_begin (hn : h.Named) {id : ι} {call : κ} {entered : List (Pending ι κ)}
    (hfresh : ∀ p ∈ h.begun, p.id ≠ id)
    (hentered : (h.next skips (.begin id call)).entered = h.entered ++ entered)
    (hnew : entered = [] ∨ entered = [⟨id, call⟩]) : (h.next skips (.begin id call)).Named := by
  have hbegun : (h.next skips (.begin id call)).begun = h.begun ++ [⟨id, call⟩] := begun_next
  constructor
  · rw [hbegun]
    exact nodup_concat hn.names hfresh
  · rw [hbegun, hentered]
    intro p hp
    rcases List.mem_append.mp hp with hp | hp
    · exact List.mem_append_left _ (hn.own p hp)
    · rcases hnew with rfl | rfl
      · cases hp
      · exact List.mem_append_right _ hp
  · rw [hentered]
    rcases hnew with rfl | rfl
    · simpa using hn.once
    · exact nodup_concat hn.once fun p hp => hfresh p (hn.own p hp)
  · intro id' hended
    obtain ⟨p, hp, hid⟩ := hn.known id' (by simpa [Event.ended?] using hended)
    exact ⟨p, by rw [hbegun]; exact List.mem_append_left _ hp, hid⟩
  · refine hn.told.next ?_ (by simp [Event.result?])
    simp only [History.next, step, Event.result?, Option.toList_none]
    split
    · rfl
    · split <;> rfl

theorem Named.next_end (hn : h.Named) {e : Event ι κ ρ} {p : Pending ι κ}
    (entered : Option (Pending ι κ)) (he : e.ended? = some p.id) (hp : p ∈ h.begun)
    (hentered : (h.next skips e).entered = h.entered ++ entered.toList)
    (hnew : ∀ q ∈ entered, q ∈ h.begun ∧ has h.entered q.id = false)
    (htold : (h.next skips e).Told) : (h.next skips e).Named := by
  have hbegun : (h.next skips e).begun = h.begun := begun_next_end he
  constructor
  · rw [hbegun]
    exact hn.names
  · rw [hbegun, hentered]
    intro q hq
    rcases List.mem_append.mp hq with hq | hq
    · exact hn.own q hq
    · exact (hnew q (by simpa using hq)).1
  · rw [hentered]
    cases entered with
    | none => simpa using hn.once
    | some q => exact nodup_concat hn.once (has_eq_false.mp (hnew q rfl).2)
  · rw [hbegun]
    intro id hended
    simp only [ended_next, he, Bool.or_eq_true, beq_iff_eq, Option.some.injEq] at hended
    rcases hended with hended | rfl
    · exact hn.known id hended
    · exact ⟨p, hp, rfl⟩
  · exact htold

theorem Sound.next_begin_skip (hs : Sound skips h) {id : ι} {call : κ} (hskip : skips call = true)
    (hfresh : ∀ p ∈ h.begun, p.id ≠ id) : (h.next skips (.begin id call)).Sound skips := by
  have hnew := (hs.fresh hfresh).2
  have hbegun : (h.next skips (.begin id call)).begun = h.begun ++ [⟨id, call⟩] := begun_next
  obtain ⟨hentered, hinside, hwaiting, -, hgate⟩ := hs.begin_skip hskip hfresh
  refine ⟨hs.toNamed.next_begin hfresh hentered (.inr rfl), ?_, ?_, ?_, ?_, ?_, ?_⟩
  · rw [hgate, hinside]
    simp [hskip, hs.holder]
  · rw [hgate, hinside]
    simp [hskip, hs.urgent]
  · rw [hgate, hwaiting, ← hs.queue]
  · rw [counted_next_begin hentered (by simp) hfresh hnew, hentered, hwaiting, ← hs.order]
    simp [hskip]
  · rw [hgate]
    exact hs.idle
  · rw [hbegun, hentered]
    intro p hp hps
    rcases List.mem_append.mp hp with hp | hp
    · exact List.mem_append_left _ (hs.prompt p hp hps)
    · exact List.mem_append_right _ hp

/-- A call that does not skip the queue is not among those that have to have entered. -/
theorem Sound.prompt_begin (hs : Sound skips h) {id : ι} {call : κ} (hskip : skips call = false) :
    ∀ p ∈ h.begun ++ [⟨id, call⟩], skips p.call → p ∈ h.entered := by
  intro p hp hps
  rcases List.mem_append.mp hp with hp | hp
  · exact hs.prompt p hp hps
  · rw [List.mem_singleton.mp hp, hskip] at hps
    cases hps

theorem Sound.next_begin_enter (hs : Sound skips h) {id : ι} {call : κ}
    (hskip : skips call = false) (hfresh : ∀ p ∈ h.begun, p.id ≠ id)
    (hfree : h.gate.inside = none) : (h.next skips (.begin id call)).Sound skips := by
  have hnew := (hs.fresh hfresh).2
  have hbegun : (h.next skips (.begin id call)).begun = h.begun ++ [⟨id, call⟩] := begun_next
  obtain ⟨hentered, hinside, hwaiting, -, hgate⟩ := hs.begin_enter hskip hfresh hfree
  have hnone : h.inside.filter (!skips ·.call) = [] := by
    rw [← hs.holder, hfree]
    rfl
  have hempty : h.waiting skips = [] := by rw [← hs.queue, hs.idle hfree]
  refine ⟨hs.toNamed.next_begin hfresh hentered (.inr rfl), ?_, ?_, ?_, ?_, ?_, ?_⟩
  · rw [hgate, hinside, List.filter_append, hnone]
    simp [hskip]
  · rw [hgate, hinside]
    simp [hskip, hs.urgent]
  · rw [hgate, hwaiting, ← hs.queue]
  · rw [counted_next_begin hentered (by simp) hfresh hnew, hentered, hwaiting, ← hs.order, hempty]
    simp [hskip]
  · rw [hgate]
    simp
  · rw [hbegun, hentered]
    intro p hp hps
    exact List.mem_append_left _ (hs.prompt_begin hskip p hp hps)

theorem Sound.next_begin_wait (hs : Sound skips h) {id : ι} {call : κ} {holder : Pending ι κ}
    (hskip : skips call = false) (hfresh : ∀ p ∈ h.begun, p.id ≠ id)
    (hheld : h.gate.inside = some holder) : (h.next skips (.begin id call)).Sound skips := by
  have hnew := (hs.fresh hfresh).2
  have hbegun : (h.next skips (.begin id call)).begun = h.begun ++ [⟨id, call⟩] := begun_next
  obtain ⟨hentered, hinside, hwaiting, -, hgate⟩ := hs.begin_wait hskip hfresh hheld
  have hentered' : (h.next skips (.begin id call)).entered = h.entered ++ [] := by
    rw [hentered, List.append_nil]
  refine ⟨hs.toNamed.next_begin hfresh hentered' (.inl rfl), ?_, ?_, ?_, ?_, ?_, ?_⟩
  · rw [hgate, hinside]
    exact hs.holder
  · rw [hgate, hinside]
    exact hs.urgent
  · rw [hgate, hwaiting, ← hs.queue]
  · rw [counted_next_begin hentered' (by simp) hfresh hnew, hentered, hwaiting, ← hs.order]
    simp [hskip]
  · rw [hgate]
    simp [hheld]
  · rw [hbegun, hentered]
    exact hs.prompt_begin hskip

theorem Sound.next_begin (hs : Sound skips h) {id : ι} {call : κ}
    (hfresh : ∀ p ∈ h.begun, p.id ≠ id) : (h.next skips (.begin id call)).Sound skips := by
  cases hskip : skips call with
  | true => exact hs.next_begin_skip hskip hfresh
  | false =>
      cases hheld : h.gate.inside with
      | none => exact hs.next_begin_enter hskip hfresh hheld
      | some holder => exact hs.next_begin_wait hskip hfresh hheld

theorem Sound.told_end (hs : Sound skips h) {p : Pending ι κ} {e : Event ι κ ρ} (hp : p ∈ h.inside)
    (he : e.ended? = some p.id) (hdone : (h.next skips e).done = h.done ++ e.result?.toList) :
    (h.next skips e).Told := by
  refine hs.told.next hdone ?_
  intro id result hresult
  obtain ⟨hentered, hlive⟩ := mem_inside hp
  have hid : p.id = id := by
    cases e with
    | finish id' result' =>
        cases hresult
        exact (Option.some.inj he).symm
    | begin id' call | drop id' => cases hresult
  rw [← hid]
  exact ⟨has_of_mem hentered, hlive⟩

/-- Taking out a call does not touch the calls of the other kind. -/
theorem Sound.filter_without (hs : Sound skips h) {p : Pending ι κ} (hp : p ∈ h.inside)
    (keep : κ → Bool) (hkeep : keep p.call = false) :
    (without h.inside p.id).filter (keep ·.call) = h.inside.filter (keep ·.call) := by
  unfold without
  rw [List.filter_filter]
  refine List.filter_congr fun q hq => ?_
  by_cases hid : q.id = p.id
  · have hqp : q = p :=
      hs.eq_of_id (hs.own q (mem_inside hq).1) (hs.own p (mem_inside hp).1) hid
    simp [hqp, hkeep]
  · simp [hid]

theorem filter_without_comm (calls : List (Pending ι κ)) (id : ι) (keep : Pending ι κ → Bool) :
    (without calls id).filter keep = without (calls.filter keep) id := by
  unfold without
  rw [List.filter_filter, List.filter_filter]
  exact List.filter_congr fun _ _ => Bool.and_comm _ _

theorem Sound.next_end_urgent (hs : Sound skips h) {p : Pending ι κ} {e : Event ι κ ρ}
    (hp : p ∈ h.inside) (hskip : skips p.call = true) (he : e.ended? = some p.id) :
    (h.next skips e).Sound skips := by
  obtain ⟨hentered, hinside, hwaiting, hdone, hgate⟩ := hs.end_urgent hp hskip he
  have hentered' : (h.next skips e).entered = h.entered ++ [] := by
    rw [hentered, List.append_nil]
  have hold := has_of_mem (mem_inside hp).1
  refine ⟨hs.toNamed.next_end none he (hs.own p (mem_inside hp).1) hentered'
    (by simp) (hs.told_end hp he hdone), ?_, ?_, ?_, ?_, ?_, ?_⟩
  · rw [hgate, hinside, hs.filter_without hp (fun c => !skips c) (by simp [hskip])]
    exact hs.holder
  · rw [hgate, hinside, filter_without_comm, ← hs.urgent]
  · rw [hgate, hwaiting, ← hs.queue]
  · rw [counted_next_end he hentered' hold (by simp), hentered, hwaiting, hs.order]
  · rw [hgate]
    exact hs.idle
  · rw [begun_next_end he, hentered]
    exact hs.prompt

theorem head?_append_tail (l : List α) : l.head?.toList ++ l.tail = l := by
  cases l <;> rfl

theorem Sound.next_end_holder (hs : Sound skips h) {p : Pending ι κ} {e : Event ι κ ρ}
    (hp : p ∈ h.inside) (hskip : skips p.call = false) (he : e.ended? = some p.id) :
    (h.next skips e).Sound skips := by
  obtain ⟨hentered, hinside, hwaiting, hdone, hgate⟩ := hs.end_holder hp hskip he
  have hold := has_of_mem (mem_inside hp).1
  have hfirst : ∀ q ∈ (h.waiting skips).head?, q ∈ h.begun ∧ skips q.call = false ∧
      has h.entered q.id = false ∧ h.ended q.id = false :=
    fun q hq => mem_waiting (List.mem_of_mem_head? hq)
  have hone : h.inside.filter (!skips ·.call) = [p] := by
    rw [← hs.holder, hs.holder_of_mem hp hskip]
    rfl
  have hnext : (h.waiting skips).head?.toList.filter (!skips ·.call) =
      (h.waiting skips).head?.toList := by
    rw [List.filter_eq_self]
    intro q hq
    simp [(hfirst q (by simpa using hq)).2.1]
  have hnextSkips : (h.waiting skips).head?.toList.filter (skips ·.call) = [] := by
    rw [List.filter_eq_nil_iff]
    intro q hq
    simp [(hfirst q (by simpa using hq)).2.1]
  refine ⟨hs.toNamed.next_end _ he (hs.own p (mem_inside hp).1) hentered
    (fun q hq => ⟨(hfirst q hq).1, (hfirst q hq).2.2.1⟩) (hs.told_end hp he hdone),
    ?_, ?_, ?_, ?_, ?_, ?_⟩
  · rw [hgate, hinside, List.filter_append, filter_without_comm, hone, hnext]
    simp [without]
  · rw [hgate, hinside, List.filter_append, hs.filter_without hp skips hskip, hnextSkips,
      List.append_nil]
    exact hs.urgent
  · rw [hgate, hwaiting]
  · rw [counted_next_end he hentered hold fun q hq => (hfirst q (by simpa using hq)).2.2.2,
      hentered, hwaiting, List.filter_append, hnext, List.append_assoc, head?_append_tail, hs.order]
  · rw [hgate]
    intro hnone
    simp only [List.head?_eq_none_iff] at hnone
    simp [hnone]
  · rw [begun_next_end he, hentered]
    intro q hq hqs
    exact List.mem_append_left _ (hs.prompt q hq hqs)

theorem Sound.next_drop_waiting (hs : Sound skips h) {p : Pending ι κ}
    (hp : p ∈ h.waiting skips) : (h.next skips (.drop p.id)).Sound skips := by
  obtain ⟨hentered, hinside, hwaiting, hdone, hgate⟩ := hs.drop_waiting hp
  obtain ⟨hbegun, hskip, hnew, -⟩ := mem_waiting hp
  have hentered' : (h.next skips (.drop p.id)).entered = h.entered ++ [] := by
    rw [hentered, List.append_nil]
  have htold : (h.next skips (.drop p.id)).Told :=
    hs.told.next (by simpa [Event.result?] using hdone) (by simp [Event.result?])
  refine ⟨hs.toNamed.next_end (e := .drop p.id) none rfl hbegun hentered' (by simp) htold,
    ?_, ?_, ?_, ?_, ?_, ?_⟩
  · rw [hgate, hinside]
    exact hs.holder
  · rw [hgate, hinside]
    exact hs.urgent
  · rw [hgate, hwaiting]
  · have hout : without (h.entered.filter (!skips ·.call)) p.id =
        h.entered.filter (!skips ·.call) :=
      without_of_fresh fun q hq => has_eq_false.mp hnew q (List.mem_filter.mp hq).1
    rw [counted_next_drop hentered hnew, ← hs.order, hentered, hwaiting]
    conv_rhs => rw [without, List.filter_append, ← without, ← without, hout]
  · rw [hgate]
    intro hnone
    have hempty := hs.idle hnone
    rw [hs.queue] at hempty
    simp [hempty, without]
  · rw [begun_next_end (e := .drop p.id) rfl, hentered]
    exact hs.prompt

theorem Sound.next (hs : Sound skips h) {e : Event ι κ ρ} (hallowed : h.Allows skips e) :
    (h.next skips e).Sound skips := by
  have hinside : ∀ p ∈ h.inside, e.ended? = some p.id → (h.next skips e).Sound skips := by
    intro p hp he
    cases hskip : skips p.call with
    | true => exact hs.next_end_urgent hp hskip he
    | false => exact hs.next_end_holder hp hskip he
  cases e with
  | begin id call => exact hs.next_begin hallowed
  | finish id result =>
      obtain ⟨p, hp, rfl⟩ := hallowed
      exact hinside p hp rfl
  | drop id =>
      rcases hallowed with ⟨p, hp, rfl⟩ | ⟨p, hp, rfl⟩
      · exact hinside p hp rfl
      · exact hs.next_drop_waiting hp

theorem Reached.sound (hreached : h.Reached skips) : h.Sound skips := by
  induction hreached with
  | start => exact sound_start
  | next before hallowed ih => exact ih.next hallowed

/-! ## What holds of every history -/

/-- The calls of a history take turns, and so they do after one more event. -/
structure Serialised (skips : κ → Bool) (h : History ι κ ρ) : Prop where
  /-- At most one call that does not skip the queue is inside. -/
  single : (h.inside.filter (!skips ·.call)).length ≤ 1
  /-- When none is, none waits. -/
  busy : h.inside.filter (!skips ·.call) = [] → h.waiting skips = []
  /-- They enter in the order in which they began, without those dropped as they waited. -/
  order : h.entered.filter (!skips ·.call) ++ h.waiting skips =
    h.begun.filter fun p => !skips p.call && !h.lost p.id
  /-- What enters is what was begun, and nothing enters twice. -/
  own : (∀ p ∈ h.entered, p ∈ h.begun) ∧ (h.entered.map (·.id)).Nodup
  /-- The callers have got what the device gave, each one result at most, of a call that entered. -/
  results : h.done = h.events.filterMap Event.result? ∧ (h.done.map (·.1)).Nodup ∧
    ∀ r ∈ h.done, has h.entered r.1
  dropWaiting : ∀ p ∈ h.waiting skips,
    (h.next skips (.drop p.id)).Shows skips h.entered h.inside (without (h.waiting skips) p.id)
      h.done { h.gate with queue := without (h.waiting skips) p.id }
  endHolder : ∀ p ∈ h.inside, skips p.call = false → ∀ e : Event ι κ ρ, e.ended? = some p.id →
    (h.next skips e).Shows skips (h.entered ++ (h.waiting skips).head?.toList)
      (without h.inside p.id ++ (h.waiting skips).head?.toList) (h.waiting skips).tail
      (h.done ++ e.result?.toList)
      { h.gate with inside := (h.waiting skips).head?, queue := (h.waiting skips).tail }
  beginSkipping : ∀ id call, skips call = true → (∀ p ∈ h.begun, p.id ≠ id) →
    (h.next skips (.begin id call)).Shows skips (h.entered ++ [⟨id, call⟩])
      (h.inside ++ [⟨id, call⟩]) (h.waiting skips) h.done
      { h.gate with urgent := h.gate.urgent ++ [⟨id, call⟩] }
  endSkipping : ∀ p ∈ h.inside, skips p.call = true → ∀ e : Event ι κ ρ, e.ended? = some p.id →
    (h.next skips e).Shows skips h.entered (without h.inside p.id) (h.waiting skips)
      (h.done ++ e.result?.toList) { h.gate with urgent := without h.gate.urgent p.id }

/-- A call that ended and did not enter was dropped. -/
theorem Sound.lost_iff (hs : Sound skips h) (id : ι) :
    h.lost id = (h.ended id && !has h.entered id) := by
  cases hentered : has h.entered id with
  | true => simp [lost, hentered]
  | false =>
      simp only [lost, hentered, Bool.not_false, Bool.and_true, ended]
      rw [Bool.eq_iff_iff, List.any_eq_true, List.any_eq_true]
      constructor
      · rintro ⟨e, he, hid⟩
        refine ⟨e, he, ?_⟩
        cases e with
        | drop id' => exact hid
        | begin id' call | finish id' result => cases hid
      · rintro ⟨e, he, hid⟩
        refine ⟨e, he, ?_⟩
        cases e with
        | drop id' => exact hid
        | begin id' call => cases hid
        | finish id' result =>
            -- a finished call had entered
            obtain rfl : id' = id := by simpa [Event.ended?] using hid
            have hresult : (id', result) ∈ h.done := by
              rw [hs.told.results]
              exact List.mem_filterMap.mpr ⟨_, he, rfl⟩
            rw [hs.told.entered _ hresult] at hentered
            cases hentered

theorem Sound.serialised (hs : Sound skips h) : h.Serialised skips where
  single := by
    rw [← hs.holder]
    cases h.gate.inside <;> simp
  busy hnone := by
    rw [← hs.queue]
    apply hs.idle
    rw [← hs.holder] at hnone
    simpa using hnone
  order := by
    rw [hs.order]
    unfold counted
    refine List.filter_congr fun p _ => ?_
    rw [hs.lost_iff, Bool.not_and, Bool.not_not, Bool.or_comm]
  own := ⟨hs.own, hs.once⟩
  results := ⟨hs.told.results, hs.told.names, hs.told.entered⟩
  dropWaiting _ hp := hs.drop_waiting hp
  endHolder _ hp hskip _ he := hs.end_holder hp hskip he
  beginSkipping _ _ hskip hfresh := hs.begin_skip hskip hfresh
  endSkipping _ hp hskip _ he := hs.end_urgent hp hskip he

def skipsQueue (call : Device.Call) : Bool := call == .cancel

/-- In every history of calls on the device, they take turns; a call that cancels enters at once. -/
theorem calls_take_turns {h : History ι Device.Call ρ} (hreached : h.Reached skipsQueue) :
    h.Serialised skipsQueue := hreached.sound.serialised

/-- While a call holds the device another one waits, a third is dropped, and a cancellation enters;
the one that waits enters when the first call finishes. -/
theorem calls_take_turns_cancelled :
    let h : History Nat Device.Call String :=
      ([.begin 0 (.signMessage 0 "a"), .begin 1 .features, .begin 2 .wipe, .begin 3 .cancel,
        .drop 1, .finish 0 "b"] : List (Event Nat Device.Call String)).foldl (next skipsQueue) {}
    h.entered.map (·.id) = [0, 3, 2] ∧ h.done = [(0, "b")] ∧ h.Serialised skipsQueue := by
  intro h
  refine ⟨by decide, by decide, calls_take_turns ?_⟩
  refine .next (.next (.next (.next (.next (.next .start ?_) ?_) ?_) ?_) ?_) ?_
  all_goals simp only [Allows]
  · decide
  · decide
  · decide
  · decide
  · exact .inr (by decide)
  · decide

end WalletBridge.Gateway.History
