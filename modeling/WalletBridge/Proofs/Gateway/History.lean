import Mathlib.Data.List.Nodup
import WalletBridge.Gateway.Queue

/-! # Histories of calls

A history is a list of events in which every call has a name of its own, only a
call inside the device finishes, and only a call that has begun and not ended is
dropped. Which calls wait and which are inside is told from the events and the
entries alone; the state of the gateway is not asked. For every kind of event,
one lemma says what it does to those views.
-/

namespace WalletBridge.Gateway

variable {ι κ ρ : Type}

def Event.begun? : Event ι κ ρ → Option (Pending ι κ)
  | .begin id call => some { id, call }
  | _ => none

def Event.ended? : Event ι κ ρ → Option ι
  | .begin .. => none
  | .finish id _ => some id
  | .drop id => some id

def Event.result? : Event ι κ ρ → Option (ι × ρ)
  | .finish id result => some (id, result)
  | _ => none

def Event.dropped? : Event ι κ ρ → Option ι
  | .drop id => some id
  | _ => none

theorem nodup_concat {calls : List (Pending ι κ)} {p : Pending ι κ}
    (hcalls : (calls.map (·.id)).Nodup) (hp : ∀ q ∈ calls, q.id ≠ p.id) :
    ((calls ++ [p]).map (·.id)).Nodup := by
  rw [List.map_append, List.nodup_append]
  refine ⟨hcalls, by simp, ?_⟩
  intro a ha b hb
  obtain ⟨q, hq, rfl⟩ := List.mem_map.mp ha
  simp only [List.map_cons, List.map_nil, List.mem_singleton] at hb
  rw [hb]
  exact hp q hq

/-- The events so far, and what they led to. -/
structure History (ι κ ρ : Type) where
  events : List (Event ι κ ρ) := []
  gate : Gateway ι κ := {}
  /-- The calls that entered the device, in order. -/
  entered : List (Pending ι κ) := []
  /-- The results that callers got, in order. -/
  done : List (ι × ρ) := []

variable [DecidableEq ι]

namespace History

def next (skips : κ → Bool) (h : History ι κ ρ) (e : Event ι κ ρ) : History ι κ ρ :=
  let (gate, effect) := h.gate.step skips e
  { events := h.events ++ [e], gate, entered := h.entered ++ effect.entered
    done := h.done ++ effect.done }

def begun (h : History ι κ ρ) : List (Pending ι κ) := h.events.filterMap Event.begun?

def ended (h : History ι κ ρ) (id : ι) : Bool := h.events.any (·.ended? == some id)

/-- The calls inside the device: they entered and have not ended. -/
def inside (h : History ι κ ρ) : List (Pending ι κ) := h.entered.filter fun p => !h.ended p.id

/-- Whether the call was dropped and never entered. -/
def lost (h : History ι κ ρ) (id : ι) : Bool :=
  h.events.any (·.dropped? == some id) && !has h.entered id

variable (skips : κ → Bool)

/-- The calls that wait: they have begun, and neither entered nor ended. -/
def waiting (h : History ι κ ρ) : List (Pending ι κ) :=
  h.begun.filter fun p => !skips p.call && (!has h.entered p.id && !h.ended p.id)

def Allows (h : History ι κ ρ) : Event ι κ ρ → Prop
  | .begin id _ => ∀ p ∈ h.begun, p.id ≠ id
  | .finish id _ => ∃ p ∈ h.inside, p.id = id
  | .drop id => (∃ p ∈ h.inside, p.id = id) ∨ ∃ p ∈ h.waiting skips, p.id = id

/-- The histories that can come about. -/
inductive Reached : History ι κ ρ → Prop where
  | start : Reached {}
  | next {h : History ι κ ρ} {e : Event ι κ ρ} (before : Reached h) (allowed : h.Allows skips e) :
      Reached (h.next skips e)

end History

/-! ## Names among calls -/

theorem has_iff {calls : List (Pending ι κ)} {id : ι} :
    has calls id = true ↔ ∃ p ∈ calls, p.id = id := by simp [has]

theorem has_eq_false {calls : List (Pending ι κ)} {id : ι} :
    has calls id = false ↔ ∀ p ∈ calls, p.id ≠ id := by simp [has]

@[simp] theorem has_append (calls more : List (Pending ι κ)) (id : ι) :
    has (calls ++ more) id = (has calls id || has more id) := List.any_append

theorem has_of_mem {calls : List (Pending ι κ)} {p : Pending ι κ} (h : p ∈ calls) :
    has calls p.id = true := has_iff.mpr ⟨p, h, rfl⟩

theorem without_of_fresh {calls : List (Pending ι κ)} {id : ι} (h : ∀ p ∈ calls, p.id ≠ id) :
    without calls id = calls := by
  unfold without
  rw [List.filter_eq_self]
  intro p hp
  simpa using h p hp

theorem without_head {p : Pending ι κ} {calls : List (Pending ι κ)}
    (h : ((p :: calls).map (·.id)).Nodup) : without (p :: calls) p.id = calls := by
  simp only [List.map_cons, List.nodup_cons, List.mem_map, not_exists, not_and] at h
  have hrest : without calls p.id = calls := without_of_fresh h.1
  unfold without at hrest ⊢
  rw [List.filter_cons_of_neg (by simp), hrest]

namespace History

variable {skips : κ → Bool} {h : History ι κ ρ} {e : Event ι κ ρ}

@[simp] theorem begun_next : (h.next skips e).begun = h.begun ++ e.begun?.toList := by
  cases e <;> simp [begun, next, Event.begun?]

@[simp] theorem ended_next (id : ι) :
    (h.next skips e).ended id = (h.ended id || e.ended? == some id) := by
  simp [ended, next]

/-- An event that ends no call leaves inside what is there, and lets in what enters. -/
theorem inside_next_begin {entered : List (Pending ι κ)} (he : e.ended? = none)
    (hentered : (h.next skips e).entered = h.entered ++ entered)
    (hfresh : ∀ p ∈ entered, h.ended p.id = false) :
    (h.next skips e).inside = h.inside ++ entered := by
  unfold inside
  rw [hentered, List.filter_append]
  congr 1
  · refine List.filter_congr fun p _ => ?_
    simp [he]
  · rw [List.filter_eq_self]
    intro p hp
    simp [he, hfresh p hp]

/-- An event that ends a call takes it out, and lets in what enters. -/
theorem inside_next_end {id : ι} {entered : List (Pending ι κ)} (he : e.ended? = some id)
    (hentered : (h.next skips e).entered = h.entered ++ entered)
    (hfresh : ∀ p ∈ entered, h.ended p.id = false ∧ p.id ≠ id) :
    (h.next skips e).inside = without h.inside id ++ entered := by
  unfold inside without
  rw [hentered, List.filter_append, List.filter_filter]
  congr 1
  · refine List.filter_congr fun p _ => ?_
    have hcomm : (some id == some p.id) = (p.id == id) := by
      simp [Bool.beq_eq_decide_eq, eq_comm]
    simp [he, hcomm, Bool.and_comm, bne]
  · rw [List.filter_eq_self]
    intro p hp
    obtain ⟨hended, hne⟩ := hfresh p hp
    simp [he, hended, Ne.symm hne]

/-- The calls that wait after a call begins: the new one among them, unless it skips the queue or
entered. -/
theorem waiting_next_begin {id : ι} {call : κ} {entered : List (Pending ι κ)}
    (hentered : (h.next skips (.begin id call)).entered = h.entered ++ entered)
    (hnames : ∀ p ∈ entered, p.id = id) (hfresh : ∀ p ∈ h.begun, p.id ≠ id)
    (hnew : has h.entered id = false ∧ h.ended id = false) :
    (h.next skips (.begin id call)).waiting skips =
      h.waiting skips ++ if skips call || has entered id then [] else [⟨id, call⟩] := by
  unfold waiting
  rw [begun_next, List.filter_append]
  congr 1
  · refine List.filter_congr fun p hp => ?_
    have hother : has entered p.id = false := has_eq_false.mpr fun q hq => by
      rw [hnames q hq]
      exact Ne.symm (hfresh p hp)
    simp [hentered, hother, Event.ended?]
  · simp only [Event.begun?, Option.toList_some, List.filter_cons, List.filter_nil, hentered,
      has_append, ended_next, Event.ended?, hnew]
    cases skips call <;> cases has entered id <;> simp

theorem waiting_next_end {id : ι} {entered : List (Pending ι κ)} (he : e.ended? = some id)
    (hentered : (h.next skips e).entered = h.entered ++ entered) :
    (h.next skips e).waiting skips =
      (without (h.waiting skips) id).filter fun p => !has entered p.id := by
  have hbegun : e.begun? = none := by
    cases e with
    | begin id call => cases he
    | finish id result => rfl
    | drop id => rfl
  unfold waiting without
  rw [begun_next, hbegun, Option.toList_none, List.append_nil, List.filter_filter,
    List.filter_filter]
  refine List.filter_congr fun p _ => ?_
  have hcomm : (some id == some p.id) = (p.id == id) := by
    simp [Bool.beq_eq_decide_eq, eq_comm]
  simp only [hentered, has_append, ended_next, he, hcomm, bne]
  cases skips p.call <;> cases has h.entered p.id <;> cases has entered p.id <;>
    cases h.ended p.id <;> simp

end History

end WalletBridge.Gateway
