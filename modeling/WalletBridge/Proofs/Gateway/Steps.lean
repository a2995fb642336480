import WalletBridge.Proofs.Gateway.History

/-! # What one event does

A history is `Sound` when the gateway holds exactly the calls that are inside and
those that wait, in order. In such a history each kind of event has one lemma,
which says all that it does: who enters, who is inside and who waits after it,
which results were given, and what the gateway is left as.
-/

namespace WalletBridge.Gateway.History

variable {ι κ ρ : Type} [DecidableEq ι] {skips : κ → Bool} {h : History ι κ ρ}

/-- The calls that have begun, without those that skip the queue or ended before they entered. -/
def counted (skips : κ → Bool) (h : History ι κ ρ) : List (Pending ι κ) :=
  h.begun.filter fun p => !skips p.call && (has h.entered p.id || !h.ended p.id)

/-- Every caller has got the result that the device gave its call, and no other. -/
structure Told (h : History ι κ ρ) : Prop where
  results : h.done = h.events.filterMap Event.result?
  entered : ∀ r ∈ h.done, has h.entered r.1
  ended : ∀ r ∈ h.done, h.ended r.1
  names : (h.done.map (·.1)).Nodup

/-- Every call has a name of its own, and no other call than those that have begun does anything. -/
structure Named (h : History ι κ ρ) : Prop where
  names : (h.begun.map (·.id)).Nodup
  own : ∀ p ∈ h.entered, p ∈ h.begun
  once : (h.entered.map (·.id)).Nodup
  known : ∀ id, h.ended id → ∃ p ∈ h.begun, p.id = id
  told : h.Told

/-- The state of the gateway agrees with the events. -/
structure Sound (skips : κ → Bool) (h : History ι κ ρ) : Prop extends Named h where
  holder : h.gate.inside.toList = h.inside.filter (!skips ·.call)
  urgent : h.gate.urgent = h.inside.filter (skips ·.call)
  queue : h.gate.queue = h.waiting skips
  order : h.entered.filter (!skips ·.call) ++ h.waiting skips = h.counted skips
  idle : h.gate.inside = none → h.gate.queue = []
  prompt : ∀ p ∈ h.begun, skips p.call → p ∈ h.entered

/-- What is seen of a history: the entries, the calls inside, those that wait, the results, and the
gateway. -/
structure Shows (skips : κ → Bool) (h : History ι κ ρ) (entered inside waiting : List (Pending ι κ))
    (done : List (ι × ρ)) (gate : Gateway ι κ) : Prop where
  entered : h.entered = entered
  inside : h.inside = inside
  waiting : h.waiting skips = waiting
  done : h.done = done
  gate : h.gate = gate

theorem mem_waiting {p : Pending ι κ} (hp : p ∈ h.waiting skips) :
    p ∈ h.begun ∧ skips p.call = false ∧ has h.entered p.id = false ∧ h.ended p.id = false := by
  simpa [waiting] using hp

theorem mem_inside {p : Pending ι κ} (hp : p ∈ h.inside) :
    p ∈ h.entered ∧ h.ended p.id = false := by
  simpa [inside] using hp

theorem waiting_without {p : Pending ι κ} (hp : p ∈ h.inside) :
    without (h.waiting skips) p.id = h.waiting skips := by
  refine without_of_fresh fun q hq hid => ?_
  have hentered := (mem_waiting hq).2.2.1
  rw [hid, has_of_mem (mem_inside hp).1] at hentered
  cases hentered

theorem told_start : Told ({} : History ι κ ρ) := by
  constructor <;> simp

theorem named_start : Named ({} : History ι κ ρ) := by
  constructor <;> simp [begun, ended, told_start]

theorem sound_start : Sound skips ({} : History ι κ ρ) := by
  refine ⟨named_start, ?_, ?_, ?_, ?_, ?_, ?_⟩ <;>
    simp [begun, inside, waiting, counted]

section
variable (hs : Sound skips h)
include hs

theorem Sound.eq_of_id {p q : Pending ι κ} (hp : p ∈ h.begun) (hq : q ∈ h.begun)
    (hid : p.id = q.id) : p = q := List.inj_on_of_nodup_map hs.names hp hq hid

theorem Sound.fresh {id : ι} (hfresh : ∀ p ∈ h.begun, p.id ≠ id) :
    has h.entered id = false ∧ h.ended id = false := by
  refine ⟨has_eq_false.mpr fun p hp => hfresh p (hs.own p hp), ?_⟩
  cases hended : h.ended id with
  | false => rfl
  | true =>
      obtain ⟨p, hp, hid⟩ := hs.known id hended
      exact absurd hid (hfresh p hp)

theorem Sound.waiting_names : ((h.waiting skips).map (·.id)).Nodup :=
  hs.names.sublist (List.filter_sublist.map _)

theorem Sound.holder_of_mem {p : Pending ι κ} (hp : p ∈ h.inside) (hskip : skips p.call = false) :
    h.gate.inside = some p := by
  have hmem : p ∈ h.gate.inside.toList := by
    rw [hs.holder]
    simpa [hskip] using hp
  simpa using hmem

theorem Sound.not_urgent {p : Pending ι κ} (hp : p ∈ h.begun) (hskip : skips p.call = false) :
    has h.gate.urgent p.id = false := by
  refine has_eq_false.mpr fun q hq hid => ?_
  rw [hs.urgent, List.mem_filter] at hq
  have hqp : q = p := hs.eq_of_id (hs.own q (mem_inside hq.1).1) hp hid
  rw [hqp, hskip] at hq
  cases hq.2

/-! ## A call begins -/

theorem Sound.begin_skip {id : ι} {call : κ} (hskip : skips call = true)
    (hfresh : ∀ p ∈ h.begun, p.id ≠ id) :
    (h.next skips (.begin id call)).Shows skips (h.entered ++ [⟨id, call⟩])
      (h.inside ++ [⟨id, call⟩]) (h.waiting skips) h.done
      { h.gate with urgent := h.gate.urgent ++ [⟨id, call⟩] } := by
  have hentered : (h.next skips (.begin id call)).entered = h.entered ++ [⟨id, call⟩] := by
    simp [next, step, hskip]
  have hwaiting := waiting_next_begin hentered (by simp) hfresh (hs.fresh hfresh)
  refine ⟨hentered, ?_, by simpa [hskip] using hwaiting, by simp [next, step, hskip],
    by simp [next, step, hskip]⟩
  exact inside_next_begin rfl hentered (by simpa using (hs.fresh hfresh).2)

/-- Another call enters at once when nothing holds the device. -/
theorem Sound.begin_enter {id : ι} {call : κ} (hskip : skips call = false)
    (hfresh : ∀ p ∈ h.begun, p.id ≠ id) (hfree : h.gate.inside = none) :
    (h.next skips (.begin id call)).Shows skips (h.entered ++ [⟨id, call⟩])
      (h.inside ++ [⟨id, call⟩]) (h.waiting skips) h.done
      { h.gate with inside := some ⟨id, call⟩ } := by
  have hentered : (h.next skips (.begin id call)).entered = h.entered ++ [⟨id, call⟩] := by
    simp [next, step, hskip, hfree]
  have hwaiting := waiting_next_begin hentered (by simp) hfresh (hs.fresh hfresh)
  refine ⟨hentered, ?_, by simpa [has] using hwaiting, by simp [next, step, hskip, hfree],
    by simp [next, step, hskip, hfree]⟩
  exact inside_next_begin rfl hentered (by simpa using (hs.fresh hfresh).2)

theorem Sound.begin_wait {id : ι} {call : κ} {holder : Pending ι κ} (hskip : skips call = false)
    (hfresh : ∀ p ∈ h.begun, p.id ≠ id) (hheld : h.gate.inside = some holder) :
    (h.next skips (.begin id call)).Shows skips h.entered h.inside
      (h.waiting skips ++ [⟨id, call⟩]) h.done
      { h.gate with queue := h.gate.queue ++ [⟨id, call⟩] } := by
  have hentered : (h.next skips (.begin id call)).entered = h.entered ++ [] := by
    simp [next, step, hskip, hheld]
  have hwaiting := waiting_next_begin hentered (by simp) hfresh (hs.fresh hfresh)
  have hinside := inside_next_begin rfl hentered (by simp)
  rw [List.append_nil] at hentered hinside
  exact ⟨hentered, hinside, by simpa [hskip, has] using hwaiting,
    by simp [next, step, hskip, hheld], by simp [next, step, hskip, hheld]⟩

/-! ## A call ends -/

/-- A call that skipped the queue ends, and nothing else changes. -/
theorem Sound.end_urgent {p : Pending ι κ} {e : Event ι κ ρ} (hp : p ∈ h.inside)
    (hskip : skips p.call = true) (he : e.ended? = some p.id) :
    (h.next skips e).Shows skips h.entered (without h.inside p.id) (h.waiting skips)
      (h.done ++ e.result?.toList) { h.gate with urgent := without h.gate.urgent p.id } := by
  have hurgent : has h.gate.urgent p.id = true := by
    rw [hs.urgent]
    exact has_of_mem (List.mem_filter.mpr ⟨hp, hskip⟩)
  obtain ⟨hentered, hdone, hgate⟩ : (h.next skips e).entered = h.entered ++ [] ∧
      (h.next skips e).done = h.done ++ e.result?.toList ∧
      (h.next skips e).gate = { h.gate with urgent := without h.gate.urgent p.id } := by
    cases e with
    | begin id call => cases he
    | finish id result | drop id =>
        cases he
        simp [next, step, hurgent, Event.result?]
  have hwaiting := waiting_next_end he hentered
  have hinside := inside_next_end he hentered (by simp)
  rw [waiting_without hp] at hwaiting
  rw [List.append_nil] at hentered hinside
  exact ⟨hentered, hinside, by simpa [has] using hwaiting, hdone, hgate⟩

/-- The call that holds the device ends, and the first one that waits enters. -/
theorem Sound.end_holder {p : Pending ι κ} {e : Event ι κ ρ} (hp : p ∈ h.inside)
    (hskip : skips p.call = false) (he : e.ended? = some p.id) :
    (h.next skips e).Shows skips (h.entered ++ (h.waiting skips).head?.toList)
      (without h.inside p.id ++ (h.waiting skips).head?.toList) (h.waiting skips).tail
      (h.done ++ e.result?.toList)
      { h.gate with inside := (h.waiting skips).head?, queue := (h.waiting skips).tail } := by
  have hurgent := hs.not_urgent (hs.own p (mem_inside hp).1) hskip
  have hheld := hs.holder_of_mem hp hskip
  obtain ⟨hentered, hdone, hgate⟩ :
      (h.next skips e).entered = h.entered ++ (h.waiting skips).head?.toList ∧
      (h.next skips e).done = h.done ++ e.result?.toList ∧
      (h.next skips e).gate =
        { h.gate with inside := (h.waiting skips).head?, queue := (h.waiting skips).tail } := by
    rw [← hs.queue]
    cases e with
    | begin id call => cases he
    | finish id result | drop id =>
        cases he
        cases hq : h.gate.queue <;>
          simp [next, step, hurgent, holds, hheld, handOver, hq, Event.result?]
  have hwaiting := waiting_next_end he hentered
  rw [waiting_without hp] at hwaiting
  have hnames := hs.waiting_names
  have hfresh : ∀ q ∈ (h.waiting skips).head?.toList, h.ended q.id = false ∧ q.id ≠ p.id := by
    intro q hq
    have hq' : q ∈ h.waiting skips := List.mem_of_mem_head? (by simpa using hq)
    refine ⟨(mem_waiting hq').2.2.2, fun hid => ?_⟩
    have hentered' := (mem_waiting hq').2.2.1
    rw [hid, has_of_mem (mem_inside hp).1] at hentered'
    cases hentered'
  refine ⟨hentered, inside_next_end he hentered hfresh, ?_, hdone, hgate⟩
  rw [hwaiting]
  cases hw : h.waiting skips with
  | nil => simp
  | cons first rest =>
      rw [hw] at hnames
      have hsame : ∀ q : Pending ι κ, has [first] q.id = (q.id == first.id) := by
        intro q
        rw [Bool.eq_iff_iff]
        simp only [has, List.any_cons, List.any_nil, Bool.or_false, beq_iff_eq]
        exact ⟨Eq.symm, Eq.symm⟩
      simp only [List.head?_cons, Option.toList_some, hsame]
      exact without_head hnames

theorem Sound.drop_waiting {p : Pending ι κ} (hp : p ∈ h.waiting skips) :
    (h.next skips (.drop p.id)).Shows skips h.entered h.inside (without (h.waiting skips) p.id)
      h.done { h.gate with queue := without (h.waiting skips) p.id } := by
  obtain ⟨hbegun, hskip, hnew, -⟩ := mem_waiting hp
  have hurgent := hs.not_urgent hbegun hskip
  have hheld : h.gate.holds p.id = false := by
    cases hin : h.gate.inside with
    | none => simp [holds, hin]
    | some q =>
        have hq : q ∈ h.inside.filter (!skips ·.call) := by
          rw [← hs.holder, hin]
          simp
        have hne := has_eq_false.mp hnew q (mem_inside (List.mem_filter.mp hq).1).1
        simpa [holds, hin] using hne
  have hentered : (h.next skips (.drop p.id)).entered = h.entered ++ [] := by
    simp [next, step, hurgent, hheld]
  have hwaiting := waiting_next_end (e := .drop p.id) rfl hentered
  have hinside := inside_next_end (e := .drop p.id) rfl hentered (by simp)
  have hout : without h.inside p.id = h.inside :=
    without_of_fresh fun q hq => has_eq_false.mp hnew q (mem_inside hq).1
  rw [hout, List.append_nil] at hinside
  rw [List.append_nil] at hentered
  exact ⟨hentered, hinside, by simpa [has] using hwaiting, by simp [next, step, hurgent, hheld],
    by simp [next, step, hurgent, hheld, hs.queue]⟩

end

end WalletBridge.Gateway.History
