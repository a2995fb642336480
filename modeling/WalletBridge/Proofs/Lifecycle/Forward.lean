import Mathlib.Data.List.Induction
import Mathlib.Data.List.Nodup
import WalletBridge.Lifecycle.Phase

/-! # Histories only move forward

Whatever phases are asked for, in whatever order and over however many runs, a
history takes in those that are later than all before them. So it ascends, no
phase is entered twice, and the last one is for good.
-/

namespace WalletBridge.Lifecycle

def records (asked : List Phase) : List Phase :=
  (asked.zipIdx.filter fun (p, i) => (asked.take i).all (·.rank < p.rank)).map (·.1)

theorem mem_of_mem_records {asked : List Phase} {p : Phase} (h : p ∈ records asked) :
    p ∈ asked := by
  obtain ⟨⟨q, i⟩, hq, rfl⟩ := List.mem_map.mp h
  have hpair : (q, i) ∈ asked.zipIdx := (List.mem_filter.mp hq).1
  exact List.mem_of_getElem? (List.mem_zipIdx_iff_getElem?.mp hpair)

theorem records_concat (asked : List Phase) (next : Phase) :
    records (asked ++ [next]) =
      records asked ++ if ∀ p ∈ asked, p.rank < next.rank then [next] else [] := by
  have hearlier : (asked.zipIdx.filter fun (p, i) =>
        ((asked ++ [next]).take i).all (·.rank < p.rank)) =
      asked.zipIdx.filter fun (p, i) => (asked.take i).all (·.rank < p.rank) := by
    apply List.filter_congr
    intro (p, i) hpair
    have hlt : i < asked.length := by
      have hget := List.mem_zipIdx_iff_getElem?.mp hpair
      exact (List.getElem?_eq_some_iff.mp hget).choose
    dsimp only
    rw [List.take_append_of_le_length (Nat.le_of_lt hlt)]
  have hlast : (([next].zipIdx asked.length).filter fun (p, i) =>
        ((asked ++ [next]).take i).all (·.rank < p.rank)).map (·.1) =
      if ∀ p ∈ asked, p.rank < next.rank then [next] else [] := by
    simp only [List.zipIdx_singleton, List.filter_cons, List.filter_nil, List.take_left,
      List.all_eq_true, decide_eq_true_eq]
    split <;> rfl
  unfold records
  rw [List.zipIdx_append, List.filter_append, List.map_append, hearlier, Nat.zero_add, hlast]

namespace History

def after (asked : List Phase) : History := asked.foldl advance {}

theorem after_append (asked more : List Phase) :
    after (asked ++ more) = more.foldl advance (after asked) := List.foldl_append

theorem advance_later {h : History} {next : Phase} (hlater : h.current.rank < next.rank) :
    (h.advance next).current = next ∧ (h.advance next).phases = h.phases ++ [next] := by
  rw [advance, if_pos hlater]
  exact ⟨rfl, by simp [phases]⟩

theorem advance_earlier {h : History} {next : Phase} (hlater : ¬ h.current.rank < next.rank) :
    h.advance next = h := if_neg hlater

/-- The history holds the records among the phases that were asked for. -/
structure Forward (asked : List Phase) (h : History) : Prop where
  /-- It begins where every run does. -/
  first : h.phases.head? = some .init
  ascending : h.phases.Pairwise (·.rank < ·.rank)
  entered : h.phases = records (.init :: asked)
  latest : h.current ∈ .init :: asked ∧ ∀ p ∈ .init :: asked, p.rank ≤ h.current.rank

theorem Forward.mem_le {asked : List Phase} {h : History} (hf : Forward asked h) {p : Phase}
    (hp : p ∈ h.phases) : p.rank ≤ h.current.rank := by
  rw [hf.entered] at hp
  exact hf.latest.2 p (mem_of_mem_records hp)

/-- A later phase is taken in, any other one is passed over. -/
theorem Forward.advance {asked : List Phase} {h : History} (hf : Forward asked h) (next : Phase) :
    Forward (asked ++ [next]) (h.advance next) := by
  obtain ⟨hcurrent, hgreatest⟩ := hf.latest
  have hrecord : (∀ p ∈ Phase.init :: asked, p.rank < next.rank) ↔
      h.current.rank < next.rank := by
    constructor
    · intro hall
      exact hall h.current hcurrent
    · intro hlt p hp
      exact Nat.lt_of_le_of_lt (hgreatest p hp) hlt
  have hasked : records (.init :: (asked ++ [next])) =
      h.phases ++ if h.current.rank < next.rank then [next] else [] := by
    rw [← List.cons_append, records_concat, hf.entered]
    simp only [hrecord]
  by_cases hlater : h.current.rank < next.rank
  · obtain ⟨hnext, hphases⟩ := advance_later hlater
    rw [if_pos hlater] at hasked
    constructor
    · rw [hphases, List.head?_append, hf.first]
      rfl
    · rw [hphases, List.pairwise_append]
      refine ⟨hf.ascending, List.pairwise_singleton _ _, ?_⟩
      intro p hp q hq
      rw [List.mem_singleton.mp hq]
      exact Nat.lt_of_le_of_lt (hf.mem_le hp) hlater
    · rw [hphases, hasked]
    · rw [hnext]
      constructor
      · simp
      · intro p hp
        rw [← List.cons_append, List.mem_append, List.mem_singleton] at hp
        cases hp with
        | inl hold => exact Nat.le_of_lt (hrecord.mpr hlater p hold)
        | inr hnew => exact Nat.le_of_eq (congrArg Phase.rank hnew)
  · rw [if_neg hlater, List.append_nil] at hasked
    rw [advance_earlier hlater]
    constructor
    · exact hf.first
    · exact hf.ascending
    · exact hasked.symm
    · rw [← List.cons_append]
      constructor
      · exact List.mem_append_left _ hcurrent
      · intro p hp
        rw [List.mem_append, List.mem_singleton] at hp
        cases hp with
        | inl hold => exact hgreatest p hold
        | inr hnew =>
            rw [hnew]
            exact Nat.le_of_not_lt hlater

theorem forward_after (asked : List Phase) : Forward asked (after asked) := by
  induction asked using List.reverseRecOn with
  | nil => exact ⟨rfl, List.pairwise_singleton _ _, rfl, by simp [after]⟩
  | append_singleton asked next ih =>
      rw [after_append]
      exact ih.advance next

/-- What was entered stays entered, whatever is asked for next. -/
theorem phases_prefix (h : History) (more : List Phase) :
    h.phases <+: (more.foldl advance h).phases := by
  induction more generalizing h with
  | nil => exact List.prefix_refl _
  | cons next more ih =>
      have hstep : h.phases <+: (h.advance next).phases := by
        by_cases hlater : h.current.rank < next.rank
        · rw [(advance_later hlater).2]
          exact List.prefix_append _ _
        · have hsame := congrArg phases (advance_earlier hlater)
          exact hsame ▸ List.prefix_refl _
      exact hstep.trans (ih (h.advance next))

theorem rank_le_terminated (p : Phase) : p.rank ≤ Phase.rank .terminated := by
  cases p <;> decide

/-- A history holds the records of what was asked for: it ascends from its beginning to the latest
phase of all. No phase is entered twice, none is given up for an earlier one, and the last one is
never left. -/
theorem history_forward (asked more : List Phase) :
    Forward asked (after asked) ∧
    (∀ p, (after asked).phases.count p ≤ 1) ∧
    (after asked).phases <+: (after (asked ++ more)).phases ∧
    (∀ p ∈ (after asked).phases, p.rank ≤ (after (asked ++ more)).current.rank) ∧
    (.terminated ∈ (after asked).phases → (after (asked ++ more)).current = .terminated) := by
  have hforward := forward_after asked
  have hkept : (after asked).phases <+: (after (asked ++ more)).phases := by
    rw [after_append]
    exact phases_prefix (after asked) more
  have hpast : ∀ p ∈ (after asked).phases, p.rank ≤ (after (asked ++ more)).current.rank := by
    intro p hp
    exact (forward_after (asked ++ more)).mem_le (hkept.subset hp)
  have honce : (after asked).phases.Nodup := by
    apply hforward.ascending.imp
    intro p q hlt heq
    rw [heq] at hlt
    exact Nat.lt_irrefl _ hlt
  refine ⟨hforward, fun p => List.nodup_iff_count_le_one.mp honce p, hkept, hpast, ?_⟩
  intro hended
  have hrank := Nat.le_antisymm (rank_le_terminated (after (asked ++ more)).current)
    (hpast .terminated hended)
  exact Phase.rank_injective hrank

/-- Two runs on one history, the first of them told to stop before it was running. -/
theorem history_forward_again :
    let first : List Phase := [.starting, .configuring, .shuttingDown, .terminated]
    let second : List Phase := [.configuring, .starting, .running]
    Phase.terminated ∈ (after first).phases ∧
      (after (first ++ second)).phases = [.init, .starting, .shuttingDown, .terminated] ∧
      (after (first ++ second)).current = .terminated := by
  intro first second
  have hended : Phase.terminated ∈ (after first).phases := by decide
  obtain ⟨-, -, -, -, hstays⟩ := history_forward first second
  have hentered := (history_forward (first ++ second) []).1.entered
  exact ⟨hended, hentered.trans (by decide), hstays hended⟩

end History

end WalletBridge.Lifecycle
