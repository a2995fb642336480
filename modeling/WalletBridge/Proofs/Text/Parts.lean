/-! # Parts between separators

A row that is split at every separator has one part more than it has separators.
No part holds a separator, and whatever else the row holds is in a part.
-/

namespace WalletBridge.Text

variable {α : Type} [DecidableEq α] {a c : α} {l part : List α}

theorem splitOn_cons_self (a : α) (l : List α) : (a :: l).splitOn a = [] :: l.splitOn a := by
  simp [List.splitOn_cons_eq_if_modifyHead]

/-- Anything but a separator goes to the first part. -/
theorem splitOn_cons_of_ne (h : c ≠ a) (l : List α) :
    ∃ first rest, l.splitOn a = first :: rest ∧ (c :: l).splitOn a = (c :: first) :: rest := by
  obtain ⟨first, rest, hsplit⟩ := List.exists_cons_of_ne_nil (List.splitOn_ne_nil a l)
  exact ⟨first, rest, hsplit, by simp [List.splitOn_cons_eq_if_modifyHead, h, hsplit]⟩

theorem length_splitOn (a : α) (l : List α) : (l.splitOn a).length = l.count a + 1 := by
  induction l with
  | nil => rfl
  | cons c l ih =>
      by_cases hc : c = a
      · subst hc
        rw [splitOn_cons_self, List.length_cons, ih, List.count_cons_self]
      · obtain ⟨first, rest, hsplit, hcons⟩ := splitOn_cons_of_ne hc l
        rw [hcons, List.length_cons, List.count_cons_of_ne hc, ← ih, hsplit, List.length_cons]

theorem not_mem_of_mem_splitOn (h : part ∈ l.splitOn a) : a ∉ part := by
  induction l generalizing part with
  | nil => simp_all
  | cons c l ih =>
      by_cases hc : c = a
      · subst hc
        rw [splitOn_cons_self] at h
        rcases List.mem_cons.mp h with rfl | hlater
        · exact List.not_mem_nil
        · exact ih hlater
      · obtain ⟨first, rest, hsplit, hcons⟩ := splitOn_cons_of_ne hc l
        rw [hcons] at h
        rcases List.mem_cons.mp h with rfl | hlater
        · have hfirst : a ∉ first := ih (by simp [hsplit])
          simp [hfirst, Ne.symm hc]
        · exact ih (by simp [hsplit, hlater])

theorem mem_part_of_mem (a : α) (h : c ∈ l) : c = a ∨ ∃ part ∈ l.splitOn a, c ∈ part := by
  induction l with
  | nil => cases h
  | cons d l ih =>
      by_cases hd : d = a
      · subst hd
        rw [splitOn_cons_self]
        rcases List.mem_cons.mp h with hsame | hrest
        · exact .inl hsame
        · simpa using ih hrest
      · obtain ⟨first, rest, hsplit, hcons⟩ := splitOn_cons_of_ne hd l
        rw [hcons]
        rcases List.mem_cons.mp h with rfl | hrest
        · exact .inr ⟨c :: first, List.mem_cons_self, List.mem_cons_self⟩
        · rw [hsplit] at ih
          simp only [List.mem_cons, exists_eq_or_imp] at ih ⊢
          rcases ih hrest with hsame | hfirst | hlater
          · exact .inl hsame
          · exact .inr (.inl (.inr hfirst))
          · exact .inr (.inr hlater)

end WalletBridge.Text
