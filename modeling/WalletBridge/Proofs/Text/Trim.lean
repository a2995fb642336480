import Mathlib.Data.List.DropRight
import WalletBridge.Text.Blank

/-! # What trimming leaves

Trimming leaves the one part of a text that has blanks alone before and after it
and none at its own ends.
-/

namespace WalletBridge.Text

/-- There is no blank at either end. -/
def Trimmed (cs : List Char) : Prop :=
  ∀ c, cs.head? = some c ∨ cs.getLast? = some c → isBlank c = false

/-- `inner` is what is left of `cs` without the blanks around it. -/
def Trims (cs inner : List Char) : Prop :=
  Trimmed inner ∧ ∃ front back, (∀ c ∈ front, isBlank c = true) ∧ (∀ c ∈ back, isBlank c = true) ∧
    cs = front ++ inner ++ back

variable {cs inner : List Char}

theorem trimChars_eq (cs : List Char) :
    trimChars cs = (cs.dropWhile isBlank).rdropWhile isBlank := rfl

theorem dropWhile_of_trimmed (h : Trimmed cs) : cs.dropWhile isBlank = cs := by
  cases cs with
  | nil => rfl
  | cons c cs =>
      have hfirst := h c (.inl rfl)
      rw [List.dropWhile_cons, if_neg (by simp [hfirst])]

theorem rdropWhile_of_trimmed (h : Trimmed cs) : cs.rdropWhile isBlank = cs := by
  rw [List.rdropWhile_eq_self_iff]
  intro hne
  rw [h _ (.inr (List.getLast?_eq_getLast_of_ne_nil hne))]
  decide

theorem trimChars_of_trimmed (h : Trimmed cs) : trimChars cs = cs := by
  rw [trimChars_eq, dropWhile_of_trimmed h, rdropWhile_of_trimmed h]

theorem trimChars_trimmed (cs : List Char) : Trimmed (trimChars cs) := by
  rw [trimChars_eq]
  intro c hc
  rcases hc with hfirst | hlast
  · -- the first character that is left is the one at which the blanks in front end
    obtain ⟨dropped, hdropped⟩ := List.rdropWhile_prefix isBlank (cs.dropWhile isBlank)
    have hhead : (cs.dropWhile isBlank).head? = some c := by
      rw [← hdropped, List.head?_append, hfirst, Option.some_or]
    have hnot := List.head?_dropWhile_not isBlank cs
    rw [hhead] at hnot
    exact hnot
  · have hne : (cs.dropWhile isBlank).rdropWhile isBlank ≠ [] := by
      intro hnil
      simp [hnil] at hlast
    rw [List.getLast?_eq_getLast_of_ne_nil hne, Option.some.injEq] at hlast
    rw [← hlast]
    simpa using List.rdropWhile_last_not isBlank (cs.dropWhile isBlank) hne

theorem trims_trimChars (cs : List Char) : Trims cs (trimChars cs) := by
  refine ⟨trimChars_trimmed cs, cs.takeWhile isBlank,
    (cs.dropWhile isBlank).rtakeWhile isBlank, ?_, ?_, ?_⟩
  · exact fun c hc => List.mem_takeWhile_imp hc
  · exact fun c hc => List.mem_rtakeWhile_imp hc
  · rw [trimChars_eq, List.append_assoc, List.rdropWhile_append_rtakeWhile,
      List.takeWhile_append_dropWhile]

/-- What has blanks around it and none at its ends is what trimming leaves. -/
theorem Trims.eq (h : Trims cs inner) : trimChars cs = inner := by
  obtain ⟨htrimmed, front, back, hfront, hback, rfl⟩ := h
  have hdrop : (front ++ inner ++ back).dropWhile isBlank = (inner ++ back).dropWhile isBlank := by
    rw [List.append_assoc, List.dropWhile_append_of_pos hfront]
  rw [trimChars_eq, hdrop]
  cases inner with
  | nil =>
      have hnothing : back.dropWhile isBlank = [] := List.dropWhile_eq_nil_iff.mpr hback
      rw [List.nil_append, hnothing]
      rfl
  | cons c inner =>
      have hfirst := htrimmed c (.inl rfl)
      have hstays : (c :: inner ++ back).dropWhile isBlank = c :: inner ++ back := by
        rw [List.cons_append, List.dropWhile_cons, if_neg (by simp [hfirst])]
      have hreversed : ∀ d ∈ back.reverse, isBlank d = true := by simpa using hback
      rw [hstays, List.rdropWhile, List.reverse_append, List.dropWhile_append_of_pos hreversed,
        ← List.rdropWhile, rdropWhile_of_trimmed htrimmed]

theorem trims_iff : Trims cs inner ↔ trimChars cs = inner :=
  ⟨Trims.eq, fun h => h ▸ trims_trimChars cs⟩

end WalletBridge.Text
