import WalletBridge.Net.Address
import WalletBridge.Proofs.Text.Parts

/-! # The characters of long addresses

An address of eight groups is written with hexadecimal digits, colons and points
only, and with at most eight colons. Both are read off the reader: the parts
between colons are no more than the groups that they stand for.
-/

namespace WalletBridge.Net

open Text

def isLiteralChar (c : Char) : Bool := (hexDigit? c).isSome || c == ':' || c == '.'

/-- A row of characters whose parts are made of literal characters is so itself. -/
theorem literal_of_parts (separator : Char) (hseparator : isLiteralChar separator = true)
    {cs : List Char} (h : ∀ part ∈ cs.splitOn separator, ∀ c ∈ part, isLiteralChar c = true) :
    ∀ c ∈ cs, isLiteralChar c = true := by
  intro c hc
  rcases mem_part_of_mem separator hc with rfl | ⟨part, hpart, hmem⟩
  · exact hseparator
  · exact h part hpart c hmem

/-! ## Groups -/

theorem literal_of_digit {c : Char} (h : isDigit c = true) : isLiteralChar c = true := by
  simp only [isDigit, Bool.and_eq_true, decide_eq_true_eq] at h
  have hlow : '0' ≤ c := h.1
  have hhigh : c ≤ '9' := h.2
  simp [isLiteralChar, hexDigit?, hlow, hhigh]

theorem literal_of_octet {cs : List Char} {n : Nat} (h : octet? cs = some n) :
    ∀ c ∈ cs, isLiteralChar c = true := by
  unfold octet? at h
  split at h
  · cases h
  · have hdigits := (Option.filter_eq_some_iff.mp h).1
    unfold digits? at hdigits
    split at hdigits
    · next hall =>
        simp only [Bool.and_eq_true, List.all_eq_true] at hall
        exact fun c hc => literal_of_digit (hall.2 c hc)
    · cases hdigits

theorem literal_of_dotted {cs : List Char} {bytes : Nat × Nat × Nat × Nat}
    (h : dotted? cs = some bytes) : ∀ c ∈ cs, isLiteralChar c = true := by
  apply literal_of_parts '.' rfl
  unfold dotted? at h
  split at h
  · next a b c d hsplit =>
      rw [hsplit]
      simp only [Option.bind_eq_bind, Option.bind_eq_some_iff] at h
      obtain ⟨w, ha, x, hb, y, hc, z, hd, -⟩ := h
      intro part hpart
      simp only [List.mem_cons, List.not_mem_nil, or_false] at hpart
      rcases hpart with rfl | rfl | rfl | rfl
      · exact literal_of_octet ha
      · exact literal_of_octet hb
      · exact literal_of_octet hc
      · exact literal_of_octet hd
  · cases h

theorem hexDigits_of_foldlM {cs : List Char} {start n : Nat}
    (h : cs.foldlM (fun n c => (hexDigit? c).map (n * 16 + ·)) start = some n) :
    ∀ c ∈ cs, (hexDigit? c).isSome = true := by
  induction cs generalizing start with
  | nil => simp
  | cons d cs ih =>
      rw [List.foldlM_cons, Option.bind_eq_bind, Option.bind_eq_some_iff] at h
      obtain ⟨next, hd, hrest⟩ := h
      obtain ⟨value, hvalue, -⟩ := Option.map_eq_some_iff.mp hd
      intro c hc
      rcases List.mem_cons.mp hc with rfl | hmem
      · simp [hvalue]
      · exact ih hrest c hmem

theorem literal_of_group {cs : List Char} {n : Nat} (h : group? cs = some n) :
    ∀ c ∈ cs, isLiteralChar c = true := by
  unfold group? at h
  split at h
  · cases h
  · intro c hc
    simp [isLiteralChar, hexDigits_of_foldlM h c hc]

theorem groups?_parts {parts : List (List Char)} {groups : List Nat}
    (h : groups? parts = some groups) :
    (∀ part ∈ parts, ∀ c ∈ part, isLiteralChar c = true) ∧ parts.length ≤ groups.length := by
  induction parts using groups?.induct generalizing groups with
  | case1 => simp
  | case2 last g hg =>
      simp only [groups?, hg, Option.some.injEq] at h
      subst h
      simpa using literal_of_group hg
  | case3 last hlast =>
      simp only [groups?, hlast] at h
      obtain ⟨bytes, hbytes, rfl⟩ := Option.map_eq_some_iff.mp h
      exact ⟨by simpa using literal_of_dotted hbytes, by simp⟩
  | case4 g rest hrest ih =>
      simp only [groups?, Option.bind_eq_bind, Option.bind_eq_some_iff] at h
      obtain ⟨first, hfirst, later, hlater, hsame⟩ := h
      cases hsame
      obtain ⟨hparts, hlength⟩ := ih hlater
      refine ⟨?_, by simpa using hlength⟩
      intro part hpart
      rcases List.mem_cons.mp hpart with rfl | hmem
      · exact literal_of_group hfirst
      · exact hparts part hmem

theorem groups?_split {cs : List Char} {groups : List Nat}
    (h : groups? (cs.splitOn ':') = some groups) :
    (∀ c ∈ cs, isLiteralChar c = true) ∧ cs.count ':' + 1 ≤ groups.length := by
  obtain ⟨hparts, hlength⟩ := groups?_parts h
  rw [length_splitOn] at hlength
  exact ⟨literal_of_parts ':' rfl hparts, hlength⟩

theorem optionalGroups?_split {cs : List Char} {groups : List Nat}
    (h : optionalGroups? cs = some groups) :
    (∀ c ∈ cs, isLiteralChar c = true) ∧ cs.count ':' ≤ groups.length - 1 := by
  unfold optionalGroups? at h
  split at h
  · next hempty =>
      rw [List.isEmpty_iff.mp hempty]
      simp
  · obtain ⟨hchars, hcount⟩ := groups?_split h
    exact ⟨hchars, by omega⟩

/-! ## Whole addresses -/

theorem splitDoubleColon_eq {cs before after : List Char}
    (h : splitDoubleColon cs = some (before, after)) : cs = before ++ ':' :: ':' :: after := by
  induction cs using splitDoubleColon.induct generalizing before with
  | case1 rest =>
      cases h
      rfl
  | case2 c rest hrest ih =>
      rw [splitDoubleColon] at h
      · obtain ⟨⟨b, a⟩, hsplit, hsame⟩ := Option.map_eq_some_iff.mp h
        cases hsame
        rw [ih hsplit]
        rfl
      · exact hrest
  | case3 => cases h

/-- What is read as a long address has only the characters of one, and at most eight colons. -/
theorem longAddress?_written {cs : List Char} {groups : List Nat}
    (h : longAddress? cs = some groups) :
    (∀ c ∈ cs, isLiteralChar c = true) ∧ cs.count ':' ≤ 8 := by
  unfold longAddress? at h
  split at h
  · obtain ⟨hgroups, height⟩ := Option.filter_eq_some_iff.mp h
    obtain ⟨hchars, hcount⟩ := groups?_split hgroups
    have hlength : groups.length = 8 := by simpa using height
    exact ⟨hchars, by omega⟩
  · next before after hsplit =>
      simp only [Option.bind_eq_bind, Option.bind_eq_some_iff] at h
      obtain ⟨front, hfront, back, hback, hrest⟩ := h
      obtain ⟨hbefore, hcolons⟩ := optionalGroups?_split hfront
      obtain ⟨hafter, hcolons'⟩ := optionalGroups?_split hback
      have hgroups : front.length + back.length ≤ 7 := by
        split at hrest
        · cases hrest
        · next hfew =>
            simp only [Bool.or_eq_true, decide_eq_true_eq, not_or, Nat.not_lt] at hfew
            exact hfew.2
      rw [splitDoubleColon_eq hsplit]
      constructor
      · intro c hc
        simp only [List.mem_append, List.mem_cons] at hc
        rcases hc with hmem | rfl | rfl | hmem
        · exact hbefore c hmem
        · rfl
        · rfl
        · exact hafter c hmem
      · -- the double colon stands for at least one group that is not written
        simp only [List.count_append, List.count_cons_self]
        omega

end WalletBridge.Net
