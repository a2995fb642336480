import WalletBridge.Text.Decimal

/-! # The order of padded numbers

Of two texts of one length the first place where they differ says which sorts first.
So numbers that are filled up with zeros to the same width sort by their value, and a
text put together from such parts sorts by its parts.
-/

namespace WalletBridge.Text

variable {s t s' t' : List Char} {before alike before' alike' : Prop} {n m width : Nat}

/-- Two texts of one length: when the first sorts before the second, and when they are equal. -/
structure Ranked (s t : List Char) (before alike : Prop) : Prop where
  length : s.length = t.length
  less : s < t ↔ before
  same : s = t ↔ alike

theorem append_lt_append_iff (hlength : s.length = t.length) :
    s ++ s' < t ++ t' ↔ s < t ∨ s = t ∧ s' < t' := by
  induction s generalizing t with
  | nil =>
      obtain rfl : t = [] := List.length_eq_zero_iff.mp hlength.symm
      simp
  | cons c s ih =>
      cases t with
      | nil => cases hlength
      | cons d t =>
          rw [List.cons_append, List.cons_append, List.cons_lt_cons_iff, List.cons_lt_cons_iff,
            ih (Nat.succ.inj hlength), List.cons.injEq]
          constructor
          · rintro (hless | ⟨hsame, hless | ⟨hrest, hless⟩⟩)
            · exact .inl (.inl hless)
            · exact .inl (.inr ⟨hsame, hless⟩)
            · exact .inr ⟨⟨hsame, hrest⟩, hless⟩
          · rintro ((hless | ⟨hsame, hless⟩) | ⟨⟨hsame, hrest⟩, hless⟩)
            · exact .inl hless
            · exact .inr ⟨hsame, .inl hless⟩
            · exact .inr ⟨hsame, .inr ⟨hrest, hless⟩⟩

theorem Ranked.append (h : Ranked s t before alike) (h' : Ranked s' t' before' alike') :
    Ranked (s ++ s') (t ++ t') (before ∨ alike ∧ before') (alike ∧ alike') where
  length := by rw [List.length_append, List.length_append, h.length, h'.length]
  less := by rw [append_lt_append_iff h.length, h.less, h.same, h'.less]
  same := by
    rw [← h.same, ← h'.same]
    refine ⟨fun hsame => List.append_inj hsame h.length, ?_⟩
    rintro ⟨rfl, rfl⟩
    rfl

theorem Ranked.congr (h : Ranked s t before alike) (hbefore : before ↔ before')
    (halike : alike ↔ alike') : Ranked s t before' alike' :=
  ⟨h.length, h.less.trans hbefore, h.same.trans halike⟩

theorem Ranked.refl (s : List Char) : Ranked s s False True :=
  ⟨rfl, iff_false_intro (List.lt_irrefl s), iff_true_intro rfl⟩

/-! ## Digits -/

theorem ranked_digit (n m : Nat) :
    Ranked [digitChar n] [digitChar m] (n % 10 < m % 10) (n % 10 = m % 10) where
  length := rfl
  less := by
    have hdigits : ∀ a < 10, ∀ b < 10,
        ([Char.ofNat (48 + a)] < [Char.ofNat (48 + b)] ↔ a < b) := by decide
    exact hdigits (n % 10) (Nat.mod_lt n (by decide)) (m % 10) (Nat.mod_lt m (by decide))
  same := by
    refine ⟨fun hsame => ?_, fun hsame => by rw [digitChar, digitChar, hsame]⟩
    rw [← digitValue_digitChar n, ← digitValue_digitChar m, List.singleton_inj.mp hsame]

/-- The last digits of a number, with zeros in front where it has none. -/
def lastDigits : Nat → Nat → List Char
  | 0, _ => []
  | width + 1, n => lastDigits width (n / 10) ++ [digitChar n]

theorem lastDigits_zero (width : Nat) : lastDigits width 0 = List.replicate width '0' := by
  induction width with
  | zero => rfl
  | succ width ih =>
      rw [lastDigits, Nat.zero_div, ih, List.replicate_succ']
      rfl

theorem div_ten_lt (h : n < Nat.pow 10 (width + 1)) : n / 10 < Nat.pow 10 width := by
  change n < Nat.pow 10 width * 10 at h
  omega

theorem padded_toList (h : n < Nat.pow 10 (width + 1)) :
    (padded (width + 1) n).toList = lastDigits (width + 1) n := by
  rw [padded, String.toList_ofList]
  induction width generalizing n with
  | zero =>
      have hsmall : n < 10 := h
      rw [decimalChars, if_pos hsmall]
      rfl
  | succ width ih =>
      rw [lastDigits, decimalChars]
      split
      · next hsmall =>
          rw [Nat.div_eq_of_lt hsmall, lastDigits_zero]
          rfl
      · rw [← ih (div_ten_lt h), List.length_append, List.length_singleton, Nat.add_sub_add_right,
          List.append_assoc]

theorem ranked_lastDigits (hn : n < Nat.pow 10 width) (hm : m < Nat.pow 10 width) :
    Ranked (lastDigits width n) (lastDigits width m) (n < m) (n = m) := by
  induction width generalizing n m with
  | zero =>
      obtain rfl : n = 0 := Nat.lt_one_iff.mp hn
      obtain rfl : m = 0 := Nat.lt_one_iff.mp hm
      exact (Ranked.refl []).congr (iff_of_false nofun (Nat.lt_irrefl 0)) (iff_of_true trivial rfl)
  | succ width ih =>
      have hfirst := ih (div_ten_lt hn) (div_ten_lt hm)
      exact (hfirst.append (ranked_digit n m)).congr (by omega) (by omega)

theorem ranked_padded (hn : n < Nat.pow 10 (width + 1)) (hm : m < Nat.pow 10 (width + 1)) :
    Ranked (padded (width + 1) n).toList (padded (width + 1) m).toList (n < m) (n = m) := by
  rw [padded_toList hn, padded_toList hm]
  exact ranked_lastDigits hn hm

end WalletBridge.Text
