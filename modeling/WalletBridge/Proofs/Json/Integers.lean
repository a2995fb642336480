import Mathlib.Data.Nat.Digits.Defs
import Mathlib.Tactic.Ring
import WalletBridge.Proofs.Json.Given
import WalletBridge.Proofs.Json.Outcomes

/-! # Literals of whole numbers

What a number literal says as mathematics has it, and what is read of it. A digit
that no longer fits into 64 bits turns the whole literal into a binary number, so
that a range of at most 64 bits has in it the value of its literals, or nothing.
-/

namespace WalletBridge.Json

open Text

/-! ## Digits -/

def digitsNumber (digits : Bytes) : Nat := Nat.ofDigits 10 (digits.reverse.map digitOf)

theorem digitsNumber_cons (b : UInt8) (digits : Bytes) :
    digitsNumber (b :: digits) = digitOf b * 10 ^ digits.length + digitsNumber digits := by
  unfold digitsNumber
  rw [List.reverse_cons, List.map_append, Nat.ofDigits_append, List.length_map,
    List.length_reverse]
  simp only [List.map_cons, List.map_nil, Nat.ofDigits_singleton]
  ring

theorem start_cons (start : Nat) (b : UInt8) (digits : Bytes) :
    start * 10 ^ (digits.length + 1) + digitsNumber (b :: digits) =
      (start * 10 + digitOf b) * 10 ^ digits.length + digitsNumber digits := by
  rw [digitsNumber_cons]
  ring

theorem start_le (start : Nat) (digits : Bytes) :
    start ≤ start * 10 ^ digits.length + digitsNumber digits := by
  have hscale : start ≤ start * 10 ^ digits.length :=
    Nat.le_mul_of_pos_right start (Nat.pow_pos (by omega))
  omega

/-- Digits are all taken in while their number has 64 bits. -/
theorem absorb_within {start : Nat} {digits : Bytes}
    (h : start * 10 ^ digits.length + digitsNumber digits ≤ greatest64) :
    absorb start digits = (start * 10 ^ digits.length + digitsNumber digits, digits.length) := by
  induction digits generalizing start with
  | nil => simp [absorb, digitsNumber]
  | cons b digits ih =>
      rw [List.length_cons, start_cons] at h
      have hnext : start * 10 + digitOf b ≤ greatest64 :=
        Nat.le_trans (start_le (start * 10 + digitOf b) digits) h
      rw [absorb, List.length_cons, start_cons]
      simp only [hnext, if_true, ih h]

/-- A number of more than 64 bits leaves a digit over. -/
theorem absorb_beyond {start : Nat} {digits : Bytes}
    (hstart : start ≤ greatest64)
    (h : greatest64 < start * 10 ^ digits.length + digitsNumber digits) :
    (absorb start digits).2 < digits.length := by
  induction digits generalizing start with
  | nil =>
      simp only [List.length_nil, Nat.pow_zero, Nat.mul_one, digitsNumber, List.reverse_nil,
        List.map_nil, Nat.ofDigits_nil, Nat.add_zero] at h
      omega
  | cons b digits ih =>
      rw [List.length_cons, start_cons] at h
      rw [absorb, List.length_cons]
      by_cases hnext : start * 10 + digitOf b ≤ greatest64
      · have hless := ih hnext h
        simp only [hnext, if_true]
        omega
      · simp only [hnext, if_false]
        omega

/-! ## Ranges -/

def Range.Has (range : Range) (k : Int) : Prop := range.least ≤ k ∧ k ≤ range.greatest

instance (range : Range) (k : Int) : Decidable (range.Has k) := inferInstanceAs (Decidable (_ ∧ _))

/-- The range has zero in it, and all its numbers are read as whole ones: they have 64 bits, with a
sign or without. -/
structure Range.Machine (range : Range) : Prop where
  zero : range.Has 0
  least : -2 ^ 63 ≤ range.least
  greatest : range.greatest ≤ 2 ^ 64 - 1

theorem Range.natural32_machine : Range.natural32.Machine := ⟨by decide, by decide, by decide⟩

theorem Range.natural64_machine : Range.natural64.Machine := ⟨by decide, by decide, by decide⟩

theorem Range.signed64_machine : Range.signed64.Machine := ⟨by decide, by decide, by decide⟩

def Range.of? (range : Range) (v : Num) : Option Int := (range.check v).toOption

theorem Range.of?_whole (range : Range) (k : Int) :
    range.of? (.whole k) = if range.Has k then some k else none := by
  by_cases hin : range.Has k
  · have hcheck : (range.least ≤ k && k ≤ range.greatest) = true := by
      simpa [Range.Has] using hin
    rw [if_pos hin, of?, check, if_pos hcheck]
    rfl
  · have hcheck : ¬ (range.least ≤ k && k ≤ range.greatest) = true := by
      simpa [Range.Has] using hin
    rw [if_neg hin, of?, check, if_neg hcheck]
    rfl

theorem Range.of?_not_whole (range : Range) {v? : Option Num} (h : ∀ k, v? ≠ some (.whole k)) :
    v?.bind range.of? = none := by
  cases v? with
  | none => rfl
  | some v =>
      cases v with
      | real x => rfl
      | whole k => exact absurd rfl (h k)

/-! ## Literals -/

namespace Numeral

def magnitude (n : Numeral) : Nat := digitsNumber n.whole

/-- The value of a literal without fraction and exponent, unless it is zero with a sign. -/
def integer? (n : Numeral) : Option Int :=
  if n.fraction = none ∧ n.exponent = none ∧ ¬ (n.negative = true ∧ n.magnitude = 0) then
    some (if n.negative then -(n.magnitude : Int) else n.magnitude)
  else none

/-- The value of such a literal if it lies in the range. -/
def within (range : Range) (n : Numeral) : Option Int :=
  n.integer?.filter fun k => range.Has k

variable {n : Numeral}

theorem within_eq_some {range : Range} {k : Int} :
    n.within range = some k ↔ n.integer? = some k ∧ range.Has k := by
  unfold within
  rw [Option.filter_eq_some_iff, decide_eq_true_eq]

theorem within_of_integer? {range : Range} {k : Int} (h : n.integer? = some k) :
    n.within range = if range.Has k then some k else none := by
  unfold within
  rw [h]
  by_cases hin : range.Has k <;> simp [hin]

theorem magnitude_eq {b : UInt8} {digits : Bytes} (h : n.whole = b :: digits) :
    n.magnitude = digitOf b * 10 ^ digits.length + digitsNumber digits := by
  rw [magnitude, h, digitsNumber_cons]

theorem digitOf_le (b : UInt8) : digitOf b ≤ greatest64 := by
  have hbyte := b.toNat_lt
  unfold digitOf greatest64
  omega

/-- A literal is read by its whole part, however many of its digits are taken in. -/
theorem value?_eq {b : UInt8} {digits : Bytes} (h : n.whole = b :: digits) :
    n.value? = (readAfterWhole n.negative (absorb (digitOf b) digits).1
      (digits.length - (absorb (digitOf b) digits).2) n.tail).toOption.map (·.1) := by
  have hread := n.readNumber_append h delimited_nil
  rw [List.append_nil, List.append_nil] at hread
  rw [value?, hread]

theorem value?_plain (hfraction : n.fraction = none) (hexponent : n.exponent = none)
    (hfits : n.magnitude ≤ greatest64) :
    n.value? = some (wholeNumber n.negative n.magnitude) := by
  obtain ⟨b, digits, hwhole, -⟩ := n.whole_eq
  have hmagnitude := magnitude_eq hwhole
  have htail : n.tail = [] := by simp [tail, hfraction, exponentBytes, hexponent]
  rw [hmagnitude] at hfits
  rw [value?_eq hwhole, absorb_within hfits, htail, hmagnitude, Nat.sub_self]
  rfl

theorem map_fst_ne_whole {k : Int} {result : Except Fault (Num × Bytes)}
    (h : ∀ rest, result ≠ .ok (.whole k, rest)) :
    result.toOption.map (·.1) ≠ some (.whole k) := by
  cases result with
  | error fault =>
      intro heq
      cases heq
  | ok pair =>
      obtain ⟨v, rest⟩ := pair
      intro heq
      have hv : v = .whole k := Option.some.inj heq
      exact h rest (by rw [hv])

/-- A literal of more than 64 bits is not read as a whole number. -/
theorem value?_beyond (hbeyond : greatest64 < n.magnitude) (k : Int) :
    n.value? ≠ some (.whole k) := by
  obtain ⟨b, digits, hwhole, -⟩ := n.whole_eq
  rw [magnitude_eq hwhole] at hbeyond
  have hless := absorb_beyond (digitOf_le b) hbeyond
  rw [value?_eq hwhole]
  apply map_fst_ne_whole
  intro rest
  have hdropped : (digits.length - (absorb (digitOf b) digits).2 == 0) = false := by
    rw [beq_eq_false_iff_ne]
    omega
  unfold readAfterWhole
  split
  · split
    · exact readFraction_ne_whole
    · split
      · exact readExponent_ne_whole
      · rw [hdropped]
        exact realNumber_ne_whole
  · rw [hdropped]
    exact realNumber_ne_whole

theorem value?_written_real (h : ¬ (n.fraction = none ∧ n.exponent = none)) (k : Int) :
    n.value? ≠ some (.whole k) := by
  obtain ⟨b, digits, hwhole, -⟩ := n.whole_eq
  rw [value?_eq hwhole]
  apply map_fst_ne_whole
  intro rest
  cases hfraction : n.fraction with
  | some digits =>
      have htail : n.tail = point :: (digits ++ n.exponentBytes) := by rw [tail, hfraction]
      rw [htail, readAfterWhole, if_pos (beq_self_eq_true point)]
      exact readFraction_ne_whole
  | none =>
      cases hexponent : n.exponent with
      | none => exact absurd ⟨hfraction, hexponent⟩ h
      | some x =>
          obtain ⟨letter, sign, digits⟩ := x
          have hletter := (n.exponent_form _ hexponent).1
          have htail : n.tail = letter :: (sign.toList ++ digits) := by
            simp [tail, hfraction, exponentBytes, hexponent]
          have hpoint : (letter == point) = false := by
            simpa using (isDigitByte_of_isExponentByte hletter).2
          rw [htail, readAfterWhole, hpoint]
          simp only [Bool.false_eq_true, if_false, hletter, if_true]
          exact readExponent_ne_whole

theorem value?_bind_signed {range : Range} (hrange : range.Machine)
    (hfraction : n.fraction = none) (hexponent : n.exponent = none)
    (hfits : n.magnitude ≤ greatest64) (hsign : n.negative = true) :
    n.value?.bind range.of? = n.within range := by
  have hleast := hrange.least
  rw [value?_plain hfraction hexponent hfits, hsign, Option.bind_some]
  by_cases hzero : n.magnitude = 0
  · simp [wholeNumber, hzero, within, integer?, hsign, Range.of?, Range.check, Except.toOption]
  · have hinteger : n.integer? = some (-(n.magnitude : Int)) := by
      simp [integer?, hfraction, hexponent, hsign, hzero]
    rw [within_of_integer? hinteger]
    by_cases hlarge : 0x8000000000000000 < n.magnitude
    · have hout : ¬ range.Has (-n.magnitude) := by
        intro hin
        have hge := hin.1
        omega
      rw [if_neg hout]
      simp [wholeNumber, hlarge, Range.of?, Range.check, Except.toOption]
    · have hwhole : wholeNumber true n.magnitude = .whole (-n.magnitude) := by
        simp [wholeNumber, hzero, hlarge]
      rw [hwhole, range.of?_whole]

theorem within_beyond {range : Range} (hrange : range.Machine)
    (hbeyond : greatest64 < n.magnitude) :
    n.within range = none := by
  have hleast := hrange.least
  have hgreatest := hrange.greatest
  rw [within, Option.filter_eq_none_iff]
  intro k hk hin
  obtain ⟨hlow, hhigh⟩ := of_decide_eq_true hin
  unfold integer? at hk
  split at hk
  · have hvalue := Option.some.inj hk
    unfold greatest64 at hbeyond
    split at hvalue <;> omega
  · cases hk

/-- What a range takes of a literal is its value, if this is a whole number of the range. -/
theorem value?_bind_of? {range : Range} (hrange : range.Machine) (n : Numeral) :
    n.value?.bind range.of? = n.within range := by
  by_cases hform : n.fraction = none ∧ n.exponent = none
  · obtain ⟨hfraction, hexponent⟩ := hform
    by_cases hfits : n.magnitude ≤ greatest64
    · cases hsign : n.negative with
      | true => exact value?_bind_signed hrange hfraction hexponent hfits hsign
      | false =>
          have hinteger : n.integer? = some n.magnitude := by
            simp [integer?, hfraction, hexponent, hsign]
          rw [value?_plain hfraction hexponent hfits, within_of_integer? hinteger, hsign,
            Option.bind_some]
          exact range.of?_whole n.magnitude
    · have hbeyond : greatest64 < n.magnitude := Nat.lt_of_not_le hfits
      rw [range.of?_not_whole (value?_beyond hbeyond), within_beyond hrange hbeyond]
  · have hnone : n.integer? = none := by
      unfold integer?
      rw [if_neg]
      intro hall
      exact hform ⟨hall.1, hall.2.1⟩
    rw [range.of?_not_whole (value?_written_real hform), within, hnone]
    rfl

instance (digits : Bytes) : Decidable (IsDigits digits) := inferInstanceAs (Decidable (_ ∧ _))

/-- The literal of a sign and digits alone. -/
def plain (negative : Bool) (digits : Bytes) (hdigits : IsDigits digits)
    (hlead : digits.head? = some 0x30 → digits = [0x30]) : Numeral where
  negative := negative
  whole := digits
  fraction := none
  exponent := none
  whole_digits := hdigits
  whole_lead := hlead
  fraction_digits := by simp
  exponent_form := by simp

def zero : Numeral := plain false [0x30] (by decide +kernel) fun _ => rfl

end Numeral

end WalletBridge.Json
