import Mathlib.Algebra.Group.Int.Defs
import Mathlib.Algebra.Group.Nat.Defs
import Mathlib.Data.List.Basic
import WalletBridge.Json.Reader

/-! # Written texts and numbers are read back

The bytes that a text or a whole number is written as, and what the readers make
of them when any other bytes follow. A text comes back whatever characters it
has: the escapes are undone, and all other bytes stand for themselves.
-/

namespace WalletBridge

open Text

namespace Text
def spell (cs : List Char) : Bytes := cs.flatMap String.utf8EncodeChar

theorem utf8_ofList (cs : List Char) : utf8 (String.ofList cs) = spell cs := by
  simp [utf8, spell, List.utf8Encode]

theorem spell_toList (s : String) : spell s.toList = utf8 s := by
  rw [← utf8_ofList, String.ofList_toList]

@[simp] theorem spell_nil : spell [] = [] := rfl

@[simp] theorem spell_cons (c : Char) (cs : List Char) :
    spell (c :: cs) = String.utf8EncodeChar c ++ spell cs := rfl

@[simp] theorem spell_append (cs ds : List Char) : spell (cs ++ ds) = spell cs ++ spell ds :=
  List.flatMap_append

theorem spell_ascii {c : Char} (h : c.toNat < 128) : spell [c] = [c.toNat.toUInt8] := by
  have hsize : c.utf8Size = 1 := by
    have : c.val ≤ 127 := by
      rw [UInt32.le_iff_toNat_le]
      have : c.val.toNat < 128 := h
      simp; omega
    simp [Char.utf8Size, this]
  simp [spell, String.utf8EncodeChar_eq_singleton hsize]
  rfl

/-- A character from 128 on has no byte below. -/
theorem tail_of_not_ascii {c : Char} (h : 128 ≤ c.toNat) {b : UInt8} (hb : b ∈ spell [c]) :
    0x80 ≤ b := by
  have h' : ¬ c.val.toNat ≤ 127 := by
    have : c.val.toNat = c.toNat := rfl
    omega
  simp only [spell, List.flatMap_cons, List.flatMap_nil, List.append_nil] at hb
  unfold String.utf8EncodeChar at hb
  simp only [h', if_false] at hb
  rw [UInt8.le_iff_toNat_le]
  simp at hb ⊢
  split at hb
  · simp at hb
    rcases hb with rfl | rfl <;> simp <;> omega
  · split at hb
    · simp at hb
      rcases hb with rfl | rfl | rfl <;> simp <;> omega
    · simp at hb
      rcases hb with rfl | rfl | rfl | rfl <;> simp <;> omega
end Text

namespace Json

def Plain (b : UInt8) : Prop := b ≠ quote ∧ b ≠ backslash ∧ 0x20 ≤ b

theorem scanText_plain {bytes read rest : Bytes} (h : ∀ b ∈ bytes, Plain b) :
    scanText .plain read (bytes ++ rest) = scanText .plain (bytes.reverse ++ read) rest := by
  induction bytes generalizing read with
  | nil => rfl
  | cons b bytes ih =>
      obtain ⟨hquote, hslash, hlow⟩ := h b (by simp)
      have hlow' : ¬ b < 0x20 := UInt8.not_lt.mpr hlow
      rw [List.cons_append, scanText]
      simp only [beq_iff_eq, hquote, hslash, hlow', if_false]
      rw [ih fun b' hb => h b' (by simp [hb])]
      simp

def shortEscapes : List (Char × Char) :=
  [('"', '"'), ('\\', '\\'), ('\n', 'n'), ('\r', 'r'), ('\t', 't'), ('\x08', 'b'), ('\x0c', 'f')]

theorem textChar_short {c letter : Char} (h : (c, letter) ∈ shortEscapes) (read rest : Bytes) :
    scanText .plain read (spell (Json.textChar c) ++ rest) =
      scanText .plain ((spell [c]).reverse ++ read) rest := by
  simp only [shortEscapes, List.mem_cons, Prod.mk.injEq, List.not_mem_nil, or_false] at h
  rcases h with ⟨rfl, -⟩ | ⟨rfl, -⟩ | ⟨rfl, -⟩ | ⟨rfl, -⟩ | ⟨rfl, -⟩ | ⟨rfl, -⟩ | ⟨rfl, -⟩ <;> rfl

theorem hexValue?_hexDigit {d : Nat} (h : d < 16) :
    ∃ b, spell [hexDigit d] = [b] ∧ hexValue? b = some d := by
  have hkey : ∀ d : Fin 16, spell [hexDigit d] = [(hexDigit d).toNat.toUInt8] ∧
      hexValue? (hexDigit d).toNat.toUInt8 = some d.val := by decide
  exact ⟨_, hkey ⟨d, h⟩⟩

theorem characterBytes_toNat (c : Char) : characterBytes c.toNat = spell [c] := by
  rw [characterBytes, Char.ofNat_toNat, ← spell_toList, String.toList_singleton]

/-- The escape of a control character has four digits, and the first two are zeros. -/
theorem spell_control {c : Char} (h : c.toNat < 32) : ∃ high low,
    spell ['\\', 'u', '0', '0', hexDigit (c.toNat / 16), hexDigit (c.toNat % 16)] =
      [0x5C, 0x75, 0x30, 0x30, high, low] ∧
    hexValue? high = some (c.toNat / 16) ∧ hexValue? low = some (c.toNat % 16) := by
  obtain ⟨high, hhigh, hhighValue⟩ := hexValue?_hexDigit (d := c.toNat / 16) (by omega)
  obtain ⟨low, hlow, hlowValue⟩ := hexValue?_hexDigit (d := c.toNat % 16) (by omega)
  refine ⟨high, low, ?_, hhighValue, hlowValue⟩
  have hsplit : ['\\', 'u', '0', '0', hexDigit (c.toNat / 16), hexDigit (c.toNat % 16)] =
    ['\\', 'u', '0', '0'] ++ [hexDigit (c.toNat / 16)] ++ [hexDigit (c.toNat % 16)] := rfl
  rw [hsplit, spell_append, spell_append, hhigh, hlow]
  rfl

theorem textChar_control {c : Char} (h : c.toNat < 32) (read rest : Bytes) :
    scanText .plain read (spell ['\\', 'u', '0', '0', hexDigit (c.toNat / 16),
      hexDigit (c.toNat % 16)] ++ rest) = scanText .plain ((spell [c]).reverse ++ read) rest := by
  obtain ⟨high, low, hspell, hhighValue, hlowValue⟩ := spell_control h
  have hvalue : ((0 * 16 + 0) * 16 + 0) * 16 + c.toNat / 16 = c.toNat / 16 := by omega
  have hvalue' : c.toNat / 16 * 16 + c.toNat % 16 = c.toNat := by omega
  have hafter : afterHex c.toNat none = .ok (.plain, spell [c]) := by
    have h1 : ¬ 0xDC00 ≤ c.toNat := by omega
    have h2 : ¬ 0xD800 ≤ c.toNat := by omega
    simp [afterHex, h1, h2, characterBytes_toNat]
  have hzero : hexValue? 0x30 = some 0 := rfl
  rw [hspell]
  simp [scanText, quote, backslash, hzero, hhighValue, hlowValue, hvalue', hafter]

theorem plain_of_textChar_eq {c : Char} (h : 32 ≤ c.toNat) (hquote : c ≠ '"') (hslash : c ≠ '\\')
    {b : UInt8} (hb : b ∈ spell [c]) : Plain b := by
  by_cases hascii : c.toNat < 128
  · rw [spell_ascii hascii, List.mem_singleton] at hb
    subst hb
    have hbyte : c.toNat.toUInt8.toNat = c.toNat := by simp; omega
    have hne : ∀ d : Char, c ≠ d → c.toNat ≠ d.toNat := fun d hd he => hd (Char.toNat_inj.mp he)
    refine ⟨?_, ?_, ?_⟩
    · intro he
      exact hne _ hquote (by rw [← hbyte, he]; rfl)
    · intro he
      exact hne _ hslash (by rw [← hbyte, he]; rfl)
    · rw [UInt8.le_iff_toNat_le, hbyte]
      exact h
  · have htail := UInt8.le_iff_toNat_le.mp (tail_of_not_ascii (by omega) hb)
    refine ⟨?_, ?_, ?_⟩
    · rintro rfl
      exact absurd htail (by decide)
    · rintro rfl
      exact absurd htail (by decide)
    · rw [UInt8.le_iff_toNat_le]
      exact Nat.le_trans (by decide) htail

/-- A character is written with an escape of one letter, as a control character, or plainly. -/
theorem textChar_cases (c : Char) :
    (∃ letter, (c, letter) ∈ shortEscapes) ∨
      (c.toNat < 32 ∧ Json.textChar c =
        ['\\', 'u', '0', '0', hexDigit (c.toNat / 16), hexDigit (c.toNat % 16)]) ∨
      (Json.textChar c = [c] ∧ ∀ b ∈ spell [c], Plain b) := by
  by_cases hshort : ∃ letter, (c, letter) ∈ shortEscapes
  · exact .inl hshort
  have hne : ∀ d letter, (d, letter) ∈ shortEscapes → c ≠ d := by
    rintro d letter h rfl
    exact hshort ⟨letter, h⟩
  have hquote := hne '"' '"' (by simp [shortEscapes])
  have hslash := hne '\\' '\\' (by simp [shortEscapes])
  have hnumber : c.toNat ≠ 8 ∧ c.toNat ≠ 12 := by
    refine ⟨fun h => ?_, fun h => ?_⟩
    · exact hne '\x08' 'b' (by simp [shortEscapes]) (Char.toNat_inj.mp h)
    · exact hne '\x0c' 'f' (by simp [shortEscapes]) (Char.toNat_inj.mp h)
  have hwritten : Json.textChar c = if c.toNat < 32 then
      ['\\', 'u', '0', '0', hexDigit (c.toNat / 16), hexDigit (c.toNat % 16)] else [c] := by
    simp [Json.textChar, hquote, hslash, hnumber, hne '\n' 'n' (by simp [shortEscapes]),
      hne '\r' 'r' (by simp [shortEscapes]), hne '\t' 't' (by simp [shortEscapes])]
  by_cases hcontrol : c.toNat < 32
  · rw [if_pos hcontrol] at hwritten
    exact .inr (.inl ⟨hcontrol, hwritten⟩)
  · rw [if_neg hcontrol] at hwritten
    exact .inr (.inr ⟨hwritten, fun b hb => plain_of_textChar_eq (by omega) hquote hslash hb⟩)

theorem scanText_textChar (c : Char) (read rest : Bytes) :
    scanText .plain read (spell (Json.textChar c) ++ rest) =
      scanText .plain ((spell [c]).reverse ++ read) rest := by
  rcases textChar_cases c with ⟨letter, h⟩ | ⟨hcontrol, hwritten⟩ | ⟨hwritten, hplain⟩
  · exact textChar_short h read rest
  · rw [hwritten]
    exact textChar_control hcontrol read rest
  · rw [hwritten]
    exact scanText_plain hplain

theorem scanText_flatMap (cs : List Char) (read rest : Bytes) :
    scanText .plain read (spell (cs.flatMap Json.textChar) ++ rest) =
      scanText .plain ((spell cs).reverse ++ read) rest := by
  induction cs generalizing read with
  | nil => rfl
  | cons c cs ih =>
      rw [List.flatMap_cons, spell_append, List.append_assoc, scanText_textChar, ih]
      simp

theorem readText_written (s : String) (rest : Bytes) :
    readText (spell (s.toList.flatMap Json.textChar ++ ['"']) ++ rest) = .ok (s, rest) := by
  have hclose : spell ['"'] = [quote] := rfl
  rw [readText, spell_append, List.append_assoc, scanText_flatMap, hclose, List.append_nil,
    List.singleton_append, scanText]
  simp [spell_toList, ofUtf8?_utf8]

/-! ## Numbers -/

theorem digitBytes_single (n : Nat) :
    ∃ b, spell [digitChar n] = [b] ∧ isDigitByte b ∧ digitOf b = n % 10 ∧
      (b = 0x30 → n % 10 = 0) := by
  have hkey : ∀ d : Fin 10, ∃ b, spell [Char.ofNat (48 + d.val)] = [b] ∧ isDigitByte b ∧
      digitOf b = d.val ∧ (b = 0x30 → d.val = 0) := by
    intro d
    refine ⟨(48 + d.val).toUInt8, ?_⟩
    revert d
    decide
  exact hkey ⟨n % 10, Nat.mod_lt _ (by decide)⟩

theorem absorb_concat {start m : Nat} {digits : Bytes} {b : UInt8}
    (h : absorb start digits = (m, digits.length)) (hm : m * 10 + digitOf b ≤ greatest64) :
    absorb start (digits ++ [b]) = (m * 10 + digitOf b, digits.length + 1) := by
  induction digits generalizing start m with
  | nil =>
      simp only [absorb, List.length_nil, Prod.mk.injEq, and_true] at h
      subst h
      simp [absorb, hm]
  | cons d digits ih =>
      rw [absorb] at h
      split at h
      · rename_i hle
        simp only [List.length_cons, Prod.mk.injEq, Nat.add_right_cancel_iff] at h
        have hrest := ih (Prod.ext h.1 h.2 : absorb (start * 10 + digitOf d) digits = _) hm
        rw [List.cons_append, absorb, if_pos hle, hrest]
        simp
      · simp at h

/-- The digits of a number: a zero leads no other digit, and together they make the number. -/
theorem decimalChars_digits {n : Nat} (h : n ≤ greatest64) :
    ∃ b digits, spell (decimalChars n) = b :: digits ∧ isDigitByte b ∧
      (∀ d ∈ digits, isDigitByte d) ∧ (b = 0x30 → n = 0 ∧ digits = []) ∧
      absorb (digitOf b) digits = (n, digits.length) := by
  induction n using decimalChars.induct with
  | case1 n hn =>
      obtain ⟨b, hb, hdigit, hvalue, hzero⟩ := digitBytes_single n
      have hmod : n % 10 = n := Nat.mod_eq_of_lt hn
      rw [decimalChars, if_pos hn, hb]
      rw [hmod] at hvalue hzero
      exact ⟨b, [], rfl, hdigit, by simp, fun h0 => ⟨hzero h0, rfl⟩, by simp [absorb, hvalue]⟩
  | case2 n hn ih =>
      obtain ⟨b, digits, hb, hdigit, hall, hzero, habsorb⟩ := ih (by omega)
      obtain ⟨last, hlast, hlastDigit, hvalue, -⟩ := digitBytes_single n
      rw [decimalChars, if_neg hn, spell_append, hb, hlast]
      refine ⟨b, digits ++ [last], rfl, hdigit, ?_, ?_, ?_⟩
      · intro d hd
        rcases List.mem_append.mp hd with hd | hd
        · exact hall d hd
        · rw [List.mem_singleton.mp hd]
          exact hlastDigit
      · intro h0
        have := (hzero h0).1
        omega
      · have hsum : n / 10 * 10 + digitOf last = n := by omega
        rw [absorb_concat habsorb (by omega), hsum]
        simp

theorem ne_of_isDigitByte {b c : UInt8} (h : isDigitByte b = true) (hc : isDigitByte c = false) :
    b ≠ c := by
  rintro rfl
  rw [h] at hc
  cases hc

theorem isSpace_of_isDigitByte {b : UInt8} (h : isDigitByte b = true) : isSpace b = false := by
  simp [isSpace, ne_of_isDigitByte h (c := 0x20) rfl, ne_of_isDigitByte h (c := 0x0A) rfl,
    ne_of_isDigitByte h (c := 0x09) rfl, ne_of_isDigitByte h (c := 0x0D) rfl]

/-- What may follow a number: nothing that would go on with it. -/
def Delimited (rest : Bytes) : Prop :=
  ∀ b ∈ rest.head?, ¬ isDigitByte b ∧ b ≠ point ∧ ¬ isExponentByte b

theorem span_digits {digits rest : Bytes} (h : ∀ d ∈ digits, isDigitByte d)
    (hrest : ∀ b ∈ rest.head?, isDigitByte b = false) :
    (digits ++ rest).takeWhile isDigitByte = digits ∧
      (digits ++ rest).dropWhile isDigitByte = rest := by
  rw [List.takeWhile_append_of_pos h, List.dropWhile_append_of_pos h]
  cases rest with
  | nil => simp
  | cons b rest => simp [hrest b rfl]

theorem Delimited.head_not_digit {rest : Bytes} (h : Delimited rest) :
    ∀ b ∈ rest.head?, isDigitByte b = false := by
  intro b hb
  simpa using (h b hb).1

theorem readNumber_decimal {n : Nat} (hn : n ≤ greatest64) (negative : Bool) {rest : Bytes}
    (hrest : Delimited rest) :
    readNumber negative (spell (decimalChars n) ++ rest) = .ok (wholeNumber negative n, rest) := by
  obtain ⟨b, digits, hb, hdigit, hall, hzero, habsorb⟩ := decimalChars_digits hn
  rw [hb, List.cons_append, readNumber]
  by_cases h0 : b = 0x30
  · obtain ⟨rfl, rfl⟩ := hzero h0
    subst h0
    cases rest with
    | nil => rfl
    | cons c more =>
        obtain ⟨hnot, hpoint, hexp⟩ := hrest c rfl
        have hdigit : isDigitByte 0x30 := rfl
        have hvalue : digitOf 0x30 = 0 := rfl
        simp at hnot hexp
        simp [hnot, hpoint, hexp, absorb, hdigit, hvalue]
  · obtain ⟨htake, hdrop⟩ := span_digits hall hrest.head_not_digit
    simp only [hdigit, beq_iff_eq, h0, if_false, htake, hdrop, habsorb, Nat.sub_self]
    cases rest with
    | nil => simp
    | cons c more =>
        obtain ⟨hnot, hpoint, hexp⟩ := hrest c rfl
        simp at hexp
        simp [h0, hpoint, hexp]

end Json

end WalletBridge
