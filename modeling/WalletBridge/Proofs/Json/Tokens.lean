import WalletBridge.Proofs.Json.Grammar

/-! # Reading one token

What a reader makes of a text or a number depends on the token alone: what
follows is left as it is. Passing over a token always succeeds.
-/

namespace WalletBridge.Json

open Text

theorem readWord_append (word rest : Bytes) : readWord word (word ++ rest) = .ok ((), rest) := by
  induction word with
  | nil => rfl
  | cons b word ih => simpa [readWord] using ih

theorem readNull_append (rest : Bytes) : readNull ([0x75, 0x6C, 0x6C] ++ rest) = .ok ((), rest) :=
  readWord_append _ rest

theorem readTrue_append (rest : Bytes) : readTrue ([0x72, 0x75, 0x65] ++ rest) = .ok ((), rest) :=
  readWord_append _ rest

theorem readFalse_append (rest : Bytes) :
    readFalse ([0x61, 0x6C, 0x73, 0x65] ++ rest) = .ok ((), rest) :=
  readWord_append _ rest

/-- What is read of a token does not depend on what follows it. -/
def Settles (read : Reader α) (token : Bytes) (Next : Bytes → Prop) : Prop :=
  ∃ o : Option α, ∀ rest, Next rest → (read (token ++ rest)).toOption = o.map (·, rest)

/-! ## Texts -/

theorem hexValue?_of_isHexDigit {b : UInt8} (h : IsHexDigit b) : ∃ d, hexValue? b = some d := by
  unfold hexValue?
  split
  · exact ⟨_, rfl⟩
  rename_i hdigit
  split
  · exact ⟨_, rfl⟩
  rename_i hsmall
  split
  · exact ⟨_, rfl⟩
  rename_i hlarge
  simp only [Bool.and_eq_true, decide_eq_true_eq] at hdigit hsmall hlarge
  rcases h with h | h | h
  · exact absurd h hdigit
  · exact absurd h hlarge
  · exact absurd h hsmall

theorem escaped?_of_mem {letter : UInt8}
    (h : letter ∈ [0x22, 0x5C, 0x2F, 0x62, 0x66, 0x6E, 0x72, 0x74]) :
    letter ≠ 0x75 ∧ ∃ c, escaped? letter = some c := by
  simp only [List.mem_cons, List.not_mem_nil, or_false] at h
  rcases h with rfl | rfl | rfl | rfl | rfl | rfl | rfl | rfl <;> exact ⟨by decide, _, rfl⟩

section
variable {a b c d : UInt8}

theorem scanText_hex (h : IsHexDigit a ∧ IsHexDigit b ∧ IsHexDigit c ∧ IsHexDigit d) :
    ∃ value, ∀ high read rest, scanText (.hex 4 (some 0) high) read (a :: b :: c :: d :: rest) =
      match afterHex value high with
      | .error cause => .error (.before cause rest)
      | .ok (state, added) => scanText state (added.reverse ++ read) rest := by
  obtain ⟨ha, hb, hc, hd⟩ := h
  obtain ⟨av, ha⟩ := hexValue?_of_isHexDigit ha
  obtain ⟨bv, hb⟩ := hexValue?_of_isHexDigit hb
  obtain ⟨cv, hc⟩ := hexValue?_of_isHexDigit hc
  obtain ⟨dv, hd⟩ := hexValue?_of_isHexDigit hd
  refine ⟨((av * 16 + bv) * 16 + cv) * 16 + dv, ?_⟩
  intro high read rest
  cases hafter : afterHex (((av * 16 + bv) * 16 + cv) * 16 + dv) high with
  | error cause => simp [scanText, ha, hb, hc, hd, hafter]
  | ok result => simp [scanText, ha, hb, hc, hd, hafter]

theorem skipTextFrom_hex (h : IsHexDigit a ∧ IsHexDigit b ∧ IsHexDigit c ∧ IsHexDigit d)
    (rest : Bytes) :
    skipTextFrom (.hex 4 (some 0) none) (a :: b :: c :: d :: rest) = skipTextFrom .plain rest := by
  obtain ⟨ha, hb, hc, hd⟩ := h
  obtain ⟨av, ha⟩ := hexValue?_of_isHexDigit ha
  obtain ⟨bv, hb⟩ := hexValue?_of_isHexDigit hb
  obtain ⟨cv, hc⟩ := hexValue?_of_isHexDigit hc
  obtain ⟨dv, hd⟩ := hexValue?_of_isHexDigit hd
  simp [skipTextFrom, ha, hb, hc, hd]

end

def TextState.Between (state : TextState) : Prop :=
  state = .plain ∨ ∃ high, state = .pairBackslash high

theorem afterHex_between {value : Nat} {high : Option Nat} {state : TextState} {added : Bytes}
    (h : afterHex value high = .ok (state, added)) : state.Between := by
  unfold afterHex at h
  (repeat' split at h) <;> cases h
  · exact .inr ⟨_, rfl⟩
  · exact .inl rfl
  · exact .inl rfl

namespace Settles

variable {read read' : Reader α} {token token' : Bytes} {Next : Bytes → Prop}

theorem of_error (h : ∀ rest, ∃ fault, read (token ++ rest) = .error fault) :
    Settles read token Next := by
  refine ⟨none, fun rest _ => ?_⟩
  obtain ⟨fault, hfault⟩ := h rest
  rw [hfault]
  rfl

theorem of_eq (h : Settles read' token' Next)
    (heq : ∀ rest, Next rest → read (token ++ rest) = read' (token' ++ rest)) :
    Settles read token Next := by
  obtain ⟨o, ho⟩ := h
  exact ⟨o, fun rest hrest => by rw [heq rest hrest, ho rest hrest]⟩

end Settles

theorem Spelling.inner_cons (piece : Piece) (s : Spelling) (rest : Bytes) :
    Spelling.inner (piece :: s) ++ rest = piece.bytes ++ (Spelling.inner s ++ rest) := by
  simp [Spelling.inner]

theorem scanText_settles (s : Spelling) {state : TextState} (hstate : state.Between)
    (read : Bytes) : Settles (scanText state read) s.inner fun _ => True := by
  induction s generalizing state read with
  | nil =>
      rcases hstate with rfl | ⟨high, rfl⟩
      · refine ⟨ofUtf8? read.reverse, fun rest _ => ?_⟩
        simp only [Spelling.inner, List.flatMap_nil, List.nil_append, List.cons_append, scanText,
          beq_self_eq_true, if_true]
        cases ofUtf8? read.reverse <;> rfl
      · exact .of_error fun rest => ⟨_, rfl⟩
  | cons piece s ih =>
      have hplain : TextState.plain.Between := .inl rfl
      cases piece with
      | plain b h =>
          obtain ⟨hquote, hslash, hlow⟩ := h
          have hlow' : ¬ b < 0x20 := UInt8.not_lt.mpr hlow
          rcases hstate with rfl | ⟨high, rfl⟩
          · refine (ih hplain (b :: read)).of_eq fun rest _ => ?_
            rw [Spelling.inner_cons]
            simp [Piece.bytes, scanText, hquote, hslash, hlow']
          -- after the first half of a pair only the second half may follow
          · refine .of_error fun rest => ?_
            rw [Spelling.inner_cons]
            simp [Piece.bytes, scanText, hslash]
      | escape letter h =>
          obtain ⟨hletter, c, hc⟩ := escaped?_of_mem h
          rcases hstate with rfl | ⟨high, rfl⟩
          · refine (ih hplain (c :: read)).of_eq fun rest _ => ?_
            rw [Spelling.inner_cons]
            simp [Piece.bytes, scanText, hletter, hc, backslash, quote]
          · refine .of_error fun rest => ?_
            rw [Spelling.inner_cons]
            simp [Piece.bytes, scanText, hletter]
      | hex a b c d h =>
          obtain ⟨value, hvalue⟩ := scanText_hex h
          obtain ⟨high, hstart⟩ : ∃ high, ∀ rest,
              scanText state read (backslash :: 0x75 :: a :: b :: c :: d :: rest) =
                scanText (.hex 4 (some 0) high) read (a :: b :: c :: d :: rest) := by
            rcases hstate with rfl | ⟨high, rfl⟩
            · exact ⟨none, fun rest => by simp [scanText, backslash, quote]⟩
            · exact ⟨some high, fun rest => by simp [scanText]⟩
          have heq : ∀ rest, scanText state read (Spelling.inner (.hex a b c d h :: s) ++ rest) =
              match afterHex value high with
              | .error cause => .error (.before cause (Spelling.inner s ++ rest))
              | .ok (state, added) =>
                scanText state (added.reverse ++ read) (Spelling.inner s ++ rest) := by
            intro rest
            rw [Spelling.inner_cons, Piece.bytes]
            exact (hstart _).trans (hvalue _ _ _)
          cases hafter : afterHex value high with
          | error cause => exact .of_error fun rest => ⟨_, by rw [heq, hafter]⟩
          | ok next =>
              obtain ⟨next, added⟩ := next
              refine (ih (afterHex_between hafter) (added.reverse ++ read)).of_eq fun rest _ => ?_
              rw [heq, hafter]

def Spelling.value? (s : Spelling) : Option String := (readText s.inner).toOption.map (·.1)

theorem Settles.eq_of_nil {read : Reader α} {token : Bytes} {Next : Bytes → Prop}
    (h : Settles read token Next) (hnil : Next []) {rest : Bytes} (hrest : Next rest) :
    (read (token ++ rest)).toOption = ((read token).toOption.map (·.1)).map (·, rest) := by
  obtain ⟨o, ho⟩ := h
  have hbare := ho [] hnil
  rw [List.append_nil] at hbare
  rw [ho rest hrest, hbare]
  cases o <;> rfl

theorem readText_inner (s : Spelling) (rest : Bytes) :
    (readText (s.inner ++ rest)).toOption = s.value?.map (·, rest) :=
  (scanText_settles s (.inl rfl) []).eq_of_nil trivial trivial

theorem skipText_inner (s : Spelling) (rest : Bytes) : skipText (s.inner ++ rest) = .ok rest := by
  unfold skipText
  induction s with
  | nil => rfl
  | cons piece s ih =>
      rw [Spelling.inner_cons]
      cases piece with
      | plain b h =>
          obtain ⟨hquote, hslash, hlow⟩ := h
          have hlow' : ¬ b < 0x20 := UInt8.not_lt.mpr hlow
          simpa [Piece.bytes, skipTextFrom, hquote, hslash, hlow'] using ih
      | escape letter h =>
          obtain ⟨hletter, c, hc⟩ := escaped?_of_mem h
          simpa [Piece.bytes, skipTextFrom, hletter, hc, backslash, quote] using ih
      | hex a b c d h =>
          have hfour := (skipTextFrom_hex h (Spelling.inner s ++ rest)).trans ih
          simpa [Piece.bytes, skipTextFrom, backslash, quote] using hfour

/-! ## Numbers -/

theorem delimited_nil : Delimited [] := by simp [Delimited]

section
variable (negative : Bool) (significand : Nat) (exponent : Int)

theorem realNumber_settles : Settles (realNumber negative significand exponent) [] Delimited := by
  refine ⟨(scaleByTen 8 (ofNatural significand) exponent).map (.real ⟨negative, ·⟩), ?_⟩
  intro rest _
  rw [List.nil_append, realNumber]
  cases scaleByTen 8 (ofNatural significand) exponent <;> rfl

/-- The digits of an exponent are read to their end, or until it is too great. -/
theorem readExponentDigits_append (digits : Bytes) (h : ∀ d ∈ digits, isDigitByte d) (e : Nat) :
    (∃ e', ∀ rest, Delimited rest → readExponentDigits e (digits ++ rest) = (some e', rest)) ∨
    ∃ left, (∀ d ∈ left, isDigitByte d) ∧
      ∀ rest, readExponentDigits e (digits ++ rest) = (none, left ++ rest) := by
  induction digits generalizing e with
  | nil =>
      refine .inl ⟨e, fun rest hrest => ?_⟩
      cases rest with
      | nil => rfl
      | cons b rest => simp [readExponentDigits, hrest.head_not_digit b rfl]
  | cons d digits ih =>
      have hd : isDigitByte d = true := h d (by simp)
      have hdigits : ∀ d ∈ digits, isDigitByte d := fun d hd => h d (by simp [hd])
      by_cases hgreat : e * 10 + digitOf d ≤ greatestRead
      · rcases ih hdigits (e * 10 + digitOf d) with ⟨e', he⟩ | ⟨left, hleft, he⟩
        · refine .inl ⟨e', fun rest hrest => ?_⟩
          simp [readExponentDigits, hd, hgreat, he rest hrest]
        · refine .inr ⟨left, hleft, fun rest => ?_⟩
          simp [readExponentDigits, hd, hgreat, he rest]
      · refine .inr ⟨digits, hdigits, fun rest => ?_⟩
        simp [readExponentDigits, hd, hgreat]

theorem readExponentValue_settles (raises : Bool) {digits : Bytes} (h : IsDigits digits) :
    Settles (readExponentValue negative significand exponent raises) digits Delimited := by
  obtain ⟨hne, hall⟩ := h
  obtain ⟨d, digits, rfl⟩ := List.exists_cons_of_ne_nil hne
  have hd : isDigitByte d = true := hall d (by simp)
  have hdigits : ∀ d ∈ digits, isDigitByte d := fun d hd => hall d (by simp [hd])
  rcases readExponentDigits_append digits hdigits (digitOf d) with ⟨e, he⟩ | ⟨left, hleft, he⟩
  · refine (realNumber_settles negative significand
      (if raises then exponent + e else exponent - e)).of_eq fun rest hrest => ?_
    rw [List.cons_append, readExponentValue]
    simp only [hd, he rest hrest]
    rfl
  · by_cases hgreat : (significand != 0 && raises) = true
    · refine .of_error fun rest => ⟨.before .numberTooLarge (left ++ rest), ?_⟩
      rw [List.cons_append, readExponentValue]
      simp [hd, he rest, hgreat]
    · refine ⟨some (.real ⟨negative, .zero⟩), fun rest hrest => ?_⟩
      rw [List.cons_append, readExponentValue]
      simp only [hd, he rest, hgreat]
      simp [(span_digits hleft hrest.head_not_digit).2, Except.toOption]

theorem readExponent_settles {sign : Option UInt8} {digits : Bytes}
    (hsign : ∀ b ∈ sign, b = plus ∨ b = minus) (h : IsDigits digits) :
    Settles (readExponent negative significand exponent) (sign.toList ++ digits) Delimited := by
  cases sign with
  | some b =>
      rcases hsign b rfl with rfl | rfl
      · exact (readExponentValue_settles negative significand exponent true h).of_eq fun _ _ => rfl
      · exact (readExponentValue_settles negative significand exponent false h).of_eq fun _ _ => rfl
  | none =>
      refine (readExponentValue_settles negative significand exponent true h).of_eq
        fun rest _ => ?_
      obtain ⟨d, digits, rfl⟩ := List.exists_cons_of_ne_nil h.1
      have hd : isDigitByte d = true := h.2 d (by simp)
      have hplus : d ≠ plus := ne_of_isDigitByte hd rfl
      have hminus : d ≠ minus := ne_of_isDigitByte hd rfl
      show readExponent negative significand exponent (d :: (digits ++ rest)) = _
      unfold readExponent
      split
      · rename_i heq
        exact absurd (List.cons.inj heq).1 hplus
      · rename_i heq
        exact absurd (List.cons.inj heq).1 hminus
      · rfl

end

theorem isDigitByte_of_isExponentByte {b : UInt8} (h : isExponentByte b = true) :
    isDigitByte b = false ∧ b ≠ point := by
  simp only [isExponentByte, Bool.or_eq_true, beq_iff_eq] at h
  rcases h with rfl | rfl <;> exact ⟨rfl, by decide⟩

namespace Numeral

variable (n : Numeral)

/-- What follows the digits of a part of a number is no digit. -/
theorem exponentBytes_head {rest : Bytes} (hrest : Delimited rest) :
    ∀ b ∈ (n.exponentBytes ++ rest).head?, isDigitByte b = false ∧ b ≠ point := by
  unfold exponentBytes
  split
  · intro b hb
    obtain ⟨hdigit, hpoint, -⟩ := hrest b hb
    exact ⟨by simpa using hdigit, hpoint⟩
  · rename_i letter sign digits hform
    intro b hb
    cases hb
    exact isDigitByte_of_isExponentByte (n.exponent_form _ hform).1

theorem tail_head {rest : Bytes} (hrest : Delimited rest) :
    ∀ b ∈ (n.tail ++ rest).head?, isDigitByte b = false := by
  unfold tail
  split
  · exact fun b hb => (n.exponentBytes_head hrest b hb).1
  · rintro b ⟨⟩
    rfl

theorem readFraction_settles (negative : Bool) (significand : Nat) (exponent : Int)
    {digits : Bytes} (h : IsDigits digits) :
    Settles (readFraction negative significand exponent) (digits ++ n.exponentBytes) Delimited := by
  have hne : digits.isEmpty = false := by simpa using h.1
  have hspan : ∀ rest, Delimited rest → readFraction negative significand exponent
      (digits ++ n.exponentBytes ++ rest) =
        match n.exponentBytes ++ rest with
        | b :: more =>
          if isExponentByte b then
            readExponent negative (absorb significand digits).1
              (exponent - (absorb significand digits).2) more
          else realNumber negative (absorb significand digits).1
            (exponent - (absorb significand digits).2) (n.exponentBytes ++ rest)
        | [] => realNumber negative (absorb significand digits).1
            (exponent - (absorb significand digits).2) (n.exponentBytes ++ rest) := by
    intro rest hrest
    obtain ⟨htake, hdrop⟩ := span_digits h.2 fun b hb => (n.exponentBytes_head hrest b hb).1
    rw [List.append_assoc, readFraction, htake, hdrop, hne]
    rfl
  cases hform : n.exponent with
  | none =>
      have hbytes : n.exponentBytes = [] := by rw [exponentBytes, hform]
      refine (realNumber_settles negative (absorb significand digits).1
        (exponent - (absorb significand digits).2)).of_eq fun rest hrest => ?_
      rw [hspan rest hrest, hbytes, List.nil_append]
      cases rest with
      | nil => rfl
      | cons b rest =>
          have hb := (hrest b rfl).2.2
          simp only [hb]
          rfl
  | some x =>
      obtain ⟨letter, sign, edigits⟩ := x
      obtain ⟨hletter, hsign, hedigits⟩ := n.exponent_form _ hform
      have hbytes : n.exponentBytes = letter :: (sign.toList ++ edigits) := by
        rw [exponentBytes, hform]
      refine (readExponent_settles negative (absorb significand digits).1
        (exponent - (absorb significand digits).2) hsign hedigits).of_eq fun rest hrest => ?_
      rw [hspan rest hrest, hbytes, List.cons_append]
      simp only [hletter, if_true]

/-- Without its first digit the whole part of a number is read to its end. -/
theorem whole_eq : ∃ b digits, n.whole = b :: digits ∧ isDigitByte b = true ∧
    (∀ d ∈ digits, isDigitByte d) ∧ (b = 0x30 → digits = []) := by
  obtain ⟨b, digits, hwhole⟩ := List.exists_cons_of_ne_nil n.whole_digits.1
  have hall := n.whole_digits.2
  have hlead := n.whole_lead
  rw [hwhole] at hall hlead
  refine ⟨b, digits, hwhole, hall b (by simp), fun d hd => hall d (by simp [hd]), ?_⟩
  rintro rfl
  simpa using hlead rfl

/-- The digits after the first and what follows them, as a number is read. -/
theorem span_whole {b : UInt8} {digits : Bytes} (hdigits : ∀ d ∈ digits, isDigitByte d)
    (hzero : b = 0x30 → digits = []) {rest : Bytes} (hrest : Delimited rest) :
    (if b == 0x30 then [] else (digits ++ (n.tail ++ rest)).takeWhile isDigitByte) = digits ∧
      (if b == 0x30 then digits ++ (n.tail ++ rest)
        else (digits ++ (n.tail ++ rest)).dropWhile isDigitByte) = n.tail ++ rest := by
  by_cases hb : b = 0x30
  · simp [hb, hzero hb]
  · simp only [beq_iff_eq, hb, if_false]
    exact span_digits hdigits (n.tail_head hrest)

def readAfterWhole (negative : Bool) (significand dropped : Nat) : Reader Num := fun after =>
  match after with
  | c :: more =>
    if c == point then readFraction negative significand dropped more
    else if isExponentByte c then readExponent negative significand dropped more
    else if dropped == 0 then .ok (wholeNumber negative significand, after)
    else realNumber negative significand dropped after
  | [] =>
    if dropped == 0 then .ok (wholeNumber negative significand, after)
    else realNumber negative significand dropped after

theorem readAfterWhole_settles (negative : Bool) (significand dropped : Nat) :
    Settles (readAfterWhole negative significand dropped) n.tail Delimited := by
  cases hfraction : n.fraction with
  | some digits =>
      refine (n.readFraction_settles negative significand dropped
        (n.fraction_digits _ hfraction)).of_eq fun rest _ => ?_
      simp [tail, hfraction, readAfterWhole]
  | none =>
      cases hform : n.exponent with
      | some x =>
          obtain ⟨letter, sign, digits⟩ := x
          obtain ⟨hletter, hsign, hdigits⟩ := n.exponent_form _ hform
          have hpoint := (isDigitByte_of_isExponentByte hletter).2
          refine (readExponent_settles negative significand dropped hsign hdigits).of_eq
            fun rest _ => ?_
          simp [tail, hfraction, exponentBytes, hform, readAfterWhole, hpoint, hletter]
      | none =>
          have htail : n.tail = [] := by simp [tail, hfraction, exponentBytes, hform]
          have hend : ∀ rest, Delimited rest → readAfterWhole negative significand dropped rest =
              if dropped == 0 then .ok (wholeNumber negative significand, rest)
              else realNumber negative significand dropped rest := by
            intro rest hrest
            cases rest with
            | nil => rfl
            | cons c rest =>
                obtain ⟨-, hpoint, hexponent⟩ := hrest c rfl
                simp [readAfterWhole, hpoint, hexponent]
          rw [htail]
          by_cases hdropped : dropped = 0
          · refine ⟨some (wholeNumber negative significand), fun rest hrest => ?_⟩
            rw [List.nil_append, hend rest hrest, hdropped]
            rfl
          · refine (realNumber_settles negative significand dropped).of_eq fun rest hrest => ?_
            rw [List.nil_append, hend rest hrest]
            simp [hdropped]

theorem readNumber_append {b : UInt8} {digits : Bytes} (hwhole : n.whole = b :: digits)
    {rest : Bytes} (hrest : Delimited rest) :
    readNumber n.negative (n.size ++ rest) =
      readAfterWhole n.negative (absorb (digitOf b) digits).1
        (digits.length - (absorb (digitOf b) digits).2) (n.tail ++ rest) := by
  obtain ⟨_, _, hwhole', hb, hdigits, hzero⟩ := n.whole_eq
  obtain ⟨rfl, rfl⟩ := List.cons.inj (hwhole.symm.trans hwhole')
  obtain ⟨htake, hdrop⟩ := n.span_whole hdigits hzero hrest
  rw [size, hwhole, List.append_assoc, List.cons_append, readNumber]
  simp only [hb, Bool.not_true, Bool.false_eq_true, if_false]
  rw [htake, hdrop]
  cases hafter : n.tail ++ rest with
  | nil => rfl
  | cons c more =>
      have hc : isDigitByte c = false := n.tail_head hrest c (by rw [hafter]; rfl)
      simp only [hc, Bool.and_false, Bool.false_eq_true, if_false]
      rfl

theorem readNumber_settles : Settles (readNumber n.negative) n.size Delimited := by
  obtain ⟨b, digits, hwhole, -⟩ := n.whole_eq
  exact (n.readAfterWhole_settles n.negative (absorb (digitOf b) digits).1
    (digits.length - (absorb (digitOf b) digits).2)).of_eq fun rest hrest =>
      n.readNumber_append hwhole hrest

def value? : Option Num := (readNumber n.negative n.size).toOption.map (·.1)

theorem readNumber_size {rest : Bytes} (hrest : Delimited rest) :
    (readNumber n.negative (n.size ++ rest)).toOption = n.value?.map (·, rest) :=
  n.readNumber_settles.eq_of_nil delimited_nil hrest

theorem skipExponent_digits {sign : Option UInt8} {digits rest : Bytes}
    (hsign : ∀ b ∈ sign, b = plus ∨ b = minus) (h : IsDigits digits) (hrest : Delimited rest) :
    skipExponent (sign.toList ++ digits ++ rest) = .ok rest := by
  obtain ⟨hne, hall⟩ := h
  obtain ⟨d, digits, rfl⟩ := List.exists_cons_of_ne_nil hne
  have hd : isDigitByte d = true := hall d (by simp)
  have hdigits : ∀ d ∈ digits, isDigitByte d := fun d hd => hall d (by simp [hd])
  have hspan := (span_digits hdigits hrest.head_not_digit).2
  have hplain : (if isDigitByte d then .ok ((digits ++ rest).dropWhile isDigitByte)
      else .error (.before .badNumber (digits ++ rest)) : Except Fault Bytes) = .ok rest := by
    rw [if_pos hd, hspan]
  cases sign with
  | some b => rcases hsign b rfl with rfl | rfl <;> exact hplain
  | none =>
      have hplus : d ≠ plus := ne_of_isDigitByte hd rfl
      have hminus : d ≠ minus := ne_of_isDigitByte hd rfl
      show skipExponent (d :: (digits ++ rest)) = _
      unfold skipExponent
      split
      · rename_i heq
        exact absurd (List.cons.inj heq).1 hplus
      · rename_i heq
        exact absurd (List.cons.inj heq).1 hminus
      · exact hplain

theorem skipOptionalExponent_bytes {rest : Bytes} (hrest : Delimited rest) :
    skipOptionalExponent (n.exponentBytes ++ rest) = .ok rest := by
  cases hform : n.exponent with
  | none =>
      have hbytes : n.exponentBytes = [] := by rw [exponentBytes, hform]
      rw [hbytes, List.nil_append]
      cases rest with
      | nil => rfl
      | cons b rest => simp [skipOptionalExponent, (hrest b rfl).2.2]
  | some x =>
      obtain ⟨letter, sign, digits⟩ := x
      obtain ⟨hletter, hsign, hdigits⟩ := n.exponent_form _ hform
      have hbytes : n.exponentBytes = letter :: (sign.toList ++ digits) := by
        rw [exponentBytes, hform]
      rw [hbytes, List.cons_append, skipOptionalExponent, if_pos hletter]
      exact skipExponent_digits hsign hdigits hrest

def skipAfterWhole (after : Bytes) : Except Fault Bytes :=
  match after with
  | [] => .ok []
  | c :: more =>
    if c == point then
      let tail := more.dropWhile isDigitByte
      if tail.length == more.length then .error (.upon .badNumber tail)
      else skipOptionalExponent tail
    else skipOptionalExponent after

theorem skipAfterWhole_tail {rest : Bytes} (hrest : Delimited rest) :
    skipAfterWhole (n.tail ++ rest) = .ok rest := by
  have hhead := n.exponentBytes_head hrest
  cases hfraction : n.fraction with
  | some digits =>
      have hdigits := n.fraction_digits _ hfraction
      have htail : n.tail = point :: (digits ++ n.exponentBytes) := by rw [tail, hfraction]
      have hspan := (span_digits hdigits.2 fun b hb => (hhead b hb).1).2
      have hlength : (n.exponentBytes ++ rest).length ≠
          (digits ++ (n.exponentBytes ++ rest)).length := by
        have hsome := List.length_pos_iff.mpr hdigits.1
        simp only [List.length_append]
        omega
      rw [htail, List.cons_append, skipAfterWhole, if_pos (beq_self_eq_true point),
        List.append_assoc]
      simp only [hspan, beq_iff_eq, hlength, if_false]
      exact n.skipOptionalExponent_bytes hrest
  | none =>
      have htail : n.tail = n.exponentBytes := by rw [tail, hfraction]
      have hskip := n.skipOptionalExponent_bytes hrest
      rw [htail]
      cases hafter : n.exponentBytes ++ rest with
      | nil =>
          rw [hafter] at hskip
          exact hskip
      | cons c more =>
          have hpoint := (hhead c (by rw [hafter]; rfl)).2
          rw [hafter] at hskip
          simpa [skipAfterWhole, hpoint] using hskip

theorem skipNumber_size {rest : Bytes} (hrest : Delimited rest) :
    skipNumber (n.size ++ rest) = .ok rest := by
  obtain ⟨b, digits, hwhole, hb, hdigits, hzero⟩ := n.whole_eq
  obtain ⟨-, hdrop⟩ := n.span_whole hdigits hzero hrest
  rw [← n.skipAfterWhole_tail hrest, size, hwhole, List.append_assoc, List.cons_append, skipNumber]
  simp only [hb, Bool.not_true, Bool.false_eq_true, if_false]
  rw [hdrop]
  cases hafter : n.tail ++ rest with
  | nil => rfl
  | cons c more =>
      have hc : isDigitByte c = false := n.tail_head hrest c (by rw [hafter]; rfl)
      simp only [hc, Bool.and_false, Bool.false_eq_true, if_false]
      rfl

end Numeral

end WalletBridge.Json
