import WalletBridge.Proofs.Json.Reading
import WalletBridge.Proofs.Json.Tokens

/-! # What a text is read as

What a reader makes of a text depends on its tokens alone: a reader `Sees` in the
tokens of a value a result, or that there is none, and leaves the tokens after
them. Each reader of values is given the results that it sees, from the tree of
the value.
-/

namespace WalletBridge.Json

open Text

/-! ## First bytes -/

/-- What may follow a value: a comma or a closing bracket, or nothing. -/
def Follows (more : List Bytes) : Prop :=
  ∀ token ∈ more.head?, token = [comma] ∨ token = [closeList] ∨ token = [closeObject]

theorem solid_of {b : UInt8} (h : isSpace b = false) (more : Bytes) : Solid (b :: more) :=
  ⟨b, more, rfl, h⟩

theorem Spread.word_skip {b : UInt8} {word bytes : Bytes} {more : List Bytes}
    (h : Spread ((b :: word) :: more) bytes) (hb : isSpace b = false) :
    ∃ rest, skipSpaces bytes = b :: (word ++ rest) ∧ Spread more rest :=
  h.cons_skipSpaces (solid_of hb word)

theorem Spread.delimited {more : List Bytes} {rest : Bytes} (h : Spread more rest)
    (hmore : Follows more) : Delimited rest := by
  have hblank : ∀ b, isSpace b = true →
      ¬ isDigitByte b ∧ b ≠ point ∧ ¬ isExponentByte b := by
    intro b hb
    simp only [isSpace, Bool.or_eq_true, beq_iff_eq] at hb
    rcases hb with ((rfl | rfl) | rfl) | rfl <;> decide
  intro b hb
  cases more with
  | nil => exact hblank b (h b (List.mem_of_mem_head? hb))
  | cons token more =>
      obtain ⟨blanks, rest, hblanks, rfl, -⟩ := h
      cases blanks with
      | cons c blanks =>
          cases hb
          exact hblank b (hblanks b (by simp))
      | nil =>
          rcases hmore token rfl with rfl | rfl | rfl <;> cases hb <;> decide

namespace Tree

def opening : Tree → UInt8
  | .null => beginsNull
  | .truth true => beginsTrue
  | .truth false => beginsFalse
  | .number n => if n.negative then minus else n.whole.headD 0x30
  | .text _ => quote
  | .list _ => openList
  | .object _ => openObject

theorem opening_number (n : Numeral) :
    (opening (.number n) = minus ∧ n.negative = true ∧ n.token = minus :: n.size) ∨
      (isDigitByte (opening (.number n)) = true ∧ n.negative = false ∧ n.token = n.size ∧
        ∃ more, n.size = opening (.number n) :: more) := by
  obtain ⟨b, digits, hwhole, hb, -⟩ := n.whole_eq
  cases hsign : n.negative with
  | true => exact .inl (by simp [opening, Numeral.token, hsign])
  | false => exact .inr (by simp [opening, Numeral.token, Numeral.size, hsign, hwhole, hb])

/-- The first byte tells what a value is, and belongs to nothing else. -/
theorem opening_ne {T : Tree} : isSpace T.opening = false ∧ T.opening ≠ closeList ∧
    T.opening ≠ closeObject ∧ T.opening ≠ comma := by
  have hfixed : ∀ b ∈ [beginsNull, beginsTrue, beginsFalse, quote, openList, openObject],
      isSpace b = false ∧ b ≠ closeList ∧ b ≠ closeObject ∧ b ≠ comma := by decide +kernel
  cases T with
  | truth b => cases b <;> decide
  | number n =>
      rcases opening_number n with ⟨h, -⟩ | ⟨h, -⟩
      · rw [h]
        decide
      · exact ⟨isSpace_of_isDigitByte h, ne_of_isDigitByte h rfl, ne_of_isDigitByte h rfl,
          ne_of_isDigitByte h rfl⟩
  | _ => exact hfixed _ (by simp [opening])

theorem opening_number_ne {n : Numeral} {b : UInt8} (hminus : b ≠ minus)
    (hdigit : isDigitByte b = false) : opening (.number n) ≠ b := by
  rintro rfl
  rcases opening_number n with ⟨h, -⟩ | ⟨h, -⟩
  · exact hminus h
  · rw [hdigit] at h
    cases h

theorem eq_null {T : Tree} (h : T.opening = beginsNull) : T = .null := by
  cases T with
  | null => rfl
  | number n => exact absurd h (opening_number_ne (by decide) rfl)
  | truth b => cases b <;> cases h
  | _ => cases h

theorem eq_true {T : Tree} (h : T.opening = beginsTrue) : T = .truth true := by
  cases T with
  | truth b =>
      cases b with
      | true => rfl
      | false => cases h
  | number n => exact absurd h (opening_number_ne (by decide) rfl)
  | _ => cases h

theorem eq_false {T : Tree} (h : T.opening = beginsFalse) : T = .truth false := by
  cases T with
  | truth b =>
      cases b with
      | true => cases h
      | false => rfl
  | number n => exact absurd h (opening_number_ne (by decide) rfl)
  | _ => cases h

theorem eq_text {T : Tree} (h : T.opening = quote) : ∃ s, T = .text s := by
  cases T with
  | text s => exact ⟨s, rfl⟩
  | number n => exact absurd h (opening_number_ne (by decide) rfl)
  | truth b => cases b <;> cases h
  | _ => cases h

theorem eq_list {T : Tree} (h : T.opening = openList) : ∃ items, T = .list items := by
  cases T with
  | list items => exact ⟨items, rfl⟩
  | number n => exact absurd h (opening_number_ne (by decide) rfl)
  | truth b => cases b <;> cases h
  | _ => cases h

theorem eq_object {T : Tree} (h : T.opening = openObject) : ∃ members, T = .object members := by
  cases T with
  | object members => exact ⟨members, rfl⟩
  | number n => exact absurd h (opening_number_ne (by decide) rfl)
  | truth b => cases b <;> cases h
  | _ => cases h

theorem eq_number {T : Tree} (h : T.opening = minus ∨ isDigitByte T.opening = true) :
    ∃ n, T = .number n := by
  cases T with
  | number n => exact ⟨n, rfl⟩
  | truth b => cases b <;> rcases h with h | h <;> cases h
  | _ => rcases h with h | h <;> cases h

theorem tokens_eq (T : Tree) : ∃ first more, T.tokens = (T.opening :: first) :: more := by
  cases T with
  | null => exact ⟨_, _, rfl⟩
  | truth b => cases b <;> exact ⟨_, _, rfl⟩
  | number n =>
      rcases opening_number n with ⟨hopening, -, htoken⟩ | ⟨-, -, htoken, more, hsize⟩
      · exact ⟨n.size, [], by rw [tokens, htoken, hopening]⟩
      · exact ⟨more, [], by rw [tokens, htoken, hsize]⟩
  | text s => exact ⟨_, _, rfl⟩
  | list items => exact ⟨_, _, rfl⟩
  | object members => exact ⟨_, _, rfl⟩

theorem skipSpaces_eq {T : Tree} {more : List Bytes} {bytes : Bytes}
    (h : Spread (T.tokens ++ more) bytes) : ∃ rest, skipSpaces bytes = T.opening :: rest := by
  obtain ⟨first, tokens, htokens⟩ := T.tokens_eq
  rw [htokens] at h
  obtain ⟨rest, hrest, -⟩ := Spread.cons_skipSpaces h (solid_of opening_ne.1 first)
  exact ⟨first ++ rest, hrest⟩

end Tree

/-- Blanks before a value may be passed over. -/
theorem Spread.unblanked {T : Tree} {more : List Bytes} {bytes : Bytes}
    (h : Spread (T.tokens ++ more) bytes) : Spread (T.tokens ++ more) (skipSpaces bytes) := by
  obtain ⟨first, tokens, htokens⟩ := T.tokens_eq
  rw [htokens] at h ⊢
  obtain ⟨rest, hskip, hrest⟩ := Spread.cons_skipSpaces h (solid_of Tree.opening_ne.1 first)
  rw [hskip]
  exact .of_append _ hrest

/-! ## Results -/

/-- The result is the one seen, if there is any, and leaves the further tokens. -/
def Gives (o : Option α) (more : List Bytes) (result : Except Fault (α × Bytes)) : Prop :=
  match o with
  | some a => ∃ rest, result = .ok (a, rest) ∧ Spread more rest
  | none => ∃ fault, result = .error fault

/-- The result that a reader finds in tokens, whatever blanks stand between them and whatever may
follow a value. -/
def Sees (read : Reader α) (tokens : List Bytes) (o : Option α) : Prop :=
  ∀ more bytes, Follows more → Spread (tokens ++ more) bytes → Gives o more (read bytes)

theorem gives_error {more : List Bytes} {fault : Fault} :
    Gives (none : Option α) more (.error fault) := ⟨fault, rfl⟩

@[elab_as_elim]
theorem Gives.elim {motive : Option α → Except Fault (α × Bytes) → Prop} {o : Option α}
    {more : List Bytes} {result : Except Fault (α × Bytes)} (h : Gives o more result)
    (error : ∀ fault, motive none (.error fault))
    (ok : ∀ a rest, Spread more rest → motive (some a) (.ok (a, rest))) : motive o result := by
  cases o with
  | none =>
      obtain ⟨fault, rfl⟩ := h
      exact error fault
  | some a =>
      obtain ⟨rest, rfl, hrest⟩ := h
      exact ok a rest hrest

theorem Gives.map {o : Option α} {more : List Bytes} {result : Except Fault (α × Bytes)}
    (h : Gives o more result) (f : α → β) :
    Gives (o.map f) more (result.map fun (a, rest) => (f a, rest)) :=
  h.elim (fun fault => ⟨fault, rfl⟩) fun _ rest hrest => ⟨rest, rfl, hrest⟩

/-- What is done with a result gives what it makes of the value seen, if one is. -/
theorem Gives.bind {o : Option α} {more left : List Bytes} {result : Except Fault (α × Bytes)}
    (h : Gives o more result) {f : α → Option β} {next : α × Bytes → Except Fault (β × Bytes)}
    (hnext : ∀ a rest, Spread more rest → Gives (f a) left (next (a, rest))) :
    Gives (o.bind f) left (result >>= next) :=
  h.elim (fun fault => ⟨fault, rfl⟩) hnext

theorem gives_of_toOption {o : Option α} {more : List Bytes} {rest : Bytes}
    {result : Except Fault (α × Bytes)} (h : result.toOption = o.map (·, rest))
    (hrest : Spread more rest) : Gives o more result := by
  cases result with
  | error fault =>
      cases o with
      | none => exact ⟨fault, rfl⟩
      | some a => cases h
  | ok pair =>
      cases o with
      | none => cases h
      | some a =>
          cases h
          exact ⟨rest, rfl, hrest⟩

/-- What a reader makes of a value without blanks. -/
def outcome (read : Reader α) (T : Tree) : Option α := (read T.plain).toOption.map (·.1)

theorem Sees.outcome_eq {read : Reader α} {T : Tree} {o : Option α} (h : Sees read T.tokens o) :
    outcome read T = o := by
  have hplain : Spread (T.tokens ++ []) T.plain := by
    rw [List.append_nil]
    exact .flatten T.tokens
  have hgives := h [] T.plain (by simp [Follows]) hplain
  cases o with
  | none =>
      obtain ⟨fault, hread⟩ := hgives
      rw [outcome, hread]
      rfl
  | some a =>
      obtain ⟨rest, hread, -⟩ := hgives
      rw [outcome, hread]
      rfl

/-- A reader of values sees something, if only that there is no result, in every value. -/
def Steady (read : Reader α) : Prop := ∀ T : Tree, ∃ o, Sees read T.tokens o

theorem Steady.sees {read : Reader α} (h : Steady read) (T : Tree) :
    Sees read T.tokens (outcome read T) := by
  obtain ⟨o, ho⟩ := h T
  rw [ho.outcome_eq]
  exact ho

/-! ## Texts, truth values and numbers -/

theorem Spread.text_skip {s : Spelling} {more : List Bytes} {bytes : Bytes}
    (h : Spread (s.token :: more) bytes) :
    ∃ rest, skipSpaces bytes = quote :: (s.inner ++ rest) ∧ Spread more rest :=
  h.word_skip rfl

theorem Spread.number_skip {n : Numeral} {more : List Bytes} {bytes : Bytes}
    (h : Spread (n.token :: more) bytes) : ∃ rest, Spread more rest ∧
      ((n.negative = true ∧ skipSpaces bytes = minus :: (n.size ++ rest)) ∨
        (n.negative = false ∧ ∃ b left, isDigitByte b = true ∧ skipSpaces bytes = b :: left ∧
          b :: left = n.size ++ rest)) := by
  rcases Tree.opening_number n with ⟨-, hsign, htoken⟩ | ⟨hdigit, hsign, htoken, left, hsize⟩
  · rw [htoken] at h
    obtain ⟨rest, hskip, hrest⟩ := h.cons_skipSpaces (solid_of rfl n.size)
    exact ⟨rest, hrest, .inl ⟨hsign, hskip⟩⟩
  · rw [htoken, hsize] at h
    obtain ⟨rest, hskip, hrest⟩ := h.cons_skipSpaces (solid_of (isSpace_of_isDigitByte hdigit) left)
    exact ⟨rest, hrest, .inr ⟨hsign, _, left ++ rest, hdigit, hskip, by rw [hsize]; rfl⟩⟩

namespace Tree

def text? : Tree → Option String
  | .text s => s.value?
  | _ => none

def truth? : Tree → Option Bool
  | .truth b => some b
  | _ => none

def number? : Tree → Option Num
  | .number n => n.value?
  | _ => none

end Tree

theorem readTextValue_sees (expected : String) (T : Tree) :
    Sees (Codec.readTextValue expected) T.tokens T.text? := by
  intro more bytes hmore h
  unfold Codec.readTextValue
  cases T with
  | text s =>
      obtain ⟨rest, hskip, hrest⟩ := Spread.text_skip h
      rw [hskip]
      exact gives_of_toOption (readText_inner s rest) hrest
  | _ =>
      obtain ⟨rest, hskip⟩ := Tree.skipSpaces_eq h
      rw [hskip]
      split
      · exact gives_error
      · rename_i heq
        obtain ⟨s, hs⟩ := Tree.eq_text (List.cons.inj heq).1
        cases hs
      · exact gives_error

theorem truth_sees (depth : Nat) (T : Tree) : Sees (Codec.truth.read depth) T.tokens T.truth? := by
  intro more bytes hmore h
  simp only [Codec.truth]
  cases T with
  | truth b =>
      cases b with
      | true =>
          obtain ⟨rest, hskip, hrest⟩ := Spread.word_skip h rfl
          refine ⟨rest, ?_, hrest⟩
          rw [hskip]
          show (readTrue ([0x72, 0x75, 0x65] ++ rest)).map _ = _
          rw [readTrue_append]
          rfl
      | false =>
          obtain ⟨rest, hskip, hrest⟩ := Spread.word_skip h rfl
          refine ⟨rest, ?_, hrest⟩
          rw [hskip]
          show (readFalse ([0x61, 0x6C, 0x73, 0x65] ++ rest)).map _ = _
          rw [readFalse_append]
          rfl
  | _ =>
      obtain ⟨rest, hskip⟩ := Tree.skipSpaces_eq h
      rw [hskip]
      split
      · exact gives_error
      · rename_i heq
        cases Tree.eq_true (List.cons.inj heq).1
      · rename_i heq
        cases Tree.eq_false (List.cons.inj heq).1
      · exact gives_error

theorem gives_checked (range : Range) {o : Option Num} {more : List Bytes}
    {result : Except Fault (Num × Bytes)} (h : Gives o more result) :
    Gives (o.bind fun n => (range.check n).toOption) more (do
      let (n, rest) ← result
      match range.check n with
      | .ok n => return (n, rest)
      | .error cause => .error (.before cause rest)) := by
  apply h.bind
  intro n rest hrest
  cases hcheck : range.check n with
  | error cause => exact ⟨.before cause rest, by simp [hcheck]⟩
  | ok m => exact ⟨rest, by simp [hcheck, pure, Except.pure], hrest⟩

theorem whole_sees (range : Range) (depth : Nat) (T : Tree) :
    Sees ((Codec.whole range).read depth) T.tokens
      (T.number?.bind fun n => (range.check n).toOption) := by
  intro more bytes hmore h
  simp only [Codec.whole]
  cases T with
  | number n =>
      obtain ⟨rest, hrest, ⟨hsign, hskip⟩ | ⟨hsign, b, left, hdigit, hskip, hleft⟩⟩ :=
        Spread.number_skip h
      · have hread := n.readNumber_size (hrest.delimited hmore)
        rw [hsign] at hread
        rw [hskip]
        exact gives_checked range (gives_of_toOption hread hrest)
      · have hread := n.readNumber_size (hrest.delimited hmore)
        rw [hsign, ← hleft] at hread
        have hgives := gives_checked range (gives_of_toOption hread hrest)
        rw [hskip]
        split
        · contradiction
        · rename_i heq
          obtain ⟨rfl, -⟩ := List.cons.inj heq
          cases hdigit
        · rename_i heq
          obtain ⟨rfl, rfl⟩ := List.cons.inj heq
          rw [if_pos hdigit]
          exact hgives
  | _ =>
      obtain ⟨rest, hskip⟩ := Tree.skipSpaces_eq h
      rw [hskip]
      split
      · exact gives_error
      · rename_i heq
        obtain ⟨n, hn⟩ := Tree.eq_number (.inl (List.cons.inj heq).1)
        cases hn
      · rename_i heq
        obtain ⟨hb, -⟩ := List.cons.inj heq
        split
        · rename_i hdigit
          rw [← hb] at hdigit
          obtain ⟨n, hn⟩ := Tree.eq_number (.inr hdigit)
          cases hn
        · exact gives_error

end WalletBridge.Json
