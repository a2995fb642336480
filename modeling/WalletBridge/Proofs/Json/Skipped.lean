import WalletBridge.Proofs.Json.Contents
import WalletBridge.Proofs.Json.Given

/-! # Every value can be passed over

A value that no reader wants is passed over without being read: it may nest at
any depth, its texts may stand for no characters, and its numbers may be too
great. The pass keeps the kinds of the containers around a place; it goes on in
the same way whatever value it has just passed over.
-/

namespace WalletBridge.Json

open Text

def skipOn (fuel : Nat) (closing : Bool) (around : Enclosing) (bytes : Bytes) :
    Except Fault Bytes :=
  match skipEnds closing around bytes with
  | .error fault => .error fault
  | .ok ([], rest) => .ok rest
  | .ok (around, rest) => skipValues fuel around rest

theorem skipOn_of_eq {fuel : Nat} {closing closing' : Bool} {around around' : Enclosing}
    {bytes rest : Bytes} (h : skipEnds closing around bytes = skipEnds closing' around' rest) :
    skipOn fuel closing around bytes = skipOn fuel closing' around' rest := by
  rw [skipOn, h, skipOn]

theorem skipOn_of_ok {fuel : Nat} {closing inObject : Bool} {around : Enclosing}
    {bytes rest : Bytes} (h : skipEnds closing (inObject :: around) bytes =
      .ok (inObject :: around, rest)) :
    skipOn fuel closing (inObject :: around) bytes = skipValues fuel (inObject :: around) rest := by
  rw [skipOn, h]

theorem length_lt_of_skipSpaces {bytes rest : Bytes} {b : UInt8}
    (h : skipSpaces bytes = b :: rest) : rest.length < bytes.length := by
  have hlength : (skipSpaces bytes).length ≤ bytes.length :=
    (List.dropWhile_suffix isSpace).length_le
  rw [h, List.length_cons] at hlength
  omega

/-! ## The ends of containers -/

section
variable {first : Bool} {T : Tree} {more : List Bytes} {bytes : Bytes}

theorem skipEnds_closeList (h : Spread (itemsFrom first [] ++ more) bytes) :
    ∃ rest, Spread more rest ∧ rest.length ≤ bytes.length ∧ ∀ around,
      skipEnds (!first) (false :: around) bytes = skipEnds true around rest := by
  obtain ⟨rest, hskip, hrest⟩ := close_skipSpaces h
  have hlength := length_lt_of_skipSpaces hskip
  refine ⟨rest, hrest, by omega, fun around => ?_⟩
  rw [skipEnds, hskip]
  cases first <;> rfl

theorem skipEnds_item {items : List Tree}
    (h : Spread (itemsFrom first (T :: items) ++ more) bytes) :
    ∃ rest, Spread (T.tokens ++ (itemsFrom false items ++ more)) rest ∧
      rest.length ≤ bytes.length ∧ ∀ around,
      skipEnds (!first) (false :: around) bytes = .ok (false :: around, rest) := by
  cases first with
  | true =>
      have hvalue : Spread (T.tokens ++ (itemsFrom false items ++ more)) bytes := by
        simpa [itemsFrom, Tree.itemTokens] using h
      obtain ⟨rest, hskip⟩ := Tree.skipSpaces_eq hvalue
      have hlength := length_lt_of_skipSpaces hskip
      have hunblanked := hvalue.unblanked
      rw [hskip] at hunblanked
      refine ⟨T.opening :: rest, hunblanked, hlength, fun around => ?_⟩
      rw [skipEnds, hskip]
      simp [T.opening_ne.2.1]
  | false =>
      have hcomma : Spread ([comma] :: (T.tokens ++ (itemsFrom false items ++ more))) bytes := by
        simpa [itemsFrom, Tree.moreItems] using h
      obtain ⟨rest, hskip, hrest⟩ := hcomma.byte rfl
      have hlength := length_lt_of_skipSpaces hskip
      refine ⟨rest, hrest, by omega, fun around => ?_⟩
      rw [skipEnds, hskip]
      rfl

theorem skipEnds_closeObject (h : Spread (membersFrom first [] ++ more) bytes) :
    ∃ rest, Spread more rest ∧ rest.length ≤ bytes.length ∧ ∀ around,
      skipEnds (!first) (true :: around) bytes = skipEnds true around rest := by
  obtain ⟨rest, hskip, hrest⟩ := closeObject_skipSpaces h
  have hlength := length_lt_of_skipSpaces hskip
  refine ⟨rest, hrest, by omega, fun around => ?_⟩
  rw [skipEnds, hskip]
  cases first <;> rfl

/-- A name and its colon are passed over even when the name stands for no characters. -/
theorem skipKey_name {name : Spelling}
    (h : Spread (name.token :: [colon] :: (T.tokens ++ more)) bytes) :
    ∃ rest, skipKey bytes = .ok rest ∧ Spread (T.tokens ++ more) rest ∧
      rest.length ≤ bytes.length := by
  obtain ⟨after, hskip, hafter⟩ := h.text_skip
  obtain ⟨rest, hbyte, hrest⟩ := hafter.byte rfl
  have hlong := length_lt_of_skipSpaces hskip
  have hshort := length_lt_of_skipSpaces hbyte
  refine ⟨rest, ?_, hrest, ?_⟩
  · rw [skipKey, hskip]
    show (skipText (name.inner ++ after)).bind readColon = _
    rw [skipText_inner]
    show readColon after = _
    rw [readColon, hbyte]
    rfl
  · simp only [List.length_append] at hlong
    omega

theorem skipEnds_member {name : Spelling} {members : List (Spelling × Tree)}
    (h : Spread (membersFrom first ((name, T) :: members) ++ more) bytes) :
    ∃ rest, Spread (T.tokens ++ (membersFrom false members ++ more)) rest ∧
      rest.length ≤ bytes.length ∧ ∀ around,
      skipEnds (!first) (true :: around) bytes = .ok (true :: around, rest) := by
  cases first with
  | true =>
      have hname : Spread
          (name.token :: [colon] :: (T.tokens ++ (membersFrom false members ++ more))) bytes := by
        simpa [membersFrom, Tree.memberTokens] using h
      obtain ⟨after, hskip, hafter⟩ := hname.text_skip
      have hunblanked : Spread
          (name.token :: [colon] :: (T.tokens ++ (membersFrom false members ++ more)))
          (quote :: (name.inner ++ after)) := .of_append name.token hafter
      have hlength := length_lt_of_skipSpaces hskip
      obtain ⟨rest, hkey, hrest, hshort⟩ := skipKey_name hunblanked
      refine ⟨rest, hrest, ?_, fun around => ?_⟩
      · rw [List.length_cons] at hshort
        omega
      · rw [skipEnds, hskip]
        show (skipKey (quote :: (name.inner ++ after))).map _ = _
        rw [hkey]
        rfl
  | false =>
      have hcomma : Spread ([comma] :: name.token :: [colon] ::
          (T.tokens ++ (membersFrom false members ++ more))) bytes := by
        simpa [membersFrom, Tree.moreMembers] using h
      obtain ⟨after, hskip, hafter⟩ := hcomma.byte rfl
      have hlength := length_lt_of_skipSpaces hskip
      obtain ⟨rest, hkey, hrest, hshort⟩ := skipKey_name hafter
      refine ⟨rest, hrest, by omega, fun around => ?_⟩
      rw [skipEnds, hskip]
      show (skipKey after).map _ = _
      rw [hkey]
      rfl

end

/-! ## Values -/

/-- The value is passed over in some rounds, of which each takes a byte at least. -/
def Tree.Skips (T : Tree) : Prop :=
  ∀ more bytes, Follows more → Spread (T.tokens ++ more) bytes →
    ∃ rounds rest, rounds + rest.length ≤ bytes.length ∧ Spread more rest ∧
      ∀ fuel around, skipValues (fuel + rounds) around bytes = skipOn fuel true around rest

section
variable {T : Tree} {more : List Bytes} {bytes : Bytes}

theorem skips_of_first
    (h : ∀ more bytes, Follows more → Spread (T.tokens ++ more) bytes →
      ∃ b word rest, skipSpaces bytes = b :: (word ++ rest) ∧
        skipFirst bytes = .ok (none, rest) ∧ Spread more rest) : T.Skips := by
  intro more bytes hmore hbytes
  obtain ⟨b, word, rest, hskip, hfirst, hrest⟩ := h more bytes hmore hbytes
  have hlength := length_lt_of_skipSpaces hskip
  rw [List.length_append] at hlength
  refine ⟨1, rest, by omega, hrest, fun fuel around => ?_⟩
  rw [skipValues, hfirst]
  rfl

theorem null_skips : Tree.null.Skips := by
  refine skips_of_first fun more bytes _ h => ?_
  obtain ⟨rest, hskip, hrest⟩ := Spread.word_skip h rfl
  refine ⟨beginsNull, [0x75, 0x6C, 0x6C], rest, hskip, ?_, hrest⟩
  rw [skipFirst, hskip]
  show (readNull ([0x75, 0x6C, 0x6C] ++ rest)).map _ = _
  rw [readNull_append]
  rfl

theorem truth_skips (b : Bool) : (Tree.truth b).Skips := by
  refine skips_of_first fun more bytes _ h => ?_
  cases b with
  | true =>
      obtain ⟨rest, hskip, hrest⟩ := Spread.word_skip h rfl
      refine ⟨beginsTrue, [0x72, 0x75, 0x65], rest, hskip, ?_, hrest⟩
      rw [skipFirst, hskip]
      show (readTrue ([0x72, 0x75, 0x65] ++ rest)).map _ = _
      rw [readTrue_append]
      rfl
  | false =>
      obtain ⟨rest, hskip, hrest⟩ := Spread.word_skip h rfl
      refine ⟨beginsFalse, [0x61, 0x6C, 0x73, 0x65], rest, hskip, ?_, hrest⟩
      rw [skipFirst, hskip]
      show (readFalse ([0x61, 0x6C, 0x73, 0x65] ++ rest)).map _ = _
      rw [readFalse_append]
      rfl

theorem text_skips (s : Spelling) : (Tree.text s).Skips := by
  refine skips_of_first fun more bytes _ h => ?_
  obtain ⟨rest, hskip, hrest⟩ := Spread.text_skip h
  refine ⟨quote, s.inner, rest, hskip, ?_, hrest⟩
  rw [skipFirst, hskip]
  show (skipText (s.inner ++ rest)).map _ = _
  rw [skipText_inner]
  rfl

theorem number_skips (n : Numeral) : (Tree.number n).Skips := by
  refine skips_of_first fun more bytes hmore h => ?_
  obtain ⟨rest, hrest, hsign⟩ := Spread.number_skip h
  have hskipped := n.skipNumber_size (hrest.delimited hmore)
  rcases hsign with ⟨-, hskip⟩ | ⟨-, b, left, hdigit, hskip, hleft⟩
  · refine ⟨minus, n.size, rest, hskip, ?_, hrest⟩
    rw [skipFirst_minus hskip, hskipped]
    rfl
  · obtain ⟨c, digits, hwhole, -⟩ := n.whole_eq
    have hbytes : b :: left = c :: (digits ++ n.tail ++ rest) := by
      rw [hleft, Numeral.size, hwhole]
      simp
    refine ⟨c, digits ++ n.tail, rest, hskip.trans hbytes, ?_, hrest⟩
    rw [skipFirst_digit hskip hdigit, hleft, hskipped]
    rfl

/-- The parts of a container are passed over one after the other, when the pass goes from each to
the next and leaves the container at its end. -/
theorem contents_skip (inObject : Bool) (value : β → Tree)
    (tokensFrom : Bool → List β → List Bytes)
    (hfollows : ∀ parts more, Follows (tokensFrom false parts ++ more))
    (hclose : ∀ first more bytes, Spread (tokensFrom first [] ++ more) bytes →
      ∃ rest, Spread more rest ∧ rest.length ≤ bytes.length ∧ ∀ around,
        skipEnds (!first) (inObject :: around) bytes = skipEnds true around rest)
    (hnext : ∀ first part parts more bytes,
      Spread (tokensFrom first (part :: parts) ++ more) bytes →
        ∃ rest, Spread ((value part).tokens ++ (tokensFrom false parts ++ more)) rest ∧
          rest.length ≤ bytes.length ∧ ∀ around,
          skipEnds (!first) (inObject :: around) bytes = .ok (inObject :: around, rest))
    {parts : List β} (h : ∀ part ∈ parts, (value part).Skips) (first : Bool)
    (hbytes : Spread (tokensFrom first parts ++ more) bytes) :
    ∃ rounds rest, rounds + rest.length ≤ bytes.length ∧ Spread more rest ∧ ∀ fuel around,
      skipOn (fuel + rounds) (!first) (inObject :: around) bytes =
        skipOn fuel true around rest := by
  induction parts generalizing first bytes with
  | nil =>
      obtain ⟨rest, hrest, hlength, hends⟩ := hclose first more bytes hbytes
      exact ⟨0, rest, by omega, hrest, fun fuel around => skipOn_of_eq (hends around)⟩
  | cons part parts ih =>
      obtain ⟨bare, hvalue, hlength, hends⟩ := hnext first part parts more bytes hbytes
      obtain ⟨rounds, after, hrounds, hafter, hskip⟩ :=
        h part (by simp) _ bare (hfollows parts more) hvalue
      obtain ⟨further, rest, hfurther, hrest, hskips⟩ :=
        ih (fun part hpart => h part (by simp [hpart])) false hafter
      refine ⟨further + rounds, rest, by omega, hrest, fun fuel around => ?_⟩
      rw [skipOn_of_ok (hends around), ← Nat.add_assoc, hskip]
      exact hskips fuel around

/-- The opening of a container takes one round, and its contents the further ones. -/
theorem skips_of_contents {inObject : Bool} {b : UInt8} {contents : List Bytes}
    (htokens : T.tokens = [b] :: contents) (hb : isSpace b = false)
    (hopens : ∀ bytes rest, skipSpaces bytes = b :: rest →
      skipFirst bytes = .ok (some inObject, rest))
    (h : ∀ more bytes, Spread (contents ++ more) bytes →
      ∃ rounds rest, rounds + rest.length ≤ bytes.length ∧ Spread more rest ∧ ∀ fuel around,
        skipOn (fuel + rounds) false (inObject :: around) bytes = skipOn fuel true around rest) :
    T.Skips := by
  intro more bytes _ hbytes
  rw [htokens] at hbytes
  obtain ⟨inner, hskip, hinner⟩ := Spread.byte hbytes hb
  obtain ⟨rounds, rest, hrounds, hrest, hskips⟩ := h more inner hinner
  have hlength := length_lt_of_skipSpaces hskip
  refine ⟨rounds + 1, rest, by omega, hrest, fun fuel around => ?_⟩
  rw [← Nat.add_assoc, skipValues, hopens bytes inner hskip]
  exact hskips fuel around

theorem Tree.skips (T : Tree) : T.Skips := by
  induction T using Tree.induction with
  | null => exact null_skips
  | truth b => exact truth_skips b
  | number n => exact number_skips n
  | text s => exact text_skips s
  | list items h =>
      exact skips_of_contents rfl rfl (fun bytes rest hskip => by rw [skipFirst, hskip]; rfl)
        fun _ _ hbytes => contents_skip false id itemsFrom follows_itemsFrom
          (fun _ _ _ => skipEnds_closeList) (fun _ _ _ _ _ => skipEnds_item) h true hbytes
  | object members h =>
      exact skips_of_contents rfl rfl (fun bytes rest hskip => by rw [skipFirst, hskip]; rfl)
        fun _ _ hbytes => contents_skip true Prod.snd membersFrom follows_membersFrom
          (fun _ _ _ => skipEnds_closeObject) (fun _ _ _ _ _ => skipEnds_member) h true hbytes

end

theorem skipValue_tree {T : Tree} {more : List Bytes} {bytes : Bytes} (hmore : Follows more)
    (h : Spread (T.tokens ++ more) bytes) :
    ∃ rest, skipValue bytes = .ok rest ∧ Spread more rest := by
  obtain ⟨rounds, rest, hrounds, hrest, hskip⟩ := T.skips more bytes hmore h
  obtain ⟨fuel, hfuel⟩ : ∃ fuel, bytes.length + 1 = fuel + rounds :=
    ⟨bytes.length + 1 - rounds, by omega⟩
  refine ⟨rest, ?_, hrest⟩
  rw [skipValue, hfuel, hskip]
  rfl

end WalletBridge.Json
