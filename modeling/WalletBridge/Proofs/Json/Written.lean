import WalletBridge.Json.Codec
import WalletBridge.Proofs.Json.Scalars

/-! # Written values are read back

A reader takes the bytes of a written value and leaves those that follow. The
statement is first made for the items of a list and the members of an object,
with any reader for the parts, and then, by the depth of nesting, for all values.
-/

namespace WalletBridge.Json

open Text

/-- The first byte of a written value, seen where a value or an end may stand. -/
def Starts (bytes : Bytes) : Prop :=
  ∃ b rest, bytes = b :: rest ∧ isSpace b = false ∧ b ≠ closeList

theorem Starts.append {bytes : Bytes} (h : Starts bytes) (rest : Bytes) :
    Starts (bytes ++ rest) := by
  obtain ⟨b, more, rfl, hspace, hclose⟩ := h
  exact ⟨b, more ++ rest, rfl, hspace, hclose⟩

theorem skipSpaces_cons {b : UInt8} {rest : Bytes} (h : isSpace b = false) :
    skipSpaces (b :: rest) = b :: rest := by
  simp [skipSpaces, h]

theorem Starts.skipSpaces {bytes : Bytes} (h : Starts bytes) : skipSpaces bytes = bytes := by
  obtain ⟨b, rest, rfl, hspace, -⟩ := h
  exact skipSpaces_cons hspace

/-- The values that are read back from what is written: their whole numbers have 64 bits, and no
container opens too deep. -/
def Fits : Nat → Json → Prop
  | 0, _ => False
  | _ + 1, .number (.whole n) => -2 ^ 63 ≤ n ∧ n ≤ 2 ^ 64 - 1
  | _ + 1, .number (.real _) => False
  | depth + 1, .list items => depth ≠ 0 ∧ ∀ v ∈ items, Fits depth v
  | depth + 1, .object members => depth ≠ 0 ∧ ∀ m ∈ members, Fits depth m.2
  | _ + 1, _ => True

def bytesOf (v : Json) : Bytes := spell v.compactChars

/-! ## Lists -/

def tailItems : List Json → List Char
  | [] => [']']
  | v :: items => ',' :: Json.itemChars (v :: items)

theorem itemChars_cons (v : Json) (items : List Json) :
    Json.itemChars (v :: items) = v.compactChars ++ tailItems items := by
  cases items with
  | nil => rfl
  | cons w items => rfl

def tailMembers : List (String × Json) → List Char
  | [] => ['\x7d']
  | m :: members => ',' :: Json.memberChars (m :: members)

theorem memberChars_cons (name : String) (v : Json) (members : List (String × Json)) :
    Json.memberChars ((name, v) :: members) =
      Json.textChars name ++ ':' :: (v.compactChars ++ tailMembers members) := by
  cases members with
  | nil => rfl
  | cons m members => rfl

/-- A reader gives a written value back, whatever follows that does not go on with it. -/
def Reads (read : Reader α) (v : Json) (a : α) : Prop :=
  Starts (bytesOf v) ∧ ∀ rest, Delimited rest → read (bytesOf v ++ rest) = .ok (a, rest)

theorem delimited_cons {b : UInt8} {rest : Bytes} (h : isDigitByte b = false) (hpoint : b ≠ point)
    (hexponent : isExponentByte b = false) : Delimited (b :: rest) := by
  intro c hc
  obtain rfl : b = c := Option.some.inj hc
  simp [h, hpoint, hexponent]

theorem delimited_tailItems (items : List Json) (rest : Bytes) :
    Delimited (spell (tailItems items) ++ rest) := by
  cases items with
  | nil => exact delimited_cons (b := closeList) rfl (by decide) rfl
  | cons v items => exact delimited_cons (b := comma) rfl (by decide) rfl

theorem delimited_tailMembers (members : List (String × Json)) (rest : Bytes) :
    Delimited (spell (tailMembers members) ++ rest) := by
  cases members with
  | nil => exact delimited_cons (b := closeObject) rfl (by decide) rfl
  | cons m members => exact delimited_cons (b := comma) rfl (by decide) rfl

section
variable {bytes after rest : Bytes} {b : UInt8}

/-- Where an item may stand, the first one goes without a comma. -/
theorem nextItem_first (h : skipSpaces bytes = b :: rest) (hclose : b ≠ closeList) :
    nextItem true bytes = .ok (some (b :: rest)) := by
  unfold nextItem
  rw [h]
  split
  · contradiction
  · rename_i heq
    exact absurd (List.cons.inj heq).1 hclose
  · simp_all

theorem nextItem_later (hcomma : skipSpaces bytes = comma :: after)
    (h : skipSpaces after = b :: rest) (hclose : b ≠ closeList) :
    nextItem false bytes = .ok (some (b :: rest)) := by
  unfold nextItem
  rw [hcomma]
  split
  · contradiction
  · rename_i heq
    exact absurd (List.cons.inj heq).1 (by decide)
  · rename_i heq
    obtain ⟨rfl, rfl⟩ := List.cons.inj heq
    simp only [Bool.false_eq_true, if_false, beq_self_eq_true, if_true, h]
    split
    · contradiction
    · rename_i heq
      exact absurd (List.cons.inj heq).1 hclose
    · rfl

theorem nextKey_first (h : skipSpaces bytes = quote :: rest) :
    nextKey true bytes = (readText rest).map some := by
  rw [nextKey, h]
  rfl

theorem nextKey_later (hcomma : skipSpaces bytes = comma :: after)
    (h : skipSpaces after = quote :: rest) : nextKey false bytes = (readText rest).map some := by
  unfold nextKey
  rw [hcomma]
  split
  · contradiction
  · rename_i heq
    exact absurd (List.cons.inj heq).1 (by decide)
  · rename_i heq
    obtain ⟨rfl, rfl⟩ := List.cons.inj heq
    simp only [Bool.false_eq_true, if_false, beq_self_eq_true, if_true, h]
    rfl

end

theorem nextItem_written {bytes : Bytes} (h : Starts bytes) :
    nextItem true bytes = .ok (some bytes) ∧
      nextItem false (comma :: bytes) = .ok (some bytes) := by
  have hskip := h.skipSpaces
  obtain ⟨b, rest, rfl, hspace, hclose⟩ := h
  exact ⟨nextItem_first hskip hclose, nextItem_later (skipSpaces_cons rfl) hskip hclose⟩

theorem readItems_close (item : Reader α) (fuel : Nat) (read : List α) (rest : Bytes) :
    readItems item (fuel + 1) read (closeList :: rest) = .ok (read.reverse, closeList :: rest) :=
  rfl

theorem readItems_tail {item : Reader α} {items : List (Json × α)}
    (hitem : ∀ p ∈ items, Reads item p.1 p.2) {fuel : Nat} (hfuel : items.length < fuel)
    {read : List α} (hread : read ≠ []) (rest : Bytes) :
    readItems item fuel read (spell (tailItems (items.map (·.1))) ++ rest) =
      .ok (read.reverse ++ items.map (·.2), closeList :: rest) := by
  induction items generalizing fuel read with
  | nil =>
      obtain ⟨fuel, rfl⟩ := Nat.exists_eq_succ_of_ne_zero (Nat.ne_of_gt hfuel)
      rw [List.map_nil, List.map_nil, List.append_nil]
      exact readItems_close item fuel read rest
  | cons p items ih =>
      obtain ⟨fuel, rfl⟩ := Nat.exists_eq_succ_of_ne_zero (Nat.ne_of_gt (Nat.zero_lt_of_lt hfuel))
      obtain ⟨hstarts, hreads⟩ := hitem p (by simp)
      have hbytes : spell (tailItems ((p :: items).map (·.1))) ++ rest =
          comma :: (bytesOf p.1 ++ (spell (tailItems (items.map (·.1))) ++ rest)) := by
        rw [List.map_cons, tailItems, itemChars_cons, spell_cons, spell_append]
        simp [bytesOf]
        rfl
      have hfirst : read.isEmpty = false := by simpa using hread
      rw [hbytes, readItems, hfirst, (nextItem_written (hstarts.append _)).2]
      simp only
      rw [hreads _ (delimited_tailItems _ _)]
      simp only
      rw [ih (fun q hq => hitem q (by simp [hq])) (by simpa using hfuel) (by simp)]
      simp

theorem readItems_written {item : Reader α} {items : List (Json × α)}
    (hitem : ∀ p ∈ items, Reads item p.1 p.2) {fuel : Nat} (hfuel : items.length < fuel)
    (rest : Bytes) :
    readItems item fuel [] (spell (Json.itemChars (items.map (·.1))) ++ rest) =
      .ok (items.map (·.2), closeList :: rest) := by
  obtain ⟨fuel, rfl⟩ := Nat.exists_eq_succ_of_ne_zero (Nat.ne_of_gt (Nat.zero_lt_of_lt hfuel))
  cases items with
  | nil => exact readItems_close item fuel [] rest
  | cons p items =>
      obtain ⟨hstarts, hreads⟩ := hitem p (by simp)
      rw [List.map_cons, itemChars_cons, spell_append, List.append_assoc, readItems]
      rw [← bytesOf, List.isEmpty_nil, (nextItem_written (hstarts.append _)).1]
      simp only
      rw [hreads _ (delimited_tailItems _ _)]
      simp only
      rw [readItems_tail (fun q hq => hitem q (by simp [hq])) (by simpa using hfuel) (by simp)]
      simp

theorem length_le_itemChars {item : Reader α} {items : List (Json × α)}
    (hitem : ∀ p ∈ items, Reads item p.1 p.2) :
    items.length ≤ (spell (Json.itemChars (items.map (·.1)))).length := by
  induction items with
  | nil => simp
  | cons p items ih =>
      obtain ⟨⟨b, more, hb, -⟩, -⟩ := hitem p (by simp)
      have hrest := ih fun q hq => hitem q (by simp [hq])
      have htail : (spell (Json.itemChars (items.map (·.1)))).length ≤
          (spell (tailItems (items.map (·.1)))).length := by
        cases items with
        | nil => exact Nat.le_refl _
        | cons q items => simp [tailItems]
      rw [List.map_cons, itemChars_cons, spell_append, ← bytesOf, hb]
      simp only [List.length_cons, List.length_append]
      omega

theorem readList_written {item : Reader α} {items : List (Json × α)}
    (hitem : ∀ p ∈ items, Reads item p.1 p.2) (rest : Bytes) :
    readList item (spell (Json.itemChars (items.map (·.1))) ++ rest) =
      .ok (items.map (·.2), rest) := by
  have hlength := length_le_itemChars hitem
  have hfuel : items.length < (spell (Json.itemChars (items.map (·.1))) ++ rest).length + 1 := by
    rw [List.length_append]
    omega
  rw [readList, readItems_written hitem hfuel]
  rfl

/-! ## Members -/

theorem readColon_written (rest : Bytes) : readColon (colon :: rest) = .ok rest := rfl

/-- Where a member may stand, the first one goes without a comma. -/
theorem nextKey_written (name : String) (rest : Bytes) :
    nextKey true (spell (Json.textChars name) ++ rest) = .ok (some (name, rest)) ∧
      nextKey false (comma :: (spell (Json.textChars name) ++ rest)) = .ok (some (name, rest)) := by
  have hbytes : spell (Json.textChars name) ++ rest =
      quote :: (spell (name.toList.flatMap Json.textChar ++ ['"']) ++ rest) := rfl
  have hread := readText_written name rest
  rw [hbytes]
  constructor
  · show (readText _).map some = _
    rw [hread]
    rfl
  · show (readText _).map some = _
    rw [hread]
    rfl

section
variable {check : String → β → Option Cause} {visit : String → β → Reader β}

theorem readMembers_close (fuel : Nat) (first : Bool) (built : β) (rest : Bytes) :
    readMembers check visit (fuel + 1) first built (closeObject :: rest) =
      .ok (built, closeObject :: rest) := rfl

theorem readMembers_round {name : String} {built built' : β} {bytes rest : Bytes} (fuel : Nat)
    (hcheck : check name built = none) (hvisit : visit name built bytes = .ok (built', rest)) :
    readMembers check visit (fuel + 1) true built (spell (Json.textChars name) ++ colon :: bytes) =
        readMembers check visit fuel false built' rest ∧
      readMembers check visit (fuel + 1) false built
          (comma :: (spell (Json.textChars name) ++ colon :: bytes)) =
        readMembers check visit fuel false built' rest := by
  obtain ⟨hfirst, hlater⟩ := nextKey_written name (colon :: bytes)
  constructor
  · rw [readMembers, hfirst]
    simp only [hcheck, readColon_written, hvisit]
  · rw [readMembers, hlater]
    simp only [hcheck, readColon_written, hvisit]

/-- The members are let in one after another, and their written values lead from what was built
before the first to what is built after the last. -/
inductive Visited (check : String → β → Option Cause) (visit : String → β → Reader β) :
    β → List (String × Json) → β → Prop where
  | nil (built : β) : Visited check visit built [] built
  | cons {built next last : β} {m : String × Json} {members : List (String × Json)}
      (hcheck : check m.1 built = none) (hreads : Reads (visit m.1 built) m.2 next)
      (hmembers : Visited check visit next members last) :
      Visited check visit built (m :: members) last

/-- The member is let in, and its written value leads from what was built to what `step` says. -/
def Visits (check : String → β → Option Cause) (visit : String → β → Reader β)
    (step : β → String × Json → β) (m : String × Json) : Prop :=
  ∀ built, check m.1 built = none ∧ Reads (visit m.1 built) m.2 (step built m)

theorem visited_of_visits {step : β → String × Json → β} {members : List (String × Json)}
    (h : ∀ m ∈ members, Visits check visit step m) (built : β) :
    Visited check visit built members (members.foldl step built) := by
  induction members generalizing built with
  | nil => exact .nil built
  | cons m members ih =>
      obtain ⟨hcheck, hreads⟩ := h m (by simp) built
      exact .cons hcheck hreads (ih (fun n hn => h n (by simp [hn])) _)

theorem readMembers_tail {members : List (String × Json)} {built last : β}
    (h : Visited check visit built members last) {fuel : Nat} (hfuel : members.length < fuel)
    (rest : Bytes) :
    readMembers check visit fuel false built (spell (tailMembers members) ++ rest) =
      .ok (last, closeObject :: rest) := by
  induction h generalizing fuel with
  | nil built =>
      obtain ⟨fuel, rfl⟩ := Nat.exists_eq_succ_of_ne_zero (Nat.ne_of_gt hfuel)
      exact readMembers_close fuel false built rest
  | @cons built next last m members hcheck hreads _ ih =>
      obtain ⟨fuel, rfl⟩ := Nat.exists_eq_succ_of_ne_zero (Nat.ne_of_gt (Nat.zero_lt_of_lt hfuel))
      have hbytes : spell (tailMembers (m :: members)) ++ rest =
          comma :: (spell (Json.textChars m.1) ++
            colon :: (bytesOf m.2 ++ (spell (tailMembers members) ++ rest))) := by
        rw [tailMembers, memberChars_cons, spell_cons, spell_append, spell_cons, spell_append]
        simp [bytesOf]
        rfl
      have hvisit := hreads.2 _ (delimited_tailMembers members rest)
      rw [hbytes, (readMembers_round fuel hcheck hvisit).2, ih (by simpa using hfuel)]

theorem readMembers_written {members : List (String × Json)} {built last : β}
    (h : Visited check visit built members last) {fuel : Nat} (hfuel : members.length < fuel)
    (rest : Bytes) :
    readMembers check visit fuel true built (spell (Json.memberChars members) ++ rest) =
      .ok (last, closeObject :: rest) := by
  obtain ⟨fuel, rfl⟩ := Nat.exists_eq_succ_of_ne_zero (Nat.ne_of_gt (Nat.zero_lt_of_lt hfuel))
  cases h with
  | nil => exact readMembers_close fuel true built rest
  | @cons _ next _ m members hcheck hreads hmembers =>
      have hbytes : spell (Json.memberChars (m :: members)) ++ rest =
          spell (Json.textChars m.1) ++
            colon :: (bytesOf m.2 ++ (spell (tailMembers members) ++ rest)) := by
        rw [memberChars_cons, spell_append, spell_cons, spell_append]
        simp [bytesOf]
        rfl
      have hvisit := hreads.2 _ (delimited_tailMembers members rest)
      rw [hbytes, (readMembers_round fuel hcheck hvisit).1,
        readMembers_tail hmembers (by simpa using hfuel)]

end

theorem length_le_memberChars (members : List (String × Json)) :
    members.length ≤ (spell (Json.memberChars members)).length := by
  induction members with
  | nil => simp
  | cons m members ih =>
      have htail : (spell (Json.memberChars members)).length ≤
          (spell (tailMembers members)).length := by
        cases members with
        | nil => exact Nat.le_refl _
        | cons q items => simp [tailMembers]
      rw [memberChars_cons, spell_append, spell_cons, spell_append]
      simp only [List.length_cons, List.length_append]
      have hcolon : (String.utf8EncodeChar ':').length = 1 := rfl
      omega

/-! ## Whole values -/

theorem readJson_digit {b : UInt8} (h : isDigitByte b = true) (depth : Nat) (rest : Bytes) :
    readJson (depth + 1) (b :: rest) =
      (readNumber false (b :: rest)).map fun (n, rest) => (.number n, rest) := by
  unfold readJson
  rw [skipSpaces_cons (isSpace_of_isDigitByte h)]
  split
  · contradiction
  all_goals
    rename_i heq
    obtain ⟨rfl, rfl⟩ := List.cons.inj heq
    first
    | exact absurd h (by decide)
    | exact if_pos h

theorem readJson_minus (depth : Nat) (rest : Bytes) :
    readJson (depth + 1) (minus :: rest) =
      (readNumber true rest).map fun (n, rest) => (.number n, rest) := rfl

theorem readJson_quote (depth : Nat) (rest : Bytes) :
    readJson (depth + 1) (quote :: rest) =
      (readText rest).map fun (s, rest) => (.text s, rest) := rfl

theorem readJson_openList (depth : Nat) (rest : Bytes) :
    readJson (depth + 2) (openList :: rest) =
      (readList (readJson (depth + 1)) rest).map fun (items, rest) => (.list items, rest) := rfl

/-- Reads the value of a member, and puts the member before those already read. -/
def collect (depth : Nat) (name : String) (members : List (String × Json)) :
    Reader (List (String × Json)) := fun bytes =>
  (readJson depth bytes).map fun (v, rest) => ((name, v) :: members, rest)

theorem readJson_openObject (depth : Nat) (rest : Bytes) :
    readJson (depth + 2) (openObject :: rest) = (do
      let (members, rest) ← readMembers (fun _ _ => none) (collect (depth + 1))
        (rest.length + 1) true [] rest
      let rest ← endObject rest
      return (.object members.reverse, rest)) := rfl

theorem foldl_cons_reverse (members : List (String × Json)) (built : List (String × Json)) :
    members.foldl (fun built m => m :: built) built = members.reverse ++ built := by
  induction members generalizing built with
  | nil => rfl
  | cons m members ih => simp [ih]

/-- A whole number begins with a digit, or with a minus sign that is passed over before the rest
is read. -/
theorem whole_written {n : Int} (hlow : -2 ^ 63 ≤ n) (hhigh : n ≤ 2 ^ 64 - 1) {rest : Bytes}
    (hrest : Delimited rest) :
    (∃ b digits, bytesOf (.number (.whole n)) = b :: digits ∧ isDigitByte b ∧
      readNumber false (b :: digits ++ rest) = .ok (.whole n, rest)) ∨
    ∃ digits, bytesOf (.number (.whole n)) = minus :: digits ∧
      readNumber true (digits ++ rest) = .ok (.whole n, rest) := by
  cases n with
  | ofNat n =>
      have hn : n ≤ greatest64 := by
        have : (n : Int) ≤ 2 ^ 64 - 1 := hhigh
        unfold greatest64
        omega
      obtain ⟨b, digits, hb, hdigit, -⟩ := decimalChars_digits hn
      have hwritten : bytesOf (.number (.whole (.ofNat n))) = spell (decimalChars n) := by
        simp [bytesOf, Json.compactChars, Json.numberChars, signedDecimal, decimal]
      refine .inl ⟨b, digits, by rw [hwritten, hb], hdigit, ?_⟩
      rw [← hb, readNumber_decimal hn false hrest]
      rfl
  | negSucc n =>
      have hn : n + 1 ≤ 2 ^ 63 := by
        have : Int.negSucc n = -((n : Int) + 1) := rfl
        omega
      have hn' : n + 1 ≤ greatest64 := by unfold greatest64; omega
      refine .inr ⟨spell (decimalChars (n + 1)), ?_, ?_⟩
      · simp [bytesOf, Json.compactChars, Json.numberChars, signedDecimal, decimal]
        rfl
      · have hrange : (n + 1 == 0 || decide (0x8000000000000000 < n + 1)) = false := by
          rw [Bool.or_eq_false_iff]
          exact ⟨rfl, decide_eq_false (by omega)⟩
        rw [readNumber_decimal hn' true hrest]
        unfold wholeNumber
        rw [hrange]
        rfl

theorem whole_reads {n : Int} (hlow : -2 ^ 63 ≤ n) (hhigh : n ≤ 2 ^ 64 - 1) (depth : Nat) :
    Reads (readJson (depth + 1)) (.number (.whole n)) (.number (.whole n)) := by
  refine ⟨?_, fun rest hrest => ?_⟩
  · have hnil : Delimited [] := by simp [Delimited]
    rcases whole_written hlow hhigh hnil with
      ⟨b, digits, hb, hdigit, -⟩ | ⟨digits, hb, -⟩
    · exact ⟨b, digits, hb, isSpace_of_isDigitByte hdigit, ne_of_isDigitByte hdigit rfl⟩
    · exact ⟨minus, digits, hb, rfl, by decide⟩
  · rcases whole_written hlow hhigh hrest with ⟨b, digits, hb, hdigit, hn⟩ | ⟨digits, hb, hn⟩
    · rw [hb, List.cons_append, readJson_digit hdigit, ← List.cons_append, hn]
      rfl
    · rw [hb, List.cons_append, readJson_minus, hn]
      rfl

theorem text_reads (s : String) (depth : Nat) :
    Reads (readJson (depth + 1)) (.text s) (.text s) := by
  refine ⟨⟨quote, _, rfl, rfl, by decide⟩, fun rest _ => ?_⟩
  show readJson (depth + 1) (quote :: (spell _ ++ rest)) = _
  rw [readJson_quote, readText_written]
  rfl

theorem list_reads {depth : Nat} {items : List Json}
    (h : ∀ v ∈ items, Reads (readJson (depth + 1)) v v) :
    Reads (readJson (depth + 2)) (.list items) (.list items) := by
  refine ⟨⟨openList, _, rfl, rfl, by decide⟩, fun rest _ => ?_⟩
  have hpairs : ∀ p ∈ items.map fun v => (v, v), Reads (readJson (depth + 1)) p.1 p.2 := by
    simpa using h
  have hread := readList_written hpairs rest
  simp only [List.map_map, Function.comp_def, List.map_id'] at hread
  show readJson (depth + 2) (openList :: (spell _ ++ rest)) = _
  rw [readJson_openList, hread]
  rfl

theorem object_reads {depth : Nat} {members : List (String × Json)}
    (h : ∀ m ∈ members, Reads (readJson (depth + 1)) m.2 m.2) :
    Reads (readJson (depth + 2)) (.object members) (.object members) := by
  refine ⟨⟨openObject, _, rfl, rfl, by decide⟩, fun rest _ => ?_⟩
  have hvisits : ∀ m ∈ members, Visits (fun _ _ => none) (collect (depth + 1))
      (fun built m => m :: built) m := by
    intro m hm built
    obtain ⟨hstarts, hreads⟩ := h m hm
    refine ⟨rfl, hstarts, fun rest hrest => ?_⟩
    rw [collect, hreads rest hrest]
    rfl
  have hlength := length_le_memberChars members
  show readJson (depth + 2) (openObject :: (spell _ ++ rest)) = _
  rw [readJson_openObject, readMembers_written (visited_of_visits hvisits [])
    (by rw [List.length_append]; omega), foldl_cons_reverse, List.append_nil]
  show Except.ok (Json.object members.reverse.reverse, rest) = _
  rw [List.reverse_reverse]

theorem readJson_written {depth : Nat} {v : Json} (h : Fits depth v) :
    Reads (readJson depth) v v := by
  induction depth generalizing v with
  | zero => exact h.elim
  | succ depth ih =>
      cases v with
      | null => exact ⟨⟨_, _, rfl, rfl, by decide⟩, fun rest _ => rfl⟩
      | truth b => cases b <;> exact ⟨⟨_, _, rfl, rfl, by decide⟩, fun rest _ => rfl⟩
      | number n =>
          cases n with
          | whole n => exact whole_reads h.1 h.2 depth
          | real x => exact h.elim
      | text s => exact text_reads s depth
      | list items =>
          obtain ⟨hdepth, hitems⟩ := h
          obtain ⟨depth, rfl⟩ := Nat.exists_eq_succ_of_ne_zero hdepth
          exact list_reads fun v hv => ih (hitems v hv)
      | object members =>
          obtain ⟨hdepth, hmembers⟩ := h
          obtain ⟨depth, rfl⟩ := Nat.exists_eq_succ_of_ne_zero hdepth
          exact object_reads fun m hm => ih (hmembers m hm)

theorem decode_compact {v : Json} (h : Fits deepest v) :
    decode anything (utf8 v.compact) = .ok v := by
  have hread := (readJson_written h).2 [] (by simp [Delimited])
  rw [List.append_nil, bytesOf, ← utf8_ofList] at hread
  show (do let (a, rest) ← readJson deepest (utf8 v.compact); _) = _
  rw [Json.compact, hread]
  rfl

end WalletBridge.Json
