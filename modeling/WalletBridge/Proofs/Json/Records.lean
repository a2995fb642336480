import WalletBridge.Proofs.Json.Skipped

/-! # What values and records are read as

The value that a tree stands for, within a depth; and the record that a shape
finds in a tree, member by member. A record that is told apart by a tag is found
in two steps, as the tree's value first and then in that value.
-/

namespace WalletBridge.Json

open Text

/-! ## Parts of codecs -/

theorem Sees.map {read : Reader α} {tokens : List Bytes} {o : Option α} (h : Sees read tokens o)
    (f : α → β) : Sees (fun bytes => (read bytes).map fun (a, rest) => (f a, rest)) tokens
      (o.map f) :=
  fun more bytes hmore hbytes => (h more bytes hmore hbytes).map f

theorem gives_enter {o : Option α} {more : List Bytes} {depth : Nat} {bytes rest : Bytes}
    {b : UInt8} {body : Nat → Reader α} (hbytes : bytes = b :: rest)
    (h : 1 < depth → Gives o more (body (depth - 1) rest)) :
    Gives (if depth ≤ 1 then none else o) more (enter depth bytes body) := by
  subst hbytes
  obtain _ | _ | depth := depth
  · exact gives_error
  · exact gives_error
  · exact h (by omega)

def Tree.optional? (look : Tree → Option α) : Tree → Option (Option α)
  | .null => some none
  | T => (look T).map some

/-- The values of a list, unless it stands too deep. -/
def Tree.list? (depth : Nat) (look : Tree → Option α) : Tree → Option (List α)
  | .list items => if depth ≤ 1 then none else items.mapM look
  | _ => none

namespace Codec

variable {c : Codec α} {depth : Nat}

theorem optional_sees (h : Steady (c.read depth)) (T : Tree) :
    Sees (c.optional.read depth) T.tokens (T.optional? (outcome (c.read depth))) := by
  have hvalue : ∀ {T : Tree}, T ≠ .null → Sees (c.optional.read depth) T.tokens
      ((outcome (c.read depth) T).map some) := by
    intro T hnull more bytes hmore hbytes
    obtain ⟨rest, hskip⟩ := Tree.skipSpaces_eq hbytes
    have hgives := (h.sees T).map some more _ hmore hbytes.unblanked
    rw [hskip] at hgives
    simp only [optional, hskip]
    split
    · rename_i heq
      exact absurd (Tree.eq_null (List.cons.inj heq).1) hnull
    · exact hgives
  cases T with
  | null =>
      intro more bytes _ hbytes
      obtain ⟨rest, hskip, hrest⟩ := Spread.word_skip hbytes rfl
      refine ⟨rest, ?_, hrest⟩
      simp only [optional, hskip]
      show (readNull ([0x75, 0x6C, 0x6C] ++ rest)).map _ = _
      rw [readNull_append]
      rfl
  | _ => exact hvalue (by rintro ⟨⟩)

theorem list_sees (h : Steady (c.read (depth - 1))) (T : Tree) :
    Sees (c.list.read depth) T.tokens (T.list? depth (outcome (c.read (depth - 1)))) := by
  intro more bytes hmore hbytes
  cases T with
  | list items =>
      obtain ⟨rest, hskip, hrest⟩ := Spread.byte hbytes rfl
      simp only [list, hskip]
      refine gives_enter rfl fun _ => ?_
      exact readList_sees (fun T _ => h.sees T) more rest hmore hrest
  | _ =>
      obtain ⟨rest, hskip⟩ := Tree.skipSpaces_eq hbytes
      simp only [list, hskip]
      split
      · exact gives_error
      · rename_i heq
        obtain ⟨items, hitems⟩ := Tree.eq_list (List.cons.inj heq).1
        cases hitems
      · exact gives_error

end Codec

/-! ## Any value -/

def valued? (look : Tree → Option Json) (members : List (Spelling × Tree)) :
    Option (List (String × Json)) :=
  (named? members).bind fun entries => entries.mapM fun e => (look e.2).map (e.1, ·)

/-- The value that a tree stands for, unless it nests deeper than that. -/
def Tree.value? : Nat → Tree → Option Json
  | 0, _ => none
  | _ + 1, .null => some .null
  | _ + 1, .truth b => some (.truth b)
  | _ + 1, .number n => n.value?.map .number
  | _ + 1, .text s => s.value?.map .text
  | depth + 1, .list items =>
    if depth = 0 then none else (items.mapM (Tree.value? depth)).map .list
  | depth + 1, .object members =>
    if depth = 0 then none else (valued? (Tree.value? depth) members).map .object

theorem readJson_skipSpaces (depth : Nat) (bytes : Bytes) :
    readJson (depth + 1) (skipSpaces bytes) = readJson (depth + 1) bytes := by
  rw [readJson, readJson, skipSpaces_idem]

theorem readJson_null (depth : Nat) (rest : Bytes) :
    readJson (depth + 1) (beginsNull :: rest) =
      (readNull rest).map fun (_, rest) => (.null, rest) := rfl

theorem readJson_true (depth : Nat) (rest : Bytes) :
    readJson (depth + 1) (beginsTrue :: rest) =
      (readTrue rest).map fun (_, rest) => (.truth true, rest) := rfl

theorem readJson_false (depth : Nat) (rest : Bytes) :
    readJson (depth + 1) (beginsFalse :: rest) =
      (readFalse rest).map fun (_, rest) => (.truth false, rest) := rfl

theorem foldlM_some_cons (l : List α) (acc : List α) :
    l.foldlM (fun acc a => some (a :: acc)) acc = some (l.reverse ++ acc) := by
  induction l generalizing acc with
  | nil => rfl
  | cons a l ih =>
      rw [List.foldlM_cons]
      show l.foldlM _ (a :: acc) = _
      rw [ih]
      simp

theorem buildUp_collect (depth : Nat) (members : List (Spelling × Tree)) :
    buildUp (fun acc name T => (T.value? depth).map fun v => (name, v) :: acc) [] members =
      (valued? (Tree.value? depth) members).map List.reverse := by
  rw [buildUp_eq, valued?]
  cases named? members with
  | none => rfl
  | some entries =>
      have hstep : ∀ (acc : List (String × Json)) (e : String × Tree),
          ((e.2.value? depth).map fun v => (e.1, v) :: acc) =
            ((e.2.value? depth).map (e.1, ·)).bind fun m => some (m :: acc) := by
        intro acc e
        cases e.2.value? depth <;> rfl
      simp only [Option.bind_some, hstep, foldlM_of_bind, foldlM_some_cons, List.append_nil]
      cases entries.mapM fun e => (e.2.value? depth).map (e.1, ·) <;> rfl

theorem readJson_object_sees {depth : Nat}
    (ih : ∀ T : Tree, Sees (readJson (depth + 1)) T.tokens (T.value? (depth + 1)))
    (members : List (Spelling × Tree)) :
    Sees (readJson (depth + 2)) (Tree.object members).tokens
      ((Tree.object members).value? (depth + 2)) := by
  intro more bytes _ hbytes
  obtain ⟨rest, hskip, hrest⟩ := Spread.byte hbytes rfl
  have hspread : Spread (membersFrom true members ++ more) rest := hrest
  have hmembers : Gives
      (buildUp (fun acc name T => (T.value? (depth + 1)).map fun v => (name, v) :: acc) [] members)
      (membersFrom true [] ++ more)
      (readMembers (fun _ _ => none) (collect (depth + 1)) (rest.length + 1) true [] rest) :=
    readMembers_sees (by intro name b T cause h; cases h)
      (fun m _ name acc _ => (ih m.2).map fun v => (name, v) :: acc)
      (Nat.lt_succ_of_le (members_length_le hspread)) hspread
  rw [buildUp_collect] at hmembers
  rw [← readJson_skipSpaces, hskip, readJson_openObject]
  have hobject : (Tree.object members).value? (depth + 2) =
      ((valued? (Tree.value? (depth + 1)) members).map List.reverse).bind
        fun collected => some (.object collected.reverse) := by
    show (valued? (Tree.value? (depth + 1)) members).map Json.object = _
    cases valued? (Tree.value? (depth + 1)) members <;> simp
  rw [hobject]
  apply hmembers.bind
  intro collected after hafter
  obtain ⟨left, hend, hleft⟩ := endObject_close hafter
  exact ⟨left, by simp [bind, Except.bind, hend, pure, Except.pure], hleft⟩

theorem readJson_sees (depth : Nat) (T : Tree) :
    Sees (readJson depth) T.tokens (T.value? depth) := by
  induction depth generalizing T with
  | zero => exact fun more bytes _ _ => gives_error
  | succ depth ih =>
      intro more bytes hmore hbytes
      rw [← readJson_skipSpaces]
      cases T with
      | null =>
          obtain ⟨rest, hskip, hrest⟩ := Spread.word_skip hbytes rfl
          refine ⟨rest, ?_, hrest⟩
          rw [hskip, readJson_null, readNull_append]
          rfl
      | truth b =>
          cases b with
          | true =>
              obtain ⟨rest, hskip, hrest⟩ := Spread.word_skip hbytes rfl
              refine ⟨rest, ?_, hrest⟩
              rw [hskip, readJson_true, readTrue_append]
              rfl
          | false =>
              obtain ⟨rest, hskip, hrest⟩ := Spread.word_skip hbytes rfl
              refine ⟨rest, ?_, hrest⟩
              rw [hskip, readJson_false, readFalse_append]
              rfl
      | text s =>
          obtain ⟨rest, hskip, hrest⟩ := Spread.text_skip hbytes
          rw [hskip, readJson_quote]
          exact (gives_of_toOption (readText_inner s rest) hrest).map Json.text
      | number n =>
          obtain ⟨rest, hrest, hsign⟩ := Spread.number_skip hbytes
          have hread := n.readNumber_size (hrest.delimited hmore)
          rcases hsign with ⟨hsign, hskip⟩ | ⟨hsign, b, left, hdigit, hskip, hleft⟩
          · rw [hsign] at hread
            rw [hskip, readJson_minus]
            exact (gives_of_toOption hread hrest).map Json.number
          · rw [hsign, ← hleft] at hread
            rw [hskip, readJson_digit hdigit]
            exact (gives_of_toOption hread hrest).map Json.number
      | list items =>
          obtain ⟨rest, hskip, hrest⟩ := Spread.byte hbytes rfl
          rw [hskip]
          obtain _ | depth := depth
          · exact gives_error
          · rw [readJson_openList]
            exact (readList_sees (fun T _ => ih T) more rest hmore hrest).map Json.list
      | object members =>
          obtain _ | depth := depth
          · obtain ⟨rest, hskip, hrest⟩ := Spread.byte hbytes rfl
            rw [hskip]
            exact gives_error
          · rw [readJson_skipSpaces]
            exact readJson_object_sees ih members more bytes hmore hbytes

/-! ## Records -/

def Member.look (depth : Nat) (m : Member ρ) (T : Tree) : Option (ρ → ρ) := outcome (m.read depth) T

/-- The record that the items of a list make; `get` finds the change of a member in an item. -/
def rowOf (get : Member ρ → V → Option (ρ → ρ)) : List (Member ρ) → List V → ρ → Option ρ
  | [], [], value => some value
  | [], _ :: _, _ => none
  | m :: members, [], value => m.short.bind fun change => rowOf get members [] (change value)
  | m :: members, v :: items, value =>
    (get m v).bind fun change => rowOf get members items (change value)

namespace Shape

section
variable (shape : Shape ρ) (get : Member ρ → V → Option (ρ → ρ))

/-- A member of an object changes a draft, if the record knows it and has not seen it before. -/
def step (draft : Draft ρ) (name : String) (v : V) : Option (Draft ρ) :=
  if draft.seen.contains name then none
  else match shape.member? name with
    | none => some draft
    | some m => (get m v).map fun change =>
      { value := change draft.value, seen := name :: draft.seen }

def drafted (entries : List (String × V)) : Option (Draft ρ) :=
  entries.foldlM (fun draft e => shape.step get draft e.1 e.2) { value := shape.start, seen := [] }

def gather (entries : List (String × V)) : Option ρ :=
  (shape.drafted get entries).bind fun draft => (shape.finish draft).toOption

end

/-- The record that a tree is, unless it stands too deep. -/
def look (shape : Shape ρ) (depth : Nat) : Tree → Option ρ
  | .list items =>
    if depth ≤ 1 then none else rowOf (Member.look (depth - 1)) shape.members items shape.start
  | .object members =>
    if depth ≤ 1 then none else (named? members).bind (shape.gather (Member.look (depth - 1)))
  | _ => none

variable {shape : Shape ρ} {depth : Nat}

theorem readMember_sees (h : ∀ m ∈ shape.members, Steady (m.read depth)) {name : String}
    {draft : Draft ρ} (hnew : repeats name draft = none) (T : Tree) :
    Sees (shape.readMember depth name draft) T.tokens
      (shape.step (Member.look depth) draft name T) := by
  have hseen : draft.seen.contains name = false := by
    unfold repeats at hnew
    split at hnew
    · cases hnew
    · rename_i hseen
      simpa using hseen
  intro more bytes hmore hbytes
  unfold readMember step
  rw [hseen]
  simp only [Bool.false_eq_true, if_false]
  cases hmember : shape.member? name with
  | none =>
      obtain ⟨rest, hskip, hrest⟩ := skipValue_tree hmore hbytes
      exact ⟨rest, by simp only [hskip]; rfl, hrest⟩
  | some m =>
      have hm : m ∈ shape.members := List.mem_of_find?_eq_some hmember
      exact ((h m hm).sees T more bytes hmore hbytes).map _

theorem step_of_repeats {get : Member ρ → V → Option (ρ → ρ)} {name : String} {draft : Draft ρ}
    {v : V} {cause : Cause} (h : repeats name draft = some cause) :
    shape.step get draft name v = none := by
  unfold repeats at h
  split at h
  · rename_i hseen
    rw [step, if_pos hseen]
  · cases h

theorem readObject_sees (h : ∀ m ∈ shape.members, Steady (m.read depth))
    (members : List (Spelling × Tree)) :
    Sees (shape.readObject depth) (Tree.memberTokens members)
      ((named? members).bind (shape.gather (Member.look depth))) := by
  intro more bytes _ hbytes
  have hspread : Spread (membersFrom true members ++ more) bytes := hbytes
  have hmembers : Gives
      (buildUp (shape.step (Member.look depth)) { value := shape.start, seen := [] } members)
      (membersFrom true [] ++ more)
      (readMembers repeats (shape.readMember depth) (bytes.length + 1) true
        { value := shape.start, seen := [] } bytes) :=
    readMembers_sees (fun name draft T cause => step_of_repeats)
      (fun m _ name draft hnew => readMember_sees h hnew m.2)
      (Nat.lt_succ_of_le (members_length_le hspread)) hspread
  rw [buildUp_eq] at hmembers
  have hgather : (named? members).bind (shape.gather (Member.look depth)) =
      ((named? members).bind (shape.drafted (Member.look depth))).bind
        fun draft => (shape.finish draft).toOption := by
    cases named? members <;> rfl
  rw [hgather]
  change Gives ((named? members).bind (shape.drafted (Member.look depth))) _ _ at hmembers
  apply hmembers.bind
  intro draft rest hrest
  obtain ⟨after, hend, hafter⟩ := endObject_close hrest
  dsimp only
  cases shape.finish draft with
  | error cause => exact gives_error
  | ok value => exact ⟨after, by simp [bind, Except.bind, hend, pure, Except.pure], hafter⟩

theorem readRow_sees {index : Nat} {first : Bool} {members : List (Member ρ)} {items : List Tree}
    {value : ρ} {more : List Bytes} {bytes : Bytes} (h : ∀ m ∈ members, Steady (m.read depth))
    (hfirst : (index == 0) = first)
    (hbytes : Spread (itemsFrom first items ++ more) bytes) :
    Gives (rowOf (Member.look depth) members items value) more (do
      let (value, rest) ← shape.readRow depth index members value bytes
      let rest ← endList rest
      return (value, rest)) := by
  induction members generalizing index first items value bytes with
  | nil =>
      cases items with
      | nil =>
          obtain ⟨rest, hend, hrest⟩ := endList_close hbytes
          refine ⟨rest, ?_, hrest⟩
          simp [readRow, bind, Except.bind, hend, pure, Except.pure]
      | cons T items =>
          obtain ⟨fault, hend⟩ := endList_item hbytes
          refine ⟨fault, ?_⟩
          simp [readRow, bind, Except.bind, hend]
  | cons m members ih =>
      have hlater : ∀ m ∈ members, Steady (m.read depth) := fun m hm => h m (by simp [hm])
      rw [readRow, hfirst]
      cases items with
      | nil =>
          rw [nextItem_close hbytes, rowOf]
          cases hshort : m.short with
          | none => exact gives_error
          | some change =>
              have hclose : Spread (itemsFrom false [] ++ more) bytes := by
                cases first <;> exact hbytes
              exact ih hlater (by simp) hclose
      | cons T items =>
          obtain ⟨rest, hnext, hrest⟩ := nextItem_item hbytes
          have hvalue := (h m (by simp)).sees T _ rest (follows_itemsFrom items more) hrest
          rw [hnext, rowOf, Member.look]
          dsimp only
          refine hvalue.elim (fun fault => gives_error) fun change after hafter => ?_
          exact ih hlater (by simp) hafter

theorem codec_sees (h : ∀ m ∈ shape.members, Steady (m.read (depth - 1))) (T : Tree) :
    Sees (shape.codec.read depth) T.tokens (shape.look depth T) := by
  intro more bytes hmore hbytes
  cases T with
  | list items =>
      obtain ⟨rest, hskip, hrest⟩ := Spread.byte hbytes rfl
      have hspread : Spread (itemsFrom true items ++ more) rest := hrest
      simp only [codec, hskip]
      exact gives_enter rfl fun _ => readRow_sees h rfl hspread
  | object members =>
      obtain ⟨rest, hskip, hrest⟩ := Spread.byte hbytes rfl
      simp only [codec, hskip]
      exact gives_enter rfl fun _ => readObject_sees h members more rest hmore hrest
  | _ =>
      obtain ⟨rest, hskip⟩ := Tree.skipSpaces_eq hbytes
      simp only [codec, hskip]
      split
      · exact gives_error
      · rename_i heq
        obtain ⟨items, hitems⟩ := Tree.eq_list (List.cons.inj heq).1
        cases hitems
      · rename_i heq
        obtain ⟨members, hmembers⟩ := Tree.eq_object (List.cons.inj heq).1
        cases hmembers
      · exact gives_error

end Shape

end WalletBridge.Json
