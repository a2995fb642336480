import WalletBridge.Proofs.Json.Outcomes

/-! # What containers are read as

The results that a reader sees in a list or an object follow from those that it
sees in the items and members. A value that no member wants is passed over,
whatever it is.
-/

namespace WalletBridge.Json

open Text

theorem Spread.byte {b : UInt8} {more : List Bytes} {bytes : Bytes}
    (h : Spread ([b] :: more) bytes) (hb : isSpace b = false) :
    ∃ rest, skipSpaces bytes = b :: rest ∧ Spread more rest :=
  h.word_skip hb

theorem Gives.of_eq_none {o : Option α} {more : List Bytes} {result : Except Fault (α × Bytes)}
    {fault : Fault} (ho : o = none) (h : result = .error fault) : Gives o more result := by
  rw [ho, h]
  exact gives_error

/-! ## Lists -/

def itemsFrom (first : Bool) (items : List Tree) : List Bytes :=
  if first then Tree.itemTokens items else Tree.moreItems items

section
variable {first : Bool} {T : Tree} {items : List Tree} {more : List Bytes} {bytes : Bytes}

theorem follows_itemsFrom (items : List Tree) (more : List Bytes) :
    Follows (itemsFrom false items ++ more) := by
  cases items <;> simp [Follows, itemsFrom, Tree.moreItems]

theorem close_skipSpaces (h : Spread (itemsFrom first [] ++ more) bytes) :
    ∃ rest, skipSpaces bytes = closeList :: rest ∧ Spread more rest := by
  have hclose : Spread ([closeList] :: more) bytes := by
    cases first <;> exact h
  exact hclose.byte rfl

theorem nextItem_close (h : Spread (itemsFrom first [] ++ more) bytes) :
    nextItem first bytes = .ok none := by
  obtain ⟨rest, hskip, -⟩ := close_skipSpaces h
  rw [nextItem, hskip]
  rfl

theorem nextItem_item (h : Spread (itemsFrom first (T :: items) ++ more) bytes) :
    ∃ rest, nextItem first bytes = .ok (some rest) ∧
      Spread (T.tokens ++ (itemsFrom false items ++ more)) rest := by
  obtain ⟨-, hclose, -, -⟩ := T.opening_ne
  cases first with
  | true =>
      have hvalue : Spread (T.tokens ++ (itemsFrom false items ++ more)) bytes := by
        simpa [itemsFrom, Tree.itemTokens] using h
      obtain ⟨rest, hskip⟩ := Tree.skipSpaces_eq hvalue
      refine ⟨skipSpaces bytes, ?_, hvalue.unblanked⟩
      rw [nextItem_first hskip hclose, hskip]
  | false =>
      have hcomma : Spread ([comma] :: (T.tokens ++ (itemsFrom false items ++ more))) bytes := by
        simpa [itemsFrom, Tree.moreItems] using h
      obtain ⟨after, hafter, hvalue⟩ := hcomma.byte rfl
      obtain ⟨rest, hskip⟩ := Tree.skipSpaces_eq hvalue
      refine ⟨skipSpaces after, ?_, hvalue.unblanked⟩
      rw [nextItem_later hafter hskip hclose, hskip]

theorem endList_close (h : Spread (itemsFrom first [] ++ more) bytes) :
    ∃ rest, endList bytes = .ok rest ∧ Spread more rest := by
  obtain ⟨rest, hskip, hrest⟩ := close_skipSpaces h
  exact ⟨rest, by rw [endList, hskip]; rfl, hrest⟩

theorem endList_item (h : Spread (itemsFrom first (T :: items) ++ more) bytes) :
    ∃ fault, endList bytes = .error fault := by
  obtain ⟨-, hclose, -, -⟩ := T.opening_ne
  have hnext : ∀ b rest, skipSpaces bytes = b :: rest → b ≠ closeList →
      ∃ fault, endList bytes = .error fault := by
    intro b rest hskip hb
    rw [endList, hskip]
    split
    · contradiction
    · rename_i heq
      exact absurd (List.cons.inj heq).1 hb
    · split <;> exact ⟨_, rfl⟩
    · exact ⟨_, rfl⟩
  cases first with
  | true =>
      have hvalue : Spread (T.tokens ++ (itemsFrom false items ++ more)) bytes := by
        simpa [itemsFrom, Tree.itemTokens] using h
      obtain ⟨rest, hskip⟩ := Tree.skipSpaces_eq hvalue
      exact hnext _ rest hskip hclose
  | false =>
      have hcomma : Spread ([comma] :: (T.tokens ++ (itemsFrom false items ++ more))) bytes := by
        simpa [itemsFrom, Tree.moreItems] using h
      obtain ⟨rest, hskip, -⟩ := hcomma.byte rfl
      exact hnext _ rest hskip (by decide)

end

/-! ## Lengths -/

theorem Spread.drop {tokens more : List Bytes} {bytes : Bytes} (h : Spread (tokens ++ more) bytes) :
    ∃ rest, Spread more rest ∧ rest.length ≤ bytes.length := by
  induction tokens generalizing bytes with
  | nil => exact ⟨bytes, h, Nat.le_refl _⟩
  | cons token tokens ih =>
      obtain ⟨blanks, rest, -, rfl, hrest⟩ := h
      obtain ⟨left, hleft, hlength⟩ := ih hrest
      refine ⟨left, hleft, ?_⟩
      simp only [List.length_append]
      omega

theorem Spread.drop_tree {T : Tree} {more : List Bytes} {bytes : Bytes}
    (h : Spread (T.tokens ++ more) bytes) :
    ∃ rest, Spread more rest ∧ rest.length < bytes.length := by
  obtain ⟨first, tokens, htokens⟩ := T.tokens_eq
  rw [htokens] at h
  obtain ⟨blanks, rest, -, rfl, hrest⟩ := h
  obtain ⟨left, hleft, hlength⟩ := hrest.drop
  refine ⟨left, hleft, ?_⟩
  simp only [List.length_append, List.length_cons]
  omega

theorem itemsFrom_cons (first : Bool) (T : Tree) (items : List Tree) :
    ∃ before, itemsFrom first (T :: items) = before ++ (T.tokens ++ itemsFrom false items) := by
  cases first with
  | true => exact ⟨[], by simp [itemsFrom, Tree.itemTokens]⟩
  | false => exact ⟨[[comma]], by simp [itemsFrom, Tree.moreItems]⟩

theorem parts_length_le (value : β → Tree) (tokensFrom : Bool → List β → List Bytes)
    (hcons : ∀ first part parts, ∃ before, tokensFrom first (part :: parts) =
      before ++ ((value part).tokens ++ tokensFrom false parts))
    {first : Bool} {parts : List β} {more : List Bytes} {bytes : Bytes}
    (h : Spread (tokensFrom first parts ++ more) bytes) : parts.length ≤ bytes.length := by
  induction parts generalizing first bytes with
  | nil => simp
  | cons part parts ih =>
      obtain ⟨before, hbefore⟩ := hcons first part parts
      rw [hbefore, List.append_assoc, List.append_assoc] at h
      obtain ⟨bare, hvalue, hshort⟩ := h.drop
      obtain ⟨rest, hrest, hshorter⟩ := hvalue.drop_tree
      have hparts := ih hrest
      simp only [List.length_cons]
      omega

theorem items_length_le {first : Bool} {items : List Tree} {more : List Bytes} {bytes : Bytes}
    (h : Spread (itemsFrom first items ++ more) bytes) : items.length ≤ bytes.length :=
  parts_length_le id itemsFrom itemsFrom_cons h

/-! ## Items -/

theorem readItems_sees {item : Reader α} {f : Tree → Option α} {items : List Tree}
    (h : ∀ T ∈ items, Sees item T.tokens (f T)) {fuel : Nat} (hfuel : items.length < fuel)
    (read : List α) {more : List Bytes} {bytes : Bytes}
    (hbytes : Spread (itemsFrom read.isEmpty items ++ more) bytes) :
    Gives ((items.mapM f).map (read.reverse ++ ·)) (itemsFrom true [] ++ more)
      (readItems item fuel read bytes) := by
  induction items generalizing read bytes fuel with
  | nil =>
      obtain _ | fuel := fuel
      · cases hfuel
      obtain ⟨rest, hskip, hrest⟩ := close_skipSpaces hbytes
      refine ⟨skipSpaces bytes, ?_, ?_⟩
      · rw [readItems, nextItem_close hbytes]
        simp
      · rw [hskip]
        exact .of_append [closeList] hrest
  | cons T items ih =>
      obtain _ | fuel := fuel
      · cases hfuel
      obtain ⟨rest, hnext, hrest⟩ := nextItem_item hbytes
      have hvalue := h T (by simp) _ rest (follows_itemsFrom items more) hrest
      rw [readItems, hnext]
      simp only [List.mapM_cons]
      refine hvalue.elim (fun fault => gives_error) fun a after hafter => ?_
      have hrest := ih (fun T hT => h T (by simp [hT])) (Nat.lt_of_succ_lt_succ hfuel)
        (a :: read) hafter
      cases hitems : items.mapM f with
      | none => simpa [hitems] using hrest
      | some as => simpa [hitems] using hrest

theorem readList_sees {item : Reader α} {f : Tree → Option α} {items : List Tree}
    (h : ∀ T ∈ items, Sees item T.tokens (f T)) :
    Sees (readList item) (Tree.itemTokens items) (items.mapM f) := by
  intro more bytes _ hbytes
  have hspread : Spread (itemsFrom true items ++ more) bytes := hbytes
  have hlength := items_length_le hspread
  have hread := readItems_sees h (Nat.lt_succ_of_le hlength) [] hspread
  have hlist : items.mapM f = ((items.mapM f).map ([].reverse ++ ·)).bind some := by
    cases items.mapM f <;> rfl
  rw [hlist, readList]
  apply hread.bind
  intro as rest hrest
  obtain ⟨after, hend, hafter⟩ := endList_close hrest
  exact ⟨after, by simp [bind, Except.bind, hend, pure, Except.pure], hafter⟩

/-! ## Members -/

def membersFrom (first : Bool) (members : List (Spelling × Tree)) : List Bytes :=
  if first then Tree.memberTokens members else Tree.moreMembers members

section
variable {first : Bool} {name : Spelling} {T : Tree} {members : List (Spelling × Tree)}
variable {more : List Bytes} {bytes : Bytes}

theorem follows_membersFrom (members : List (Spelling × Tree)) (more : List Bytes) :
    Follows (membersFrom false members ++ more) := by
  cases members <;> simp [Follows, membersFrom, Tree.moreMembers]

theorem closeObject_skipSpaces (h : Spread (membersFrom first [] ++ more) bytes) :
    ∃ rest, skipSpaces bytes = closeObject :: rest ∧ Spread more rest := by
  have hclose : Spread ([closeObject] :: more) bytes := by
    cases first <;> exact h
  exact hclose.byte rfl

theorem endObject_close (h : Spread (membersFrom first [] ++ more) bytes) :
    ∃ rest, endObject bytes = .ok rest ∧ Spread more rest := by
  obtain ⟨rest, hskip, hrest⟩ := closeObject_skipSpaces h
  exact ⟨rest, by rw [endObject, hskip]; rfl, hrest⟩

theorem nextKey_close (h : Spread (membersFrom first [] ++ more) bytes) :
    nextKey first bytes = .ok none := by
  obtain ⟨rest, hskip, -⟩ := closeObject_skipSpaces h
  rw [nextKey, hskip]
  rfl

theorem nextKey_inner (h : Spread (membersFrom first ((name, T) :: members) ++ more) bytes) :
    ∃ rest, nextKey first bytes = (readText (name.inner ++ rest)).map some ∧
      Spread ([colon] :: (T.tokens ++ (membersFrom false members ++ more))) rest := by
  cases first with
  | true =>
      have hname : Spread (name.token :: [colon] ::
          (T.tokens ++ (membersFrom false members ++ more))) bytes := by
        simpa [membersFrom, Tree.memberTokens] using h
      obtain ⟨rest, hskip, hrest⟩ := hname.text_skip
      exact ⟨rest, nextKey_first hskip, hrest⟩
  | false =>
      have hcomma : Spread ([comma] :: name.token :: [colon] ::
          (T.tokens ++ (membersFrom false members ++ more))) bytes := by
        simpa [membersFrom, Tree.moreMembers] using h
      obtain ⟨after, hafter, hname⟩ := hcomma.byte rfl
      obtain ⟨rest, hskip, hrest⟩ := hname.text_skip
      exact ⟨rest, nextKey_later hafter hskip, hrest⟩

theorem readColon_colon (h : Spread ([colon] :: (T.tokens ++ more)) bytes) :
    ∃ rest, readColon bytes = .ok rest ∧ Spread (T.tokens ++ more) rest := by
  obtain ⟨rest, hskip, hrest⟩ := h.byte rfl
  exact ⟨rest, by rw [readColon, hskip]; rfl, hrest⟩

theorem membersFrom_cons (first : Bool) (name : Spelling) (T : Tree)
    (members : List (Spelling × Tree)) :
    ∃ before, membersFrom first ((name, T) :: members) =
      before ++ (T.tokens ++ membersFrom false members) := by
  cases first with
  | true => exact ⟨[name.token, [colon]], by simp [membersFrom, Tree.memberTokens]⟩
  | false => exact ⟨[[comma], name.token, [colon]], by simp [membersFrom, Tree.moreMembers]⟩

theorem members_length_le (h : Spread (membersFrom first members ++ more) bytes) :
    members.length ≤ bytes.length :=
  parts_length_le Prod.snd membersFrom
    (fun first m members => membersFrom_cons first m.1 m.2 members) h

end

/-- The members under the characters of their names, if all the names are texts. -/
def named? (members : List (Spelling × Tree)) : Option (List (String × Tree)) :=
  members.mapM fun (name, T) => name.value?.map (·, T)

section
variable {check : String → β → Option Cause} {visit : String → β → Reader β}
variable {step : β → String → Tree → Option β}

def buildUp (step : β → String → Tree → Option β) (built : β) (members : List (Spelling × Tree)) :
    Option β :=
  members.foldlM (fun b m => m.1.value?.bind fun name => step b name m.2) built

theorem foldlM_of_bind {f : δ → Option γ} {step' : β → γ → Option β} {l : List δ} (b : β) :
    l.foldlM (fun b a => (f a).bind (step' b)) b = (l.mapM f).bind fun as => as.foldlM step' b := by
  induction l generalizing b with
  | nil => rfl
  | cons a l ih =>
      rw [List.foldlM_cons, List.mapM_cons]
      cases hf : f a with
      | none => rfl
      | some c =>
          show ((step' b c).bind fun b => _) = _
          cases hl : l.mapM f with
          | none => simp [ih, hl]
          | some cs => simp [ih, hl]

theorem buildUp_eq (built : β) (members : List (Spelling × Tree)) :
    buildUp step built members = (named? members).bind fun entries =>
      entries.foldlM (fun b e => step b e.1 e.2) built := by
  rw [named?, ← foldlM_of_bind, buildUp]
  congr 1
  funext b ⟨name, T⟩
  cases hname : name.value? <;> simp [hname]

/-- An object builds up what its members do in turn, when each visit of a member does its step. -/
theorem readMembers_sees {members : List (Spelling × Tree)}
    (hcheck : ∀ name b T cause, check name b = some cause → step b name T = none)
    (hvisit : ∀ m ∈ members, ∀ name b, check name b = none →
      Sees (visit name b) m.2.tokens (step b name m.2))
    {fuel : Nat} (hfuel : members.length < fuel) {first : Bool} {built : β} {more : List Bytes}
    {bytes : Bytes} (hbytes : Spread (membersFrom first members ++ more) bytes) :
    Gives (buildUp step built members) (membersFrom true [] ++ more)
      (readMembers check visit fuel first built bytes) := by
  -- each member costs one unit of fuel, which stays greater than the number of those left
  induction members generalizing fuel first built bytes with
  | nil =>
      obtain _ | fuel := fuel
      · cases hfuel
      obtain ⟨rest, hskip, hrest⟩ := closeObject_skipSpaces hbytes
      refine ⟨skipSpaces bytes, ?_, ?_⟩
      · rw [readMembers, nextKey_close hbytes]
      · rw [hskip]
        exact .of_append [closeObject] hrest
  | cons m members ih =>
      obtain ⟨name, T⟩ := m
      obtain _ | fuel := fuel
      · cases hfuel
      obtain ⟨after, hkey, hafter⟩ := nextKey_inner hbytes
      have htext : Gives name.value? ([colon] :: (T.tokens ++ (membersFrom false members ++ more)))
          (readText (name.inner ++ after)) :=
        gives_of_toOption (readText_inner name after) hafter
      rw [buildUp, List.foldlM_cons, readMembers, hkey]
      refine htext.elim (fun fault => gives_error) fun text after hafter => ?_
      obtain ⟨rest, hcolon, hrest⟩ := readColon_colon hafter
      simp only [Except.map, Option.bind_some]
      cases hrepeats : check text built with
      | some cause => exact .of_eq_none (by simp [hcheck _ _ _ _ hrepeats]) rfl
      | none =>
          have hvalue := hvisit (name, T) (by simp) text built hrepeats _ rest
            (follows_membersFrom members more) hrest
          simp only [hcolon]
          exact hvalue.elim (fun fault => gives_error) fun built' left hleft =>
            ih (fun m hm => hvisit m (by simp [hm])) (Nat.lt_of_succ_lt_succ hfuel) hleft

end

end WalletBridge.Json
