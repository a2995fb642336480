import WalletBridge.Proofs.Json.Codecs
import WalletBridge.Proofs.Json.Kinds

/-! # What is written is a tree

The bytes that are written of a value are the tokens of a tree without any blanks.
So a number in a value stands, in what is written of it, in a frame of its place.
-/

namespace WalletBridge.Json

open Text

/-! ## Texts and numbers -/

theorem isHexDigit_of_hexValue? {b : UInt8} {d : Nat} (h : hexValue? b = some d) :
    IsHexDigit b := by
  unfold hexValue? at h
  split at h
  · rename_i hrange
    exact .inl (by simpa using hrange)
  · split at h
    · rename_i hrange
      exact .inr (.inr (by simpa using hrange))
    · split at h
      · rename_i hrange
        exact .inr (.inl (by simpa using hrange))
      · cases h

theorem exists_plain {bytes : Bytes} (h : ∀ b ∈ bytes, Plain b) :
    ∃ s : Spelling, s.flatMap Piece.bytes = bytes := by
  induction bytes with
  | nil => exact ⟨[], rfl⟩
  | cons b bytes ih =>
      obtain ⟨s, hs⟩ := ih fun b' hb' => h b' (by simp [hb'])
      exact ⟨.plain b (h b (by simp)) :: s, congrArg (b :: ·) hs⟩

theorem textChar_spelled (c : Char) :
    ∃ s : Spelling, s.flatMap Piece.bytes = spell (Json.textChar c) := by
  rcases textChar_cases c with ⟨letter, h⟩ | ⟨hcontrol, hwritten⟩ | ⟨hwritten, hplain⟩
  · have hletter : ∃ b, b ∈ [0x22, 0x5C, 0x2F, 0x62, 0x66, 0x6E, 0x72, 0x74] ∧
        spell (Json.textChar c) = [backslash, b] := by
      simp only [shortEscapes, List.mem_cons, Prod.mk.injEq, List.not_mem_nil, or_false] at h
      rcases h with ⟨rfl, -⟩ | ⟨rfl, -⟩ | ⟨rfl, -⟩ | ⟨rfl, -⟩ | ⟨rfl, -⟩ | ⟨rfl, -⟩ | ⟨rfl, -⟩ <;>
        exact ⟨_, by decide, rfl⟩
    obtain ⟨b, hb, hbytes⟩ := hletter
    exact ⟨[.escape b hb], hbytes.symm⟩
  · obtain ⟨high, low, hspell, hhigh, hlow⟩ := spell_control hcontrol
    have hzero : IsHexDigit 0x30 := .inl (by decide)
    rw [hwritten, hspell]
    exact ⟨[.hex 0x30 0x30 high low ⟨hzero, hzero, isHexDigit_of_hexValue? hhigh,
      isHexDigit_of_hexValue? hlow⟩], rfl⟩
  · rw [hwritten]
    exact exists_plain hplain

theorem textChars_spelled (cs : List Char) :
    ∃ s : Spelling, s.flatMap Piece.bytes = spell (cs.flatMap Json.textChar) := by
  induction cs with
  | nil => exact ⟨[], rfl⟩
  | cons c cs ih =>
      obtain ⟨first, hfirst⟩ := textChar_spelled c
      obtain ⟨more, hmore⟩ := ih
      refine ⟨first ++ more, ?_⟩
      rw [List.flatMap_append, hfirst, hmore, List.flatMap_cons, spell_append]

theorem Spelling.exists_written (text : String) :
    ∃ s : Spelling, s.token = spell (Json.textChars text) ∧ s.value? = some text := by
  obtain ⟨s, hs⟩ := textChars_spelled text.toList
  have hinner : s.inner = spell (text.toList.flatMap Json.textChar ++ ['"']) := by
    rw [inner, hs, spell_append]
    rfl
  have hread := readText_inner s []
  rw [hinner, readText_written text []] at hread
  refine ⟨s, ?_, ?_⟩
  · rw [token, hinner]
    rfl
  · cases hvalue : s.value? with
    | none =>
        rw [hvalue] at hread
        cases hread
    | some text' =>
        rw [hvalue] at hread
        cases hread
        rfl

/-- The digits of a number are the whole part of a literal. -/
theorem Numeral.exists_decimal {m : Nat} (h : m ≤ greatest64) (negative : Bool) :
    ∃ n : Numeral, n.negative = negative ∧ n.size = spell (decimalChars m) := by
  obtain ⟨b, digits, hspell, hb, hdigits, hzero, -⟩ := decimalChars_digits h
  have hwhole : IsDigits (b :: digits) := by
    refine ⟨by simp, ?_⟩
    intro d hd
    cases List.mem_cons.mp hd with
    | inl heq => rwa [heq]
    | inr hmem => exact hdigits d hmem
  have hlead : (b :: digits).head? = some 0x30 → b :: digits = [0x30] := by
    intro hhead
    have hb : b = 0x30 := Option.some.inj hhead
    rw [hb, (hzero hb).2]
  refine ⟨plain negative (b :: digits) hwhole hlead, rfl, ?_⟩
  rw [hspell]
  exact List.append_nil _

theorem Numeral.exists_written {k : Int} (hlow : -2 ^ 63 ≤ k) (hhigh : k ≤ 2 ^ 64 - 1) :
    ∃ n : Numeral, n.token = bytesOf (.number (.whole k)) := by
  cases k with
  | ofNat m =>
      have hm : m ≤ greatest64 := by
        have : (m : Int) ≤ 2 ^ 64 - 1 := hhigh
        unfold greatest64
        omega
      obtain ⟨n, hsign, hsize⟩ := exists_decimal hm false
      refine ⟨n, ?_⟩
      rw [token, hsign, hsize]
      simp [bytesOf, Json.compactChars, Json.numberChars, signedDecimal, decimal]
  | negSucc m =>
      have hm : m + 1 ≤ greatest64 := by
        have : Int.negSucc m = -((m : Int) + 1) := rfl
        unfold greatest64
        omega
      obtain ⟨n, hsign, hsize⟩ := exists_decimal hm true
      refine ⟨n, ?_⟩
      rw [token, hsign, hsize]
      simp [bytesOf, Json.compactChars, Json.numberChars, signedDecimal, decimal]
      rfl

/-! ## Values -/

def Tree.Writes (T : Tree) (v : Json) : Prop := T.plain = bytesOf v

def MemberWrites (m : Spelling × Tree) (e : String × Json) : Prop :=
  (m.1.token = spell (Json.textChars e.1) ∧ m.1.value? = some e.1) ∧ m.2.Writes e.2

theorem moreItems_written {items : List Tree} {values : List Json}
    (h : List.Forall₂ Tree.Writes items values) :
    (Tree.moreItems items).flatten = spell (tailItems values) := by
  induction h with
  | nil => rfl
  | @cons T v items values hvalue _ ih =>
      have hplain : T.tokens.flatten = spell v.compactChars := hvalue
      rw [Tree.moreItems, List.flatten_cons, List.flatten_append, hplain, ih, tailItems,
        itemChars_cons, spell_cons, spell_append]
      rfl

theorem Tree.writes_list {items : List Tree} {values : List Json}
    (h : List.Forall₂ Tree.Writes items values) : (Tree.list items).Writes (.list values) := by
  have htokens : (Tree.itemTokens items).flatten = spell (Json.itemChars values) := by
    cases h with
    | nil => rfl
    | @cons T v items values hvalue hrest =>
        have hplain : T.tokens.flatten = spell v.compactChars := hvalue
        rw [Tree.itemTokens, List.flatten_append, hplain, moreItems_written hrest, itemChars_cons,
          spell_append]
  show [openList] ++ (Tree.itemTokens items).flatten = _
  rw [htokens]
  rfl

theorem moreMembers_written {members : List (Spelling × Tree)} {entries : List (String × Json)}
    (h : List.Forall₂ MemberWrites members entries) :
    (Tree.moreMembers members).flatten = spell (tailMembers entries) := by
  induction h with
  | nil => rfl
  | @cons m e members entries hmember _ ih =>
      obtain ⟨name, T⟩ := m
      obtain ⟨text, v⟩ := e
      obtain ⟨⟨hname, -⟩, hvalue⟩ := hmember
      have hplain : T.tokens.flatten = spell v.compactChars := hvalue
      have htoken : name.token = spell (Json.textChars text) := hname
      rw [Tree.moreMembers, List.flatten_cons, List.flatten_cons, List.flatten_cons,
        List.flatten_append, hplain, htoken, ih, tailMembers, memberChars_cons, spell_cons,
        spell_append, spell_cons, spell_append]
      rfl

theorem Tree.writes_object {members : List (Spelling × Tree)} {entries : List (String × Json)}
    (h : List.Forall₂ MemberWrites members entries) :
    (Tree.object members).Writes (.object entries) := by
  have htokens : (Tree.memberTokens members).flatten = spell (Json.memberChars entries) := by
    cases h with
    | nil => rfl
    | @cons m e members entries hmember hrest =>
        obtain ⟨name, T⟩ := m
        obtain ⟨text, v⟩ := e
        obtain ⟨⟨hname, -⟩, hvalue⟩ := hmember
        have hplain : T.tokens.flatten = spell v.compactChars := hvalue
        have htoken : name.token = spell (Json.textChars text) := hname
        rw [Tree.memberTokens, List.flatten_cons, List.flatten_cons, List.flatten_append, hplain,
          htoken, moreMembers_written hrest, memberChars_cons, spell_append, spell_cons,
          spell_append]
        rfl
  show [openObject] ++ (Tree.memberTokens members).flatten = _
  rw [htokens]
  rfl

theorem exists_forall₂ {R : β → γ → Prop} {l : List γ} (h : ∀ c ∈ l, ∃ b, R b c) :
    ∃ l', List.Forall₂ R l' l := by
  induction l with
  | nil => exact ⟨[], .nil⟩
  | cons c l ih =>
      obtain ⟨b, hb⟩ := h c (by simp)
      obtain ⟨l', hl'⟩ := ih fun c' hc' => h c' (by simp [hc'])
      exact ⟨b :: l', .cons hb hl'⟩

theorem exists_members {entries : List (String × Json)}
    (h : ∀ e ∈ entries, ∃ T : Tree, T.Writes e.2) :
    ∃ members, List.Forall₂ MemberWrites members entries := by
  apply exists_forall₂
  intro e he
  obtain ⟨name, hname⟩ := Spelling.exists_written e.1
  obtain ⟨T, hT⟩ := h e he
  exact ⟨(name, T), hname, hT⟩

theorem Tree.exists_writes {depth : Nat} {v : Json} (h : Fits depth v) :
    ∃ T : Tree, T.Writes v := by
  induction depth generalizing v with
  | zero => exact h.elim
  | succ depth ih =>
      cases v with
      | null => exact ⟨.null, rfl⟩
      | truth b => exact ⟨.truth b, by cases b <;> rfl⟩
      | number v =>
          cases v with
          | real x => exact h.elim
          | whole k =>
              obtain ⟨n, hn⟩ := Numeral.exists_written h.1 h.2
              exact ⟨.number n, (List.append_nil _).trans hn⟩
      | text s =>
          obtain ⟨spelling, htoken, -⟩ := Spelling.exists_written s
          exact ⟨.text spelling, (List.append_nil _).trans htoken⟩
      | list values =>
          obtain ⟨items, hitems⟩ := exists_forall₂ fun v hv => ih (h.2 v hv)
          exact ⟨.list items, writes_list hitems⟩
      | object entries =>
          obtain ⟨members, hmembers⟩ := exists_members fun e he => ih (h.2 e he)
          exact ⟨.object members, writes_object hmembers⟩

/-! ## Frames -/

def WritesIn (frame : Numeral → Tree) (v : Json) : Prop := ∃ n, (frame n).Writes v

theorem exists_members_around {depth : Nat} {name : String} {front back : List (String × Json)}
    {v : Json} {T : Tree} (hfits : ∀ e ∈ front ++ (name, v) :: back, Fits depth e.2)
    (hT : T.Writes v) :
    ∃ before after label, label.value? = some name ∧
      (List.Forall₂ MemberWrites before front ∧ List.Forall₂ MemberWrites after back) ∧
      List.Forall₂ MemberWrites (before ++ (label, T) :: after) (front ++ (name, v) :: back) := by
  obtain ⟨before, hbefore⟩ := exists_members fun e he =>
    Tree.exists_writes (hfits e (List.mem_append_left _ he))
  obtain ⟨after, hafter⟩ := exists_members fun e he =>
    Tree.exists_writes (hfits e (List.mem_append_right _ (List.mem_cons_of_mem _ he)))
  obtain ⟨label, hlabel⟩ := Spelling.exists_written name
  exact ⟨before, after, label, hlabel.2, ⟨hbefore, hafter⟩,
    List.rel_append hbefore (.cons ⟨hlabel, hT⟩ hafter)⟩

theorem WritesIn.list {depth : Nat} {front back : List Json} {v : Json} {frame : Numeral → Tree}
    (hfits : ∀ w ∈ front ++ v :: back, Fits depth w) (h : WritesIn frame v) :
    ∃ before after, before.length = front.length ∧
      WritesIn (fun n => .list (before ++ frame n :: after)) (.list (front ++ v :: back)) := by
  obtain ⟨n, hn⟩ := h
  obtain ⟨before, hbefore⟩ := exists_forall₂ fun w hw =>
    Tree.exists_writes (hfits w (List.mem_append_left _ hw))
  obtain ⟨after, hafter⟩ := exists_forall₂ fun w hw =>
    Tree.exists_writes (hfits w (List.mem_append_right _ (List.mem_cons_of_mem _ hw)))
  refine ⟨before, after, hbefore.length_eq, n, ?_⟩
  exact Tree.writes_list (List.rel_append hbefore (.cons hn hafter))

theorem Medium.Frame.exists_writes {place : List Spot} {f : Medium.kept.Number → Medium.kept.Value}
    (h : Medium.kept.Frame place f) {v : Num} {depth : Nat} (hfits : Fits depth (f v)) :
    ∃ frame, Medium.shown.Frame place frame ∧ WritesIn frame (f v) := by
  induction h generalizing depth with
  | here =>
      cases depth with
      | zero => exact hfits.elim
      | succ depth =>
          cases v with
          | real x => exact hfits.elim
          | whole k =>
              obtain ⟨n, hn⟩ := Numeral.exists_written hfits.1 hfits.2
              exact ⟨.number, .here, n, (List.append_nil _).trans hn⟩
  | @named front back label name position place f hname hframe ih =>
      cases hname
      cases depth with
      | zero => exact hfits.elim
      | succ depth =>
          have hentries := hfits.2
          obtain ⟨frame, hinner, n, hn⟩ := ih (hentries (label, f v) (by simp))
          obtain ⟨before, after, name, hname, -, hmembers⟩ := exists_members_around hentries hn
          exact ⟨_, .named hname hinner, n, Tree.writes_object hmembers⟩
  | @placed front back name position place f hposition hframe ih =>
      cases depth with
      | zero => exact hfits.elim
      | succ depth =>
          have hitems := hfits.2
          obtain ⟨frame, hinner, hwrites⟩ := ih (hitems (f v) (by simp))
          obtain ⟨before, after, hlength, hlist⟩ := hwrites.list hitems
          exact ⟨_, .placed (hlength.trans hposition) hinner, hlist⟩
  | @item front back index place f hindex hframe ih =>
      cases depth with
      | zero => exact hfits.elim
      | succ depth =>
          have hitems := hfits.2
          obtain ⟨frame, hinner, hwrites⟩ := ih (hitems (f v) (by simp))
          obtain ⟨before, after, hlength, hlist⟩ := hwrites.list hitems
          exact ⟨_, .item (hlength.trans hindex) hinner, hlist⟩

/-! ## Records told apart by a tag -/

theorem exists_of_mem_forall₂ {R : β → γ → Prop} {l : List β} {l' : List γ}
    (h : List.Forall₂ R l l') {b : β} (hb : b ∈ l) : ∃ c ∈ l', R b c := by
  induction h with
  | nil => cases hb
  | @cons first first' l l' hfirst _ ih =>
      cases List.mem_cons.mp hb with
      | inl heq => exact ⟨first', List.mem_cons_self, heq ▸ hfirst⟩
      | inr hmem =>
          obtain ⟨c, hc, hR⟩ := ih hmem
          exact ⟨c, List.mem_cons_of_mem first' hc, hR⟩

/-- The tag is written before the other members, none of which has its name. -/
theorem Tagged.exists_kinded_around {tagged : Tagged α} {shape : Shape ρ} {name tag : String}
    {position : Nat} {place : List Spot} {a : α} {r : ρ} {front back : List (String × Json)}
    {f : Num → Json} {v : Num} {depth : Nat} (htagged : tagged.write a = (tag, shape.write r))
    (hwritten : shape.write r = front ++ (name, f v) :: back)
    (hnames : ∀ e ∈ front ++ back, e.1 ≠ tagged.tagName) (hf : Medium.kept.Frame place f)
    (hfits : ∀ e ∈ front ++ (name, f v) :: back, Fits depth e.2) :
    ∃ frame, Tree.Kinded tagged.tagName tag (.member name position :: place) frame ∧
      WritesIn frame (tagged.codec.write a) := by
  obtain ⟨frame, hframe, n, hn⟩ := hf.exists_writes (hfits (name, f v) (by simp))
  obtain ⟨before, after, label, hlabel, ⟨hbefore, hafter⟩, hmembers⟩ :=
    exists_members_around hfits hn
  obtain ⟨tagLabel, htagLabel⟩ := Spelling.exists_written tagged.tagName
  obtain ⟨tagText, htoken, hvalue⟩ := Spelling.exists_written tag
  have htags : ∀ m ∈ ((tagLabel, Tree.text tagText) :: before) ++ after,
      m.1.value? = some tagged.tagName → m.2.text? = some tag := by
    intro m hm hmtag
    have hother : ∀ e ∈ front ++ back, MemberWrites m e → m.2.text? = some tag := by
      intro e he hme
      have hsame : e.1 = tagged.tagName := Option.some.inj (hme.1.2.symm.trans hmtag)
      exact absurd hsame (hnames e he)
    cases List.mem_append.mp hm with
    | inl hfront =>
        cases List.mem_cons.mp hfront with
        | inl heq =>
            rw [heq]
            exact hvalue
        | inr hmem =>
            obtain ⟨e, he, hme⟩ := exists_of_mem_forall₂ hbefore hmem
            exact hother e (List.mem_append_left _ he) hme
    | inr hmem =>
        obtain ⟨e, he, hme⟩ := exists_of_mem_forall₂ hafter hmem
        exact hother e (List.mem_append_right _ he) hme
  have hobject : tagged.codec.write a =
      .object ((tagged.tagName, .text tag) :: (front ++ (name, f v) :: back)) := by
    show Json.object ((tagged.tagName, .text (tagged.write a).1) :: (tagged.write a).2) = _
    rw [htagged, hwritten]
  refine ⟨_, .object hlabel htags hframe, n, ?_⟩
  rw [hobject]
  exact Tree.writes_object (.cons ⟨htagLabel, (List.append_nil _).trans htoken⟩ hmembers)

/-- A record told apart by a tag is written as an object of its kind. -/
theorem Tagged.exists_kinded {tagged : Tagged α} {shape : Shape ρ} {s : Slot ρ} {tag : String}
    {a : α} {r : ρ} {k : Int} {depth : Nat} (htagged : tagged.write a = (tag, shape.write r))
    (h : shape.codec.Exact s) (hbesides : s.Besides tagged.tagName)
    (htag : tagged.tagName ∉ shape.members.map (·.name)) (hk : s.get r = some k)
    (hfits : Fits depth (.object (shape.write r))) :
    ∃ frame, Tree.Kinded tagged.tagName tag s.place frame ∧
      WritesIn frame (tagged.codec.write a) := by
  obtain ⟨name, position, place, hplace, -⟩ := hbesides
  obtain ⟨f, hframe, hobject⟩ := h.writes r k hk
  rw [hplace] at hframe ⊢
  cases hframe with
  | placed => cases hobject
  | @named front back _ _ _ _ f hlabel hf =>
      cases hlabel
      have hwritten : shape.write r = front ++ (name, f (.whole k)) :: back :=
        Json.object.inj hobject
      have hnames : ∀ e ∈ front ++ back, e.1 ≠ tagged.tagName := by
        intro e he heq
        have hmem : e ∈ shape.write r := by
          rw [hwritten]
          cases List.mem_append.mp he with
          | inl hmem => exact List.mem_append_left _ hmem
          | inr hmem => exact List.mem_append_right _ (List.mem_cons_of_mem _ hmem)
        obtain ⟨m, hm, hvalue⟩ := List.mem_filterMap.mp hmem
        obtain ⟨v, -, rfl⟩ := Option.map_eq_some_iff.mp hvalue
        exact htag (List.mem_map.mpr ⟨m, hm, heq⟩)
      rw [hwritten] at hfits
      cases depth with
      | zero => exact hfits.elim
      | succ depth => exact exists_kinded_around htagged hwritten hnames hf hfits.2

end WalletBridge.Json
