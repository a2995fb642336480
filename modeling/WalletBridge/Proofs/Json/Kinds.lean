import WalletBridge.Proofs.Json.Exact

/-! # Numbers in records told apart by a tag

A record with a tag is kept as a value before its members are taken. What is kept of
a frame around a number is a frame around what this number was read as, so that the
record is as exact as its variant is in the values that it takes. As a list the
record has its tag first, and then its members at their positions.
-/

namespace WalletBridge.Json

open Text

/-! ## What is kept of a frame -/

theorem mapM_bind_mapM {f : α → Option β} {g : β → Option γ} (l : List α) :
    (l.mapM f).bind (fun l' => l'.mapM g) = l.mapM fun a => (f a).bind g := by
  induction l with
  | nil => rfl
  | cons a l ih =>
      rw [List.mapM_cons, List.mapM_cons, ← ih]
      cases f a with
      | none => rfl
      | some b =>
          cases hrest : l.mapM f with
          | none =>
              show none = (g b).bind _
              cases g b <;> rfl
          | some l' =>
              show (b :: l').mapM g = (g b).bind _
              rw [List.mapM_cons]
              rfl

theorem valued?_eq (look : Tree → Option Json) (members : List (Spelling × Tree)) :
    valued? look members =
      members.mapM fun m => m.1.value?.bind fun name => (look m.2).map (name, ·) := by
  unfold valued? named?
  rw [mapM_bind_mapM]
  congr 1
  funext m
  show (m.1.value?.map (·, m.2)).bind _ = _
  cases m.1.value? <;> rfl

theorem valued?_around (look : Tree → Option Json) (before after : List (Spelling × Tree))
    {label : Spelling} {name : String} (h : label.value? = some name) :
    ∃ rest : Option (List (String × Json) × List (String × Json)),
      (∀ r ∈ rest, ∀ e ∈ r.1 ++ r.2, ∃ m ∈ before ++ after,
        m.1.value? = some e.1 ∧ look m.2 = some e.2) ∧
      ∀ T, valued? look (before ++ (label, T) :: after) =
        (look T).bind fun v => rest.map fun r => r.1 ++ (name, v) :: r.2 := by
  obtain ⟨rest, haround, hrest⟩ := mapM_around
    (fun m : Spelling × Tree => m.1.value?.bind fun name => (look m.2).map (name, ·)) before after
  have hmember : ∀ (m : Spelling × Tree) (e : String × Json),
      (m.1.value?.bind fun name => (look m.2).map (name, ·)) = some e →
        m.1.value? = some e.1 ∧ look m.2 = some e.2 := by
    intro m e he
    obtain ⟨text, htext, hvalue⟩ := Option.bind_eq_some_iff.mp he
    obtain ⟨v, hv, rfl⟩ := Option.map_eq_some_iff.mp hvalue
    exact ⟨htext, hv⟩
  refine ⟨rest, ?_, ?_⟩
  · intro r hr e he
    obtain ⟨hfront, hback⟩ := haround r hr
    cases List.mem_append.mp he with
    | inl hmem =>
        obtain ⟨m, hm, hfound⟩ := exists_of_mem_mapM hfront hmem
        exact ⟨m, List.mem_append_left after hm, hmember m e hfound⟩
    | inr hmem =>
        obtain ⟨m, hm, hfound⟩ := exists_of_mem_mapM hback hmem
        exact ⟨m, List.mem_append_right before hm, hmember m e hfound⟩
  · intro T
    rw [valued?_eq, hrest, h]
    cases look T <;> rfl

/-- What is kept of the values, if anything is, has in the place what their number was read as. -/
def KeptAt (place : List Spot) (value? : Numeral → Option Json) : Prop :=
  ∃ kept : Option (Num → Json), (∀ f ∈ kept, Medium.kept.Frame place f) ∧
    ∀ n, value? n = n.value?.bind fun v => kept.map (· v)

theorem KeptAt.of_none {place : List Spot} {value? : Numeral → Option Json}
    (h : ∀ n, value? n = none) : KeptAt place value? := by
  refine ⟨none, by simp, ?_⟩
  intro n
  rw [h]
  cases n.value? <;> rfl

theorem KeptAt.around {place place' : List Spot} {value? : Numeral → Option Json}
    (h : KeptAt place value?) (rest : Option γ) (wrap : γ → Json → Json)
    (hframe : ∀ r ∈ rest, ∀ f, Medium.kept.Frame place f →
      Medium.kept.Frame place' fun v => wrap r (f v)) :
    KeptAt place' fun n => (value? n).bind fun v => rest.map fun r => wrap r v := by
  obtain ⟨inner, hinner, hvalue⟩ := h
  refine ⟨inner.bind fun f => rest.map fun r v => wrap r (f v), ?_, ?_⟩
  · intro f hf
    obtain ⟨g, hg, hwhole⟩ := Option.bind_eq_some_iff.mp hf
    obtain ⟨r, hr, rfl⟩ := Option.map_eq_some_iff.mp hwhole
    exact hframe r hr g (hinner g hg)
  · intro n
    dsimp only
    rw [hvalue]
    cases n.value? with
    | none => rfl
    | some v =>
        cases inner with
        | none => rfl
        | some f => cases rest <;> rfl

theorem KeptAt.list {place place' : List Spot} {frame : Numeral → Tree} {depth : Nat}
    (h : KeptAt place fun n => (frame n).value? depth) (before after : List Tree)
    (hframe : ∀ (front back : List Json) f, front.length = before.length →
      Medium.kept.Frame place f → Medium.kept.Frame place' fun v => .list (front ++ f v :: back)) :
    KeptAt place' fun n => ((before ++ frame n :: after).mapM (Tree.value? depth)).map .list := by
  obtain ⟨rest, haround, hrest⟩ := mapM_around (Tree.value? depth) before after
  have hwhole := h.around rest (fun r v => Json.list (r.1 ++ v :: r.2)) fun r hr f hf =>
    hframe r.1 r.2 f (length_of_mapM (haround r hr).1) hf
  simpa only [hrest, Option.map_bind, Option.map_map, Function.comp_def] using hwhole

theorem Medium.Frame.keptAt {place : List Spot} {frame : Medium.shown.Number → Medium.shown.Value}
    (h : Medium.shown.Frame place frame) (depth : Nat) :
    KeptAt place fun n => Tree.value? depth (frame n) := by
  induction h generalizing depth with
  | here =>
      cases depth with
      | zero => exact .of_none fun _ => rfl
      | succ depth =>
          refine ⟨some .number, ?_, ?_⟩
          · intro f hf
            cases hf
            exact .here
          · intro n
            show n.value?.map Json.number = n.value?.bind _
            cases n.value? <;> rfl
  | @named before after label name position place frame hname hframe ih =>
      obtain _ | _ | depth := depth
      · exact .of_none fun _ => rfl
      · exact .of_none fun _ => rfl
      · obtain ⟨rest, -, hrest⟩ := valued?_around (Tree.value? (depth + 1)) before after hname
        have hobject : ∀ r ∈ rest, ∀ f, Medium.kept.Frame place f →
            Medium.kept.Frame (.member name position :: place)
              fun v => Json.object (r.1 ++ (name, f v) :: r.2) :=
          fun _ _ _ hf => .named rfl hf
        have hwhole := (ih (depth + 1)).around rest
          (fun r v => Json.object (r.1 ++ (name, v) :: r.2)) hobject
        show KeptAt _ fun n => (valued? (Tree.value? (depth + 1)) _).map Json.object
        simpa only [hrest, Option.map_bind, Option.map_map, Function.comp_def] using hwhole
  | @placed before after name position place frame hposition hframe ih =>
      obtain _ | _ | depth := depth
      · exact .of_none fun _ => rfl
      · exact .of_none fun _ => rfl
      · exact (ih (depth + 1)).list before after fun front back f hlength hf =>
          .placed (hlength.trans hposition) hf
  | @item before after index place frame hindex hframe ih =>
      obtain _ | _ | depth := depth
      · exact .of_none fun _ => rfl
      · exact .of_none fun _ => rfl
      · exact (ih (depth + 1)).list before after fun front back f hlength hf =>
          .item (hlength.trans hindex) hf

namespace Tagged

variable {tagged : Tagged α} {depth : Nat}

/-! ## Lists -/

theorem readRest_gives {fuel : Nat} {items : List Tree} (hfuel : items.length < fuel)
    (read : List Json) {more : List Bytes} {bytes : Bytes}
    (hbytes : Spread (itemsFrom false items ++ more) bytes) :
    Gives ((items.mapM (Tree.value? depth)).map (read.reverse ++ ·)) (itemsFrom false [] ++ more)
      (readList.readRest depth fuel read bytes) := by
  induction items generalizing read bytes fuel with
  | nil =>
      obtain _ | fuel := fuel
      · cases hfuel
      refine ⟨bytes, ?_, hbytes⟩
      rw [readList.readRest, nextItem_close hbytes]
      simp [bind, Except.bind, pure, Except.pure]
  | cons T items ih =>
      obtain _ | fuel := fuel
      · cases hfuel
      obtain ⟨rest, hnext, hrest⟩ := nextItem_item hbytes
      have hvalue := readJson_sees depth T _ rest (follows_itemsFrom items more) hrest
      rw [readList.readRest, hnext]
      have hitems : ((T :: items).mapM (Tree.value? depth)).map (read.reverse ++ ·) =
          (T.value? depth).bind fun v =>
            (items.mapM (Tree.value? depth)).map ((v :: read).reverse ++ ·) := by
        rw [List.mapM_cons]
        cases T.value? depth with
        | none => rfl
        | some v =>
            cases items.mapM (Tree.value? depth) <;> simp
      rw [hitems]
      apply hvalue.bind
      intro v after hafter
      exact ih (Nat.lt_of_succ_lt_succ hfuel) (v :: read) hafter

theorem readList_sees (kind : Tree) (items : List Tree) :
    Sees (tagged.readList depth) (Tree.itemTokens (kind :: items))
      ((kind.text?.bind fun text => (chooseName tagged.names text).toOption).bind fun variant =>
        (items.mapM (Tree.value? depth)).map fun values => (variant, .list values)) := by
  intro more bytes hmore hbytes
  have hspread : Spread (itemsFrom true (kind :: items) ++ more) bytes := hbytes
  obtain ⟨rest, hnext, hrest⟩ := nextItem_item hspread
  have hkind := readName_sees tagged.names kind _ rest (follows_itemsFrom items more) hrest
  rw [readList, hnext]
  apply hkind.bind
  intro variant after hafter
  have hlength := items_length_le hafter
  have hread : Gives ((items.mapM (Tree.value? depth)).map ([].reverse ++ ·)) _ _ :=
    readRest_gives (Nat.lt_succ_of_le hlength) [] hafter
  have hvalues : ((items.mapM (Tree.value? depth)).map fun values =>
      (variant, Json.list values)) = ((items.mapM (Tree.value? depth)).map ([].reverse ++ ·)).bind
        fun values => some (variant, .list values) := by
    cases items.mapM (Tree.value? depth) <;> rfl
  rw [hvalues]
  apply hread.bind
  intro values left hleft
  obtain ⟨last, hend, hlast⟩ := endList_close hleft
  exact ⟨last, by simp [bind, Except.bind, hend, pure, Except.pure], hlast⟩

/-- What a list is read as before its record is taken: the variant, and the other items. -/
def listed? (tagged : Tagged α) (depth : Nat) (kind : Tree) (items : List Tree) :
    Option (Variant α × Json) :=
  if depth ≤ 1 then none else
    (kind.text?.bind fun text => (chooseName tagged.names text).toOption).bind fun variant =>
      (items.mapM (Tree.value? (depth - 1))).map fun values => (variant, .list values)

theorem codec_sees_list (kind : Tree) (items : List Tree) :
    Sees (tagged.codec.read depth) (Tree.list (kind :: items)).tokens
      ((tagged.listed? depth kind items).bind fun found => (found.1.take found.2).toOption) := by
  intro more bytes hmore hbytes
  obtain ⟨rest, hskip, hrest⟩ := Spread.byte hbytes rfl
  have hlist : Gives (tagged.listed? depth kind items) more
      (enter depth (openList :: rest) tagged.readList) :=
    gives_enter rfl fun _ => readList_sees kind items more rest hmore hrest
  simp only [codec, hskip]
  apply hlist.bind
  intro found after hafter
  dsimp only
  cases found.1.take found.2 with
  | error cause => exact gives_error
  | ok a => exact ⟨after, by simp only [pure, Except.pure], hafter⟩

/-! ## Frames of a kind -/

theorem mem_of_only? {l : List β} {b : β} (h : only? l = some b) : b ∈ l := by
  match l, h with
  | [_], h =>
      cases h
      exact List.mem_cons_self

/-- The members of an object besides one that is no tag. -/
theorem filter_around {name : String} (v : Json) (front back : List (String × Json))
    {p : String × Json → Bool} :
    (front ++ (name, v) :: back).filter p =
      if p (name, v) then front.filter p ++ (name, v) :: back.filter p
      else (front ++ back).filter p := by
  rw [List.filter_append, List.filter_append, List.filter_cons]
  split <;> rfl

/-- What is taken of an object is what its variant takes of the members besides the tag. -/
theorem take_around {tag name : String} {variant : Variant α}
    (hchoose : chooseName tagged.names tag = .ok variant) (hname : name ≠ tagged.tagName)
    {front back : List (String × Json)}
    (htags : ∀ e ∈ front ++ back, e.1 = tagged.tagName → e.2 = .text tag) (v : Json) :
    (tagged.codec.take (.object (front ++ (name, v) :: back))).toOption =
      (only? ((front ++ back).filter (·.1 == tagged.tagName))).bind fun _ =>
        (variant.take (.object (front.filter (·.1 != tagged.tagName) ++
          (name, v) :: back.filter (·.1 != tagged.tagName)))).toOption := by
  rw [take_object, filter_around, filter_around]
  simp only [beq_iff_eq, hname, bne_iff_ne, ne_eq, not_false_eq_true, if_true, if_false]
  cases htag : only? ((front ++ back).filter (·.1 == tagged.tagName)) with
  | none => rfl
  | some e =>
      obtain ⟨he, htagged⟩ := List.mem_filter.mp (mem_of_only? htag)
      have hvalue := htags e he (by simpa using htagged)
      rw [Option.bind_some, Option.bind_some, hvalue]
      show (chooseName tagged.names tag).toOption.bind _ = _
      rw [hchoose]
      rfl

end Tagged

/-- A record of a kind that has a number at the place: an object whose tags are all that of the
kind, or a list with the tag before the members. -/
inductive Tree.Kinded (tagName tag : String) : List Spot → (Numeral → Tree) → Prop
  | object {before after : List (Spelling × Tree)} {label : Spelling} {name : String}
      {position : Nat} {place : List Spot} {frame : Numeral → Tree}
      (hname : label.value? = some name)
      (htags : ∀ m ∈ before ++ after, m.1.value? = some tagName → m.2.text? = some tag)
      (h : Medium.shown.Frame place frame) :
      Kinded tagName tag (.member name position :: place)
        fun n => .object (before ++ (label, frame n) :: after)
  | list {kind : Tree} {before after : List Tree} {name : String} {position : Nat}
      {place : List Spot} {frame : Numeral → Tree} (hkind : kind.text? = some tag)
      (hposition : before.length = position) (h : Medium.shown.Frame place frame) :
      Kinded tagName tag (.member name position :: place)
        fun n => .list (kind :: (before ++ frame n :: after))

theorem Tree.value?_text {T : Tree} {text : String} (h : T.text? = some text) (depth : Nat) :
    T.value? (depth + 1) = some (.text text) := by
  cases T with
  | text s =>
      show s.value?.map Json.text = _
      have hvalue : s.value? = some text := h
      rw [hvalue]
      rfl
  | _ => cases h

namespace Tagged

variable {tagged : Tagged α} {tag name : String} {variant : Variant α} {position : Nat}
variable {place : List Spot} {frame : Numeral → Tree}

/-- Nothing is taken of an object, unless it has its tag just once. -/
theorem reads_object_around (hchoose : chooseName tagged.names tag = .ok variant)
    (hname : name ≠ tagged.tagName) {before after : List (Spelling × Tree)} {label : Spelling}
    (hlabel : label.value? = some name)
    (htags : ∀ m ∈ before ++ after, m.1.value? = some tagged.tagName → m.2.text? = some tag)
    (hframe : Medium.shown.Frame place frame) (depth : Nat) :
    ∃ value?, KeptAt (.member name position :: place) value? ∧
      ∀ n, outcome (tagged.codec.read depth) (.object (before ++ (label, frame n) :: after)) =
        (value? n).bind fun v => (variant.take v).toOption := by
  have hread : ∀ n, outcome (tagged.codec.read depth)
      (.object (before ++ (label, frame n) :: after)) =
        ((Tree.object (before ++ (label, frame n) :: after)).value? depth).bind
          fun v => (tagged.codec.take v).toOption :=
    fun n => (codec_sees_object _).outcome_eq
  obtain _ | _ | depth := depth
  · exact ⟨fun _ => none, .of_none fun _ => rfl, hread⟩
  · exact ⟨fun _ => none, .of_none fun _ => rfl, hread⟩
  · obtain ⟨rest, haround, hrest⟩ :=
      valued?_around (Tree.value? (depth + 1)) before after hlabel
    have htexts : ∀ r ∈ rest, ∀ e ∈ r.1 ++ r.2, e.1 = tagged.tagName → e.2 = .text tag := by
      intro r hr e he htag
      obtain ⟨m, hm, hmname, hvalue⟩ := haround r hr e he
      rw [htag] at hmname
      rw [Tree.value?_text (htags m hm hmname)] at hvalue
      exact (Option.some.inj hvalue).symm
    have hmember : ∀ (front back : List (String × Json)) (f : Num → Json),
        Medium.kept.Frame place f → Medium.kept.Frame (.member name position :: place)
          fun v => .object (front ++ (name, f v) :: back) :=
      fun _ _ _ hf => .named rfl hf
    have hkept := (hframe.keptAt (depth + 1)).around
      (rest.bind fun r => (only? ((r.1 ++ r.2).filter (·.1 == tagged.tagName))).map fun _ => r)
      (fun r v => Json.object (r.1.filter (·.1 != tagged.tagName) ++
        (name, v) :: r.2.filter (·.1 != tagged.tagName)))
      fun r _ f hf => hmember _ _ f hf
    refine ⟨_, hkept, ?_⟩
    intro n
    rw [hread]
    show ((valued? (Tree.value? (depth + 1)) (before ++ (label, frame n) :: after)).map
      Json.object).bind _ = _
    rw [hrest]
    cases (frame n).value? (depth + 1) with
    | none => rfl
    | some v =>
        cases rest with
        | none => rfl
        | some r =>
            show (tagged.codec.take (.object (r.1 ++ (name, v) :: r.2))).toOption = _
            rw [take_around hchoose hname (htexts r rfl)]
            simp only [Option.bind_some]
            cases only? ((r.1 ++ r.2).filter (·.1 == tagged.tagName)) <;> rfl

theorem reads_list_around (hchoose : chooseName tagged.names tag = .ok variant) {kind : Tree}
    {before after : List Tree} (hkind : kind.text? = some tag)
    (hposition : before.length = position)
    (hframe : Medium.shown.Frame place frame) (depth : Nat) :
    ∃ value?, KeptAt (.member name position :: place) value? ∧
      ∀ n, outcome (tagged.codec.read depth) (.list (kind :: (before ++ frame n :: after))) =
        (value? n).bind fun v => (variant.take v).toOption := by
  have hread : ∀ n, outcome (tagged.codec.read depth)
      (.list (kind :: (before ++ frame n :: after))) =
        (tagged.listed? depth kind (before ++ frame n :: after)).bind
          fun found => (found.1.take found.2).toOption :=
    fun n => (codec_sees_list kind _).outcome_eq
  by_cases hshallow : depth ≤ 1
  · refine ⟨fun _ => none, .of_none fun _ => rfl, ?_⟩
    intro n
    rw [hread, listed?, if_pos hshallow]
    rfl
  · have hitem : ∀ (front back : List Json) (f : Num → Json), front.length = before.length →
        Medium.kept.Frame place f → Medium.kept.Frame (.member name position :: place)
          fun v => .list (front ++ f v :: back) :=
      fun _ _ _ hlength hf => .placed (hlength.trans hposition) hf
    have hvariant : (kind.text?.bind fun text => (chooseName tagged.names text).toOption) =
        some variant := by
      rw [hkind, Option.bind_some, hchoose]
      rfl
    refine ⟨_, (hframe.keptAt (depth - 1)).list before after hitem, ?_⟩
    intro n
    rw [hread, listed?, if_neg hshallow, hvariant, Option.bind_some]
    cases (before ++ frame n :: after).mapM (Tree.value? (depth - 1)) <;> rfl

theorem reads_kinded (hchoose : chooseName tagged.names tag = .ok variant)
    (hname : name ≠ tagged.tagName)
    (h : Tree.Kinded tagged.tagName tag (.member name position :: place) frame) (depth : Nat) :
    ∃ value?, KeptAt (.member name position :: place) value? ∧
      ∀ n, outcome (tagged.codec.read depth) (frame n) =
        (value? n).bind fun v => (variant.take v).toOption := by
  cases h with
  | object hlabel htags hframe =>
      exact reads_object_around hchoose hname hlabel htags hframe depth
  | list hkind hposition hframe => exact reads_list_around hchoose hkind hposition hframe depth

end Tagged

/-! ## Slots of variants -/

namespace Slot

def inVariant (s : Slot ρ) (make : ρ → α) (part? : α → Option ρ) : Slot α where
  place := s.place
  range := s.range
  get a := (part? a).bind s.get
  set k a :=
    match part? a with
    | some r => make (s.set k r)
    | none => a

def Besides (s : Slot ρ) (tagName : String) : Prop :=
  ∃ name position place, s.place = .member name position :: place ∧ name ≠ tagName

@[simp] theorem inMember_besides {s : Slot α} {name tagName : String} {position : Nat}
    {part : ρ → α} {put : α → ρ → ρ} :
    (s.inMember name position part put).Besides tagName ↔ name ≠ tagName := by
  constructor
  · intro ⟨_, _, _, hplace, hname⟩
    cases hplace
    exact hname
  · intro hname
    exact ⟨name, position, s.place, rfl, hname⟩

variable {s : Slot ρ}

theorem Makes.inVariant {f : Int → ρ} (h : s.Makes f) {make : ρ → α} {part? : α → Option ρ}
    (hpart : ∀ r, part? (make r) = some r) :
    (s.inVariant make part?).Makes fun k => make (f k) where
  get k hk := by
    show (part? (make (f k))).bind s.get = some k
    rw [hpart, Option.bind_some, h.get k hk]
  set j k := by
    show (match part? (make (f k)) with
      | some r => make (s.set j r)
      | none => make (f k)) = make (f j)
    rw [hpart]
    exact congrArg make (h.set j k)

theorem Exact.of_kept {look : Json → Option ρ}
    (h : s.Exact (Medium.kept.Frame s.place) s.range.of? look) (hrange : s.range.Machine)
    {value? : Numeral → Option Json} (hkept : KeptAt s.place value?) :
    ∃ make : Option (Int → ρ), (∀ f ∈ make, s.Makes f) ∧
      ∀ n, (value? n).bind look = (n.within s.range).bind fun k => make.map (· k) := by
  obtain ⟨kept, hframe, hvalue⟩ := hkept
  cases kept with
  | none =>
      refine ⟨none, by simp, ?_⟩
      intro n
      rw [hvalue]
      cases n.value? <;> cases n.within s.range <;> rfl
  | some frame =>
      obtain ⟨make, hmakes, hlook⟩ := h frame (hframe frame rfl)
      refine ⟨make, hmakes, ?_⟩
      intro n
      rw [hvalue, ← Numeral.value?_bind_of? hrange]
      cases n.value? with
      | none => rfl
      | some v => exact hlook v

end Slot

namespace Tagged

variable {tagged : Tagged α} {s : Slot ρ}

theorem reads_exact {tag : String} {shape : Shape ρ} {make : ρ → α} {part? : α → Option ρ}
    (h : shape.codec.Exact s)
    (hchoose : chooseName tagged.names tag = .ok (.ofShape tag shape make))
    (hbesides : s.Besides tagged.tagName) (hpart : ∀ r, part? (make r) = some r) (depth : Nat) :
    (s.inVariant make part?).Exact (Tree.Kinded tagged.tagName tag s.place)
      (Numeral.within s.range) (outcome (tagged.codec.read depth)) := by
  obtain ⟨name, position, place, hplace, hname⟩ := hbesides
  intro frame hframe
  rw [hplace] at hframe
  obtain ⟨value?, hkept, hread⟩ := reads_kinded hchoose hname hframe depth
  rw [← hplace] at hkept
  obtain ⟨build, hmakes, htake⟩ := h.takes.of_kept h.machine hkept
  refine ⟨build.map fun f k => make (f k), ?_, ?_⟩
  · intro f hf
    obtain ⟨g, hg, rfl⟩ := Option.map_eq_some_iff.mp hf
    exact (hmakes g hg).inVariant hpart
  · intro n
    have hvariant : ∀ v, ((Variant.ofShape tag shape make).take v).toOption =
        (shape.codec.take v).toOption.map make := fun v => toOption_map (shape.take v) make
    have hrecord : ((value? n).bind fun v => ((Variant.ofShape tag shape make).take v).toOption) =
        ((value? n).bind fun v => (shape.codec.take v).toOption).map make := by
      cases value? n with
      | none => rfl
      | some v => exact hvariant v
    rw [hread, hrecord, htake]
    cases n.within s.range with
    | none => rfl
    | some k => cases build <;> rfl

end Tagged

end WalletBridge.Json
