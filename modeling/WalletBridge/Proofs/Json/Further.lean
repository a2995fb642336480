import WalletBridge.Proofs.Json.Insensitive

/-! # Further members

A record stays as it was when its object gets a member that the record does not
know, or `null` for a member that it may lack and does. Where the record is told
apart by a tag, the further value is read with the others: it must be a value
itself, within the depth that is left in the object.
-/

namespace WalletBridge.Json

open Text

/-- The member may be lacking, and `null` then does what its lack does. -/
structure Member.MayBeNull (m : Member ρ) (change : ρ → ρ) : Prop where
  lacking : m.lacking = some change
  look : ∀ depth, m.look depth .null = some change
  takes : m.takes .null = some change

section
variable {name : String} {c : Codec α} {get : ρ → Option α} {set : Option α → ρ → ρ}

@[simp] theorem Member.required_name {get : ρ → α} {set : α → ρ → ρ} :
    (required name c get set).name = name := rfl

@[simp] theorem Member.required_lacking {get : ρ → α} {set : α → ρ → ρ} :
    (required name c get set).lacking = none := rfl

@[simp] theorem Member.defaulted_name {value : α} {get : ρ → α} {set : α → ρ → ρ} :
    (defaulted name c value get set).name = name := rfl

@[simp] theorem Member.optional_name : (optional name c get set).name = name := rfl

@[simp] theorem Member.trailing_name : (trailing name c get set).name = name := rfl

@[simp] theorem Member.optional_mayBeNull :
    ∃ change, (optional name c get set).MayBeNull change := ⟨set none, rfl, fun _ => rfl, rfl⟩

@[simp] theorem Member.trailing_mayBeNull :
    ∃ change, (trailing name c get set).MayBeNull change := ⟨set none, rfl, fun _ => rfl, rfl⟩

end

/-! ## Records -/

namespace Shape

variable {shape : Shape ρ}

theorem member?_eq_none {text : String} (h : text ∉ shape.members.map (·.name)) :
    shape.member? text = none := by
  refine List.find?_eq_none.mpr fun m hm heq => h ?_
  exact List.mem_map.mpr ⟨m, hm, by simpa using heq⟩

/-- A record is not found in an object that lacks a member that must be there. -/
theorem gather_required {get : Member ρ → V → Option (ρ → ρ)} {m : Member ρ}
    (hm : m ∈ shape.members) (hlacking : m.lacking = none) {entries : List (String × V)}
    (habsent : m.name ∉ entries.map (·.1)) : shape.gather get entries = none := by
  have hfill : ∀ {members : List (Member ρ)} {seen : List String} {value : ρ}, m ∈ members →
      m.name ∉ seen → (fill members seen value).toOption = none := by
    intro members seen value hmem hseen
    induction members generalizing value with
    | nil => cases hmem
    | cons first members ih =>
        rw [fill]
        rcases List.mem_cons.mp hmem with rfl | hmem
        · rw [if_neg (by simpa using hseen), hlacking]
          rfl
        · split
          · exact ih hmem
          · cases first.lacking with
            | none => rfl
            | some change => exact ih hmem
  unfold gather
  cases hdraft : shape.drafted get entries with
  | none => rfl
  | some draft => exact hfill hm fun hmem => habsent (drafted_seen hdraft hmem)

theorem named?_cons {name : Spelling} {text : String} (hname : name.value? = some text) (V : Tree)
    (members : List (Spelling × Tree)) :
    named? ((name, V) :: members) = (named? members).map ((text, V) :: ·) := by
  have hrest : named? ((name, V) :: members) =
      (named? members).bind fun entries => some ((text, V) :: entries) := by
    simp only [named?, List.mapM_cons, hname, Option.map_some]
    rfl
  rw [hrest]
  cases named? members <;> rfl

theorem look_unknown {name : Spelling} {text : String} (hname : name.value? = some text)
    (hunknown : shape.member? text = none) (V : Tree) (members : List (Spelling × Tree))
    (depth : Nat) :
    shape.look depth (.object ((name, V) :: members)) = shape.look depth (.object members) := by
  have hentries : (named? ((name, V) :: members)).bind (shape.gather (Member.look (depth - 1))) =
      (named? members).bind (shape.gather (Member.look (depth - 1))) := by
    rw [named?_cons hname]
    cases named? members with
    | none => rfl
    | some entries => exact gather_unknown hunknown V entries
  simp only [look, hentries]

theorem named?_names {members : List (Spelling × Tree)} {entries : List (String × Tree)}
    (h : named? members = some entries) {text : String}
    (habsent : ∀ m ∈ members, m.1.value? ≠ some text) : text ∉ entries.map (·.1) := by
  induction members generalizing entries with
  | nil =>
      cases h
      simp
  | cons m members ih =>
      obtain ⟨name, T⟩ := m
      cases hname : name.value? with
      | none => simp [named?, hname] at h
      | some first =>
          rw [named?_cons hname] at h
          obtain ⟨rest, hrest, rfl⟩ := Option.map_eq_some_iff.mp h
          have hlater := ih hrest fun m hm => habsent m (by simp [hm])
          have hne : text ≠ first := fun heq => habsent (name, T) (by simp) (heq ▸ hname)
          simp only [List.map_cons, List.mem_cons, not_or]
          exact ⟨hne, hlater⟩

theorem look_null (h : shape.Apart) {m : Member ρ} (hm : m ∈ shape.members) {change : ρ → ρ}
    (hnull : m.MayBeNull change) {name : Spelling} (hname : name.value? = some m.name)
    {members : List (Spelling × Tree)} (habsent : ∀ e ∈ members, e.1.value? ≠ some m.name)
    (depth : Nat) :
    shape.look depth (.object ((name, .null) :: members)) = shape.look depth (.object members) := by
  have hentries : (named? ((name, .null) :: members)).bind
      (shape.gather (Member.look (depth - 1))) =
        (named? members).bind (shape.gather (Member.look (depth - 1))) := by
    rw [named?_cons hname]
    cases hnamed : named? members with
    | none => rfl
    | some entries =>
        exact gather_lacking h (look_finds (depth - 1)) hm hnull.lacking (hnull.look (depth - 1))
          (named?_names hnamed habsent)
  simp only [look, hentries]

end Shape

/-! ## Records told apart by a tag -/

namespace Variant

variable {shape : Shape ρ} {tag text : String} {make : ρ → α}

/-- What is taken of an object does not depend on its members of that name. -/
def Ignores (variant : Variant α) (text : String) : Prop :=
  ∀ v members, (variant.take (.object ((text, v) :: members))).toOption =
    (variant.take (.object members)).toOption

/-- What is taken of an object that lacks the member is taken with `null` for it as well. -/
def MayLack (variant : Variant α) (text : String) : Prop :=
  ∀ members a, text ∉ members.map (·.1) → (variant.take (.object members)).toOption = some a →
    (variant.take (.object ((text, .null) :: members))).toOption = some a

theorem Ignores.mayLack {variant : Variant α} (h : variant.Ignores text) :
    variant.MayLack text := by
  intro members a _ ha
  rw [h .null members, ha]

@[simp] theorem plain_ignores (tag : String) (a : α) (text : String) :
    (Variant.plain tag a).Ignores text := fun _ _ => rfl

@[simp] theorem ofShape_ignores (h : text ∉ shape.members.map (·.name)) :
    (Variant.ofShape tag shape make).Ignores text := by
  have hunknown := Shape.member?_eq_none h
  intro v members
  show ((shape.take (.object ((text, v) :: members))).map make).toOption =
    ((shape.take (.object members)).map make).toOption
  rw [toOption_map, toOption_map, Shape.take_object, Shape.take_object,
    Shape.gather_unknown hunknown v members]

theorem ofShape_mayLack (h : shape.Apart)
    (hnull : ∃ m ∈ shape.members, m.name = text ∧ ∃ change, m.MayBeNull change) :
    (Variant.ofShape tag shape make).MayLack text := by
  obtain ⟨m, hm, rfl, change, hnull⟩ := hnull
  intro members a habsent ha
  have hsame := Shape.gather_lacking h takes_finds hm hnull.lacking hnull.takes habsent
  change ((shape.take (.object members)).map make).toOption = some a at ha
  show ((shape.take (.object ((m.name, .null) :: members))).map make).toOption = some a
  rw [toOption_map, Shape.take_object] at ha ⊢
  rw [hsame, ha]

/-- A member that must be there is never lacking where something is taken. -/
theorem ofShape_mayLack_required
    (hrequired : ∃ m ∈ shape.members, m.name = text ∧ m.lacking = none) :
    (Variant.ofShape tag shape make).MayLack text := by
  obtain ⟨m, hm, rfl, hlacking⟩ := hrequired
  intro members a habsent ha
  change ((shape.take (.object members)).map make).toOption = some a at ha
  rw [toOption_map, Shape.take_object, Shape.gather_required hm hlacking habsent] at ha
  cases ha

end Variant

namespace Tagged

variable {tagged : Tagged α} {text : String}

/-- A further member besides the tag goes to the variant. -/
theorem take_further {v : Json} {values : List (String × Json)} {a : α}
    (htag : text ≠ tagged.tagName)
    (h : ∀ variant ∈ tagged.variants, ∀ a,
      (variant.take (.object (values.filter (·.1 != tagged.tagName)))).toOption = some a →
        (variant.take
          (.object ((text, v) :: values.filter (·.1 != tagged.tagName)))).toOption = some a)
    (ha : (tagged.codec.take (.object values)).toOption = some a) :
    (tagged.codec.take (.object ((text, v) :: values))).toOption = some a := by
  have hname : (text == tagged.tagName) = false := by simpa using htag
  have hother : (text != tagged.tagName) = true := by simpa using htag
  rw [take_object] at ha ⊢
  obtain ⟨m, hm, ha⟩ := Option.bind_eq_some_iff.mp ha
  obtain ⟨variant, hvariant, ha⟩ := Option.bind_eq_some_iff.mp ha
  simp only [List.filter_cons, hname, hother, Bool.false_eq_true, if_false, if_true, hm, hvariant,
    Option.bind_some]
  exact h variant (takeName_mem hvariant) a ha

theorem valued?_cons {look : Tree → Option Json} {name : Spelling} (hname : name.value? = some text)
    {V : Tree} {v : Json} (hv : look V = some v) (members : List (Spelling × Tree)) :
    valued? look ((name, V) :: members) = (valued? look members).map ((text, v) :: ·) := by
  unfold valued?
  rw [Shape.named?_cons hname]
  cases named? members with
  | none => rfl
  | some entries =>
      simp only [Option.map_some, Option.bind_some, List.mapM_cons, hv]
      cases entries.mapM fun e => (look e.2).map (e.1, ·) <;> rfl

theorem valued?_names {look : Tree → Option Json} {members : List (Spelling × Tree)}
    {values : List (String × Json)} (h : valued? look members = some values)
    (habsent : ∀ m ∈ members, m.1.value? ≠ some text) : text ∉ values.map (·.1) := by
  obtain ⟨entries, hnamed, hvalues⟩ := Option.bind_eq_some_iff.mp h
  have hnames : ∀ {entries : List (String × Tree)} {values : List (String × Json)},
      (entries.mapM fun e => (look e.2).map (e.1, ·)) = some values →
        values.map (·.1) = entries.map (·.1) := by
    intro entries
    induction entries with
    | nil =>
        intro values hvalues
        cases hvalues
        rfl
    | cons e entries ih =>
        intro values hvalues
        rw [List.mapM_cons] at hvalues
        obtain ⟨value, hvalue, hrest⟩ := Option.bind_eq_some_iff.mp hvalues
        obtain ⟨more, hmore, heq⟩ := Option.bind_eq_some_iff.mp hrest
        obtain ⟨v, -, rfl⟩ := Option.map_eq_some_iff.mp hvalue
        cases heq
        rw [List.map_cons, List.map_cons, ih hmore]
  rw [hnames hvalues]
  exact Shape.named?_names hnamed habsent

/-- What is read of an object is read of it with a further member, whose value fits into the object
and which each variant may have besides. -/
theorem read_further {depth : Nat} {name : Spelling} (hname : name.value? = some text)
    (htag : text ≠ tagged.tagName) {V : Tree} {v : Json} (hv : V.value? (depth - 1) = some v)
    {members : List (Spelling × Tree)} {a : α}
    (h : ∀ values, valued? (Tree.value? (depth - 1)) members = some values →
      ∀ variant ∈ tagged.variants, ∀ a,
        (variant.take (.object (values.filter (·.1 != tagged.tagName)))).toOption = some a →
          (variant.take
            (.object ((text, v) :: values.filter (·.1 != tagged.tagName)))).toOption = some a)
    (ha : outcome (tagged.codec.read depth) (.object members) = some a) :
    outcome (tagged.codec.read depth) (.object ((name, V) :: members)) = some a := by
  rw [(codec_sees_object _).outcome_eq] at ha ⊢
  obtain _ | _ | depth := depth
  · cases ha
  · cases ha
  · change ((valued? (Tree.value? (depth + 1)) members).map Json.object).bind _ = some a at ha
    show ((valued? (Tree.value? (depth + 1)) ((name, V) :: members)).map Json.object).bind _ =
      some a
    have hfurther : valued? (Tree.value? (depth + 1)) ((name, V) :: members) =
        (valued? (Tree.value? (depth + 1)) members).map ((text, v) :: ·) :=
      valued?_cons hname hv members
    rw [hfurther]
    cases hvalues : valued? (Tree.value? (depth + 1)) members with
    | none =>
        rw [hvalues] at ha
        cases ha
    | some values =>
        rw [hvalues] at ha
        exact take_further htag (h values hvalues) ha

end Tagged

end WalletBridge.Json
