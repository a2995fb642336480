import WalletBridge.Proofs.Json.Gathering

/-! # Codecs that do not see the order of members

A codec is unordered when what it reads of a tree, or what it takes from a value,
stays the same as members change places anywhere in it. The law of a container
follows from that of its parts; the law of a record from that of its members.
-/

namespace WalletBridge.Json

open Text

/-- What is read of a tree does not depend on the order of members in it. -/
structure ReadsUnordered (read : Nat → Reader α) : Prop where
  steady : ∀ depth, Steady (read depth)
  same : ∀ depth T T', Tree.Reorders T T' → outcome (read depth) T = outcome (read depth) T'

/-- What is taken from a value does not depend on the order of members in it. -/
def TakesUnordered (take : Json → Except Cause α) : Prop :=
  ∀ v v', Reorders v v' → (take v).toOption = (take v').toOption

theorem ReadsUnordered.of_sees {read : Nat → Reader α} {f : Nat → Tree → Option α}
    (hsees : ∀ depth T, Sees (read depth) T.tokens (f depth T))
    (hsame : ∀ depth T T', Tree.Reorders T T' → f depth T = f depth T') : ReadsUnordered read where
  steady depth T := ⟨f depth T, hsees depth T⟩
  same depth T T' h := by
    rw [(hsees depth T).outcome_eq, (hsees depth T').outcome_eq, hsame depth T T' h]

theorem ReadsUnordered.map {read : Nat → Reader α} (h : ReadsUnordered read) (f : α → β) :
    ReadsUnordered fun depth bytes => (read depth bytes).map fun (a, rest) => (f a, rest) :=
  .of_sees (fun depth T => ((h.steady depth).sees T).map f) fun depth T T' hT => by
    rw [h.same depth T T' hT]

theorem toOption_map (x : Except ε α) (f : α → β) : (x.map f).toOption = x.toOption.map f := by
  cases x <;> rfl

theorem toOption_bind (x : Except ε α) (f : α → Except ε β) :
    (x.bind f).toOption = x.toOption.bind fun a => (f a).toOption := by
  cases x <;> rfl

theorem TakesUnordered.map {take : Json → Except Cause α} (h : TakesUnordered take) (f : α → β) :
    TakesUnordered fun v => (take v).map f := by
  intro v v' hv
  rw [toOption_map, toOption_map, h v v' hv]

namespace Codec

/-! ## Texts, truth values and numbers -/

@[simp] theorem text_reads_unordered : ReadsUnordered text.read :=
  .of_sees (fun _ T => readTextValue_sees "a string" T) fun _ _ _ h => by cases h <;> rfl

@[simp] theorem truth_reads_unordered : ReadsUnordered truth.read :=
  .of_sees truth_sees fun _ _ _ h => by cases h <;> rfl

@[simp] theorem whole_reads_unordered (range : Range) : ReadsUnordered (whole range).read :=
  .of_sees (whole_sees range) fun _ _ _ h => by cases h <;> rfl

@[simp] theorem natural_reads_unordered (range : Range) : ReadsUnordered (natural range).read :=
  (whole_reads_unordered range).map Int.toNat

@[simp] theorem text_takes_unordered : TakesUnordered text.take := fun _ _ h => by cases h <;> rfl

@[simp] theorem truth_takes_unordered : TakesUnordered truth.take := fun _ _ h => by cases h <;> rfl

@[simp] theorem natural_takes_unordered (range : Range) : TakesUnordered (natural range).take := by
  have hwhole : TakesUnordered (whole range).take := fun _ _ h => by cases h <;> rfl
  exact hwhole.map Int.toNat

/-! ## Values that may be missing, and lists -/

variable {c : Codec α}

@[simp] theorem optional_reads_unordered (h : ReadsUnordered c.read) :
    ReadsUnordered c.optional.read := by
  refine .of_sees (fun depth T => optional_sees (h.steady depth) T) fun depth T T' hT => ?_
  have hsame := h.same depth T T' hT
  cases hT <;> exact congrArg (Option.map some) hsame

@[simp] theorem optional_takes_unordered (h : TakesUnordered c.take) :
    TakesUnordered c.optional.take := by
  intro v v' hv
  have hsame := h.map some v v' hv
  cases hv <;> exact hsame

theorem mapM_of_replaced {f : α → Option β} {R : α → α → Prop} (hf : ∀ a a', R a a' → f a = f a')
    {before after : List α} {a a' : α} (h : R a a') :
    (before ++ a :: after).mapM f = (before ++ a' :: after).mapM f := by
  simp only [List.mapM_append, List.mapM_cons, hf a a' h]

@[simp] theorem list_reads_unordered (h : ReadsUnordered c.read) : ReadsUnordered c.list.read := by
  refine .of_sees (fun depth T => list_sees (h.steady (depth - 1)) T) fun depth T T' hT => ?_
  cases hT with
  | @item before after T T' hitem =>
      have hitems : (before ++ T :: after).mapM (outcome (c.read (depth - 1))) =
          (before ++ T' :: after).mapM (outcome (c.read (depth - 1))) :=
        mapM_of_replaced (h.same (depth - 1)) hitem
      simp only [Tree.list?, hitems]
  | _ => rfl

theorem toOption_mapM (f : α → Except ε β) (l : List α) :
    (l.mapM f).toOption = l.mapM fun a => (f a).toOption := by
  induction l with
  | nil => rfl
  | cons a l ih =>
      rw [List.mapM_cons, List.mapM_cons, ← ih]
      cases f a with
      | error e => rfl
      | ok b => cases l.mapM f <;> rfl

@[simp] theorem list_takes_unordered (h : TakesUnordered c.take) : TakesUnordered c.list.take := by
  intro v v' hv
  cases hv with
  | item hitem =>
      show (List.mapM c.take _).toOption = (List.mapM c.take _).toOption
      rw [toOption_mapM, toOption_mapM, mapM_of_replaced h hitem]
  | _ => rfl

end Codec

/-! ## Names -/

theorem takeUnit_object {members : List (String × Json)} (h : members ≠ []) :
    (takeUnit (.object members)).toOption = none := by
  cases members with
  | nil => exact absurd rfl h
  | cons m members => rfl

theorem takeUnit_unordered : TakesUnordered takeUnit := by
  intro v v' hv
  cases hv with
  | @here members members' hperm =>
      by_cases hnil : members = []
      · subst hnil
        rw [hperm.nil_eq]
      · have hnil' : members' ≠ [] := fun heq => hnil (by simpa [heq] using hperm)
        rw [takeUnit_object hnil, takeUnit_object hnil']
  | item => rfl
  | member => rw [takeUnit_object (by simp), takeUnit_object (by simp)]

theorem only?_perm {l l' : List α} (h : l.Perm l') : only? l = only? l' := by
  match l, h with
  | [], h => rw [h.nil_eq]
  | [a], h => rw [h.singleton_eq]
  | a :: b :: l, h =>
      have hlength := h.length_eq
      match l', hlength with
      | _ :: _ :: _, _ => rfl

theorem only?_replaced {R : α → α → Prop} {l l' : List α} (h : Replaced R l l') :
    Option.Rel R (only? l) (only? l') := by
  obtain ⟨before, a, a', after, rfl, rfl, ha⟩ := h
  match before, after with
  | [], [] => exact .some ha
  | [], _ :: _ => exact .none
  | [_], _ => exact .none
  | _ :: _ :: _, _ => exact .none

theorem choice_take_object (names : List (String × α)) (nameOf : α → String)
    (members : List (String × Json)) :
    ((choice names nameOf).take (.object members)).toOption = (only? members).bind fun m =>
      (chooseName names m.1).toOption.bind fun a => (takeUnit m.2).toOption.map fun _ => a := by
  match members with
  | [] => rfl
  | [(name, v)] =>
      show ((chooseName names name).bind fun a => (takeUnit v).bind fun _ => pure a).toOption = _
      rw [toOption_bind]
      simp only [toOption_bind, only?, Option.bind_some]
      cases chooseName names name with
      | error cause => rfl
      | ok a => cases takeUnit v <;> rfl
  | _ :: _ :: _ => rfl

/-- A name may be written as the only one of an object. -/
@[simp] theorem choice_takes_unordered (names : List (String × α)) (nameOf : α → String) :
    TakesUnordered (choice names nameOf).take := by
  intro v v' hv
  cases hv with
  | here hperm => rw [choice_take_object, choice_take_object, only?_perm hperm]
  | item => rfl
  | @member before after name v v' hv =>
      rw [choice_take_object, choice_take_object]
      have hone : Option.Rel (MemberRel Reorders) (only? (before ++ (name, v) :: after))
          (only? (before ++ (name, v') :: after)) :=
        only?_replaced ⟨before, (name, v), (name, v'), after, rfl, rfl, rfl, hv⟩
      refine bind_eq_of_rel hone ?_
      rintro ⟨text, w⟩ ⟨_, w'⟩ ⟨rfl, hw⟩
      simp only [takeUnit_unordered w w' hw]

/-! ## Records -/

namespace Member

variable {name : String} {c : Codec α}

section
variable {get : ρ → α} {set : α → ρ → ρ} {value : α}

@[simp] theorem required_reads_unordered (h : ReadsUnordered c.read) :
    ReadsUnordered (required name c get set).read := h.map set

@[simp] theorem required_takes_unordered (h : TakesUnordered c.take) :
    TakesUnordered (required name c get set).take := h.map set

@[simp] theorem defaulted_reads_unordered (h : ReadsUnordered c.read) :
    ReadsUnordered (defaulted name c value get set).read := h.map set

end

section
variable {get : ρ → Option α} {set : Option α → ρ → ρ}

@[simp] theorem optional_reads_unordered (h : ReadsUnordered c.read) :
    ReadsUnordered (optional name c get set).read := (Codec.optional_reads_unordered h).map set

@[simp] theorem optional_takes_unordered (h : TakesUnordered c.take) :
    TakesUnordered (optional name c get set).take := (Codec.optional_takes_unordered h).map set

@[simp] theorem trailing_reads_unordered (h : ReadsUnordered c.read) :
    ReadsUnordered (trailing name c get set).read := (Codec.optional_reads_unordered h).map set

end

end Member

namespace Shape

variable {shape : Shape ρ}

theorem codec_reads_unordered (h : shape.Apart)
    (hmembers : ∀ m ∈ shape.members, ReadsUnordered m.read) : ReadsUnordered shape.codec.read := by
  refine .of_sees (fun depth T => codec_sees (fun m hm => (hmembers m hm).steady (depth - 1)) T)
    fun depth T T' hT => ?_
  have hget : ∀ m ∈ shape.members, ∀ T T', Tree.Reorders T T' →
      m.look (depth - 1) T = m.look (depth - 1) T' :=
    fun m hm => (hmembers m hm).same (depth - 1)
  cases hT with
  | here hperm =>
      have hnamed := bind_eq_of_rel (named?_perm hperm) fun _ _ =>
        gather_perm h (look_finds (depth - 1))
      simp only [look, hnamed]
  | @item before after T T' hitem =>
      have hrow := rowOf_replaced hget ⟨before, T, T', after, rfl, rfl, hitem⟩ shape.start
      simp only [look, hrow]
  | @member before after name T T' hmember =>
      have hnamed := bind_eq_of_rel (named?_member name hmember before after) fun _ _ =>
        gather_replaced hget
      simp only [look, hnamed]

/-! ### Taking a record -/

theorem takeMembers_eq (entries : List (String × Json)) (draft : Draft ρ)
    (hseen : ∀ n ∈ draft.seen, shape.member? n ≠ none) :
    (shape.takeMembers entries draft).toOption =
      entries.foldlM (fun draft e => shape.step Member.takes draft e.1 e.2) draft := by
  induction entries generalizing draft with
  | nil => rfl
  | cons e entries ih =>
      obtain ⟨name, v⟩ := e
      rw [takeMembers, List.foldlM_cons]
      cases hmember : shape.member? name with
      | none =>
          have hnew : draft.seen.contains name = false := by
            rw [List.contains_eq_mem]
            simpa using fun hname => hseen name hname hmember
          rw [step_unknown hnew hmember]
          exact ih draft hseen
      | some m =>
          cases hname : draft.seen.contains name with
          | true =>
              rw [step_seen hname, repeats, if_pos hname]
              rfl
          | false =>
              have hrepeats : repeats name draft = none := by
                rw [repeats, hname]
                rfl
              rw [step_known hname hmember]
              simp only [hrepeats, Member.takes]
              cases m.take v with
              | error cause => rfl
              | ok change =>
                  refine ih _ fun n hn => ?_
                  rcases List.mem_cons.mp hn with rfl | hn
                  · rw [hmember]
                    exact Option.some_ne_none m
                  · exact hseen n hn

theorem take_object (entries : List (String × Json)) :
    (shape.take (.object entries)).toOption = shape.gather Member.takes entries := by
  show ((shape.takeMembers entries _).bind _).toOption = _
  rw [toOption_bind, takeMembers_eq entries _ (by simp)]
  rfl

theorem takeRow_eq {total index : Nat} {members : List (Member ρ)} {items : List Json} {value : ρ}
    (h : items.length = total - index) :
    (shape.takeRow total index members items value).toOption =
      rowOf Member.takes members items value := by
  induction members generalizing index items value with
  | nil =>
      cases items with
      | nil =>
          have hend : ¬ index < total := by
            rw [List.length_nil] at h
            omega
          rw [takeRow, if_neg hend]
          rfl
      | cons v items =>
          have hmore : index < total := by
            rw [List.length_cons] at h
            omega
          rw [takeRow, if_pos hmore]
          rfl
  | cons m members ih =>
      cases items with
      | nil =>
          rw [takeRow, rowOf]
          cases m.short with
          | none => rfl
          | some change =>
              refine ih ?_
              rw [List.length_nil] at h ⊢
              omega
      | cons v items =>
          rw [takeRow, rowOf, Member.takes]
          cases m.take v with
          | error cause => rfl
          | ok change =>
              refine ih ?_
              rw [List.length_cons] at h
              omega

theorem take_unordered (h : shape.Apart)
    (hmembers : ∀ m ∈ shape.members, TakesUnordered m.take) : TakesUnordered shape.take := by
  have hget : ∀ m ∈ shape.members, ∀ v v', Reorders v v' → m.takes v = m.takes v' := hmembers
  intro v v' hv
  cases hv with
  | here hperm =>
      rw [take_object, take_object, gather_perm h takes_finds hperm]
  | @item before after v v' hitem =>
      show (shape.takeRow _ 0 shape.members _ shape.start).toOption =
        (shape.takeRow _ 0 shape.members _ shape.start).toOption
      rw [takeRow_eq (by simp), takeRow_eq (by simp),
        rowOf_replaced hget ⟨before, v, v', after, rfl, rfl, hitem⟩]
  | @member before after name v v' hmember =>
      rw [take_object, take_object, gather_replaced hget
        ⟨before, (name, v), (name, v'), after, rfl, rfl, rfl, hmember⟩]

end Shape

/-! ## Records told apart by a tag -/

theorem takeName_unordered (names : List (String × α)) : TakesUnordered (takeName names) :=
  fun _ _ h => by cases h <;> rfl

@[simp] theorem Variant.plain_takes_unordered (tag : String) (a : α) :
    TakesUnordered (Variant.plain tag a).take := by
  intro v v' hv
  cases hv with
  | @item before after v v' _ => cases before <;> rfl
  | _ => rfl

@[simp] theorem Variant.ofShape_takes_unordered {shape : Shape ρ} (tag : String) (make : ρ → α)
    (h : TakesUnordered shape.take) : TakesUnordered (Variant.ofShape tag shape make).take :=
  h.map make

namespace Tagged

variable {tagged : Tagged α}

theorem takeName_mem {v : Json} {variant : Variant α}
    (h : (takeName tagged.names v).toOption = some variant) : variant ∈ tagged.variants := by
  have hchoose : ∀ s, (chooseName tagged.names s).toOption = some variant →
      variant ∈ tagged.variants := by
    intro s hs
    unfold chooseName at hs
    split at hs
    · rename_i name found hfind
      cases hs
      have hmem := List.mem_of_find?_eq_some hfind
      obtain ⟨w, hw, heq⟩ := List.mem_map.mp hmem
      cases heq
      exact hw
    · cases hs
  cases v with
  | text s => exact hchoose s h
  | _ => cases h

theorem take_unordered (h : ∀ variant ∈ tagged.variants, TakesUnordered variant.take) :
    TakesUnordered tagged.codec.take := by
  have hvariant : ∀ (tag v v' : Json), Reorders v v' →
      ((takeName tagged.names tag).toOption.bind fun variant => (variant.take v).toOption) =
        (takeName tagged.names tag).toOption.bind fun variant => (variant.take v').toOption :=
    fun tag v v' hv => Option.bind_congr fun variant htag => h variant (takeName_mem htag) v v' hv
  intro v v' hv
  cases hv with
  | here hperm =>
      rw [take_object, take_object, only?_perm (hperm.filter _)]
      exact Option.bind_congr fun m _ => hvariant m.2 _ _ (.here (hperm.filter _))
  | @item before after v v' hv =>
      have htake : ∀ (tag : Json) (items : List Json), (tagged.codec.take (.list (tag :: items))) =
          (takeName tagged.names tag).bind fun variant => variant.take (.list items) :=
        fun _ _ => rfl
      cases before with
      | nil =>
          simp only [List.nil_append, htake, toOption_bind, takeName_unordered tagged.names v v' hv]
      | cons tag before =>
          simp only [List.cons_append, htake, toOption_bind]
          exact hvariant tag _ _ (.item hv)
  | @member before after name v v' hv =>
      rw [take_object, take_object]
      by_cases hname : (name == tagged.tagName) = true
      · have hother : (name != tagged.tagName) = false := by simpa using hname
        simp only [List.filter_append, List.filter_cons, hname, if_true, hother, Bool.false_eq_true,
          if_false]
        refine bind_eq_of_rel (R := MemberRel Reorders)
          (only?_replaced ⟨_, (name, v), (name, v'), _, rfl, rfl, rfl, hv⟩) ?_
        rintro ⟨text, w⟩ ⟨_, w'⟩ ⟨rfl, hw⟩
        simp only [takeName_unordered tagged.names w w' hw]
      · have hother : (name != tagged.tagName) = true := by simpa using hname
        simp only [List.filter_append, List.filter_cons, hname, hother, if_true, Bool.false_eq_true,
          if_false]
        exact Option.bind_congr fun m _ => hvariant m.2 _ _ (.member hv)

/-- An object is read to the same record as its members change places. -/
theorem read_unordered (h : ∀ variant ∈ tagged.variants, TakesUnordered variant.take)
    {members : List (Spelling × Tree)} {T : Tree} (hT : Tree.Reorders (.object members) T)
    (depth : Nat) : outcome (tagged.codec.read depth) (.object members) =
      outcome (tagged.codec.read depth) T := by
  obtain ⟨members', rfl⟩ := hT.object
  rw [(codec_sees_object members).outcome_eq, (codec_sees_object members').outcome_eq]
  exact bind_eq_of_rel (hT.value? depth) (take_unordered h)

end Tagged

end WalletBridge.Json
