import WalletBridge.Proofs.Json.Insensitive
import WalletBridge.Proofs.Json.Integers

/-! # Numbers at their places

A number has a place in its message: a way through members and items down to it. A
frame is all of a text, or of what was read of it, that stands around the place. A
slot is exact when what is found in a frame is settled by the literal that is put
into it: nothing if this is no number of the slot's range, and otherwise one value
of the frame with that number. A slot inside a part of a value is as exact as it is
in the part alone.
-/

namespace WalletBridge.Json

open Text

/-! ## Items of lists -/

theorem modify_around (front : List α) (a : α) (back : List α) (f : α → α) :
    (front ++ a :: back).modify front.length f = front ++ f a :: back := by
  induction front with
  | nil => rfl
  | cons b front ih => exact congrArg (b :: ·) ih

section
variable {f : α → Option β} {l : List α} {l' : List β}

theorem length_of_mapM (h : l.mapM f = some l') : l'.length = l.length := by
  induction l generalizing l' with
  | nil =>
      cases h
      rfl
  | cons a l ih =>
      rw [List.mapM_cons] at h
      obtain ⟨b, -, hrest⟩ := Option.bind_eq_some_iff.mp h
      obtain ⟨more, hmore, heq⟩ := Option.bind_eq_some_iff.mp hrest
      cases heq
      rw [List.length_cons, List.length_cons, ih hmore]

theorem exists_of_mem_mapM (h : l.mapM f = some l') {b : β} (hb : b ∈ l') :
    ∃ a ∈ l, f a = some b := by
  induction l generalizing l' with
  | nil =>
      cases h
      cases hb
  | cons a l ih =>
      rw [List.mapM_cons] at h
      obtain ⟨first, hfirst, hrest⟩ := Option.bind_eq_some_iff.mp h
      obtain ⟨more, hmore, heq⟩ := Option.bind_eq_some_iff.mp hrest
      cases heq
      cases List.mem_cons.mp hb with
      | inl heq => exact ⟨a, List.mem_cons_self, by rw [heq, hfirst]⟩
      | inr hmem =>
          obtain ⟨a', ha', hfound⟩ := ih hmore hmem
          exact ⟨a', List.mem_cons_of_mem a ha', hfound⟩

end

theorem mapM_around (f : α → Option β) (before after : List α) :
    ∃ rest : Option (List β × List β),
      (∀ r ∈ rest, before.mapM f = some r.1 ∧ after.mapM f = some r.2) ∧
      ∀ a, (before ++ a :: after).mapM f =
        (f a).bind fun b => rest.map fun r => r.1 ++ b :: r.2 := by
  refine ⟨(before.mapM f).bind fun front => (after.mapM f).map (front, ·), ?_, ?_⟩
  · intro r hr
    obtain ⟨front, hfront, hrest⟩ := Option.bind_eq_some_iff.mp hr
    obtain ⟨back, hback, rfl⟩ := Option.map_eq_some_iff.mp hrest
    exact ⟨hfront, hback⟩
  · intro a
    rw [List.mapM_append, List.mapM_cons]
    cases before.mapM f with
    | none => cases f a <;> rfl
    | some front =>
        cases f a with
        | none => rfl
        | some b => cases after.mapM f <;> rfl

/-! ## Places and frames -/

/-- A step from a value to a part of it. The member of a record has a name in objects, and a
position in lists. -/
inductive Spot where
  | member (name : String) (position : Nat)
  | item (index : Nat)

/-- A kind of values, with what holds other values in it. -/
structure Medium where
  Number : Type
  Value : Type
  Label : Type
  number : Number → Value
  list : List Value → Value
  object : List (Label × Value) → Value
  name? : Label → Option String

abbrev Medium.shown : Medium :=
  ⟨Numeral, Tree, Spelling, .number, .list, .object, Spelling.value?⟩

abbrev Medium.kept : Medium := ⟨Num, Json, String, .number, .list, .object, some⟩

namespace Medium

/-- A value that has a number at the place and whatever parts around it. -/
inductive Frame (M : Medium) : List Spot → (M.Number → M.Value) → Prop
  | here : Frame M [] M.number
  | named {before after : List (M.Label × M.Value)} {label : M.Label} {name : String}
      {position : Nat} {place : List Spot} {frame : M.Number → M.Value}
      (hname : M.name? label = some name) (h : Frame M place frame) :
      Frame M (.member name position :: place)
        fun n => M.object (before ++ (label, frame n) :: after)
  | placed {before after : List M.Value} {name : String} {position : Nat} {place : List Spot}
      {frame : M.Number → M.Value} (hposition : before.length = position)
      (h : Frame M place frame) :
      Frame M (.member name position :: place) fun n => M.list (before ++ frame n :: after)
  | item {before after : List M.Value} {index : Nat} {place : List Spot}
      {frame : M.Number → M.Value} (hindex : before.length = index) (h : Frame M place frame) :
      Frame M (.item index :: place) fun n => M.list (before ++ frame n :: after)

def named? (M : Medium) (members : List (M.Label × M.Value)) : Option (List (String × M.Value)) :=
  members.mapM fun m => (M.name? m.1).map (·, m.2)

theorem named?_kept (members : List (String × Json)) :
    Medium.kept.named? members = some members := by
  induction members with
  | nil => rfl
  | cons m members ih =>
      unfold named? at ih ⊢
      rw [List.mapM_cons, ih]
      rfl

variable {M : Medium}

/-- The members around one of an object are there or not, whatever the value of this one is. -/
theorem named?_around (before after : List (M.Label × M.Value)) {label : M.Label} {name : String}
    (h : M.name? label = some name) :
    ∃ rest : Option (List (String × M.Value) × List (String × M.Value)),
      ∀ v, M.named? (before ++ (label, v) :: after) =
        rest.map fun r => r.1 ++ (name, v) :: r.2 := by
  obtain ⟨rest, -, hrest⟩ := mapM_around
    (fun m : M.Label × M.Value => (M.name? m.1).map (·, m.2)) before after
  refine ⟨rest, ?_⟩
  intro v
  unfold named?
  rw [hrest, h]
  rfl

end Medium

/-! ## Slots -/

/-- A number inside the values of a type: where it stands in their texts, the range it has, and how
it is got from a value and changed in it. -/
structure Slot (α : Type) where
  place : List Spot
  range : Range
  get : α → Option Int
  set : Int → α → α

namespace Slot

def whole (range : Range) : Slot Int := ⟨[], range, some, fun k _ => k⟩

def natural (range : Range) : Slot Nat := ⟨[], range, fun n => some n, fun k _ => k.toNat⟩

def inSome (s : Slot α) : Slot (Option α) where
  place := s.place
  range := s.range
  get a := a.bind s.get
  set k := Option.map (s.set k)

def inItem (s : Slot α) (index : Nat) : Slot (List α) where
  place := .item index :: s.place
  range := s.range
  get items := items[index]?.bind s.get
  set k items := items.modify index (s.set k)

def inMember (s : Slot α) (name : String) (position : Nat) (part : ρ → α) (put : α → ρ → ρ) :
    Slot ρ where
  place := .member name position :: s.place
  range := s.range
  get r := s.get (part r)
  set k r := put (s.set k (part r)) r

/-- The values that are made of a number have it in the slot, and differ in nothing else. -/
structure Makes (s : Slot α) (make : Int → α) : Prop where
  get : ∀ k, s.range.Has k → s.get (make k) = some k
  set : ∀ j k, s.set j (make k) = make j

/-- What is looked for around a number is made of the number if it fits, or is not there at all. -/
def Exact (s : Slot α) (Around : (N → V) → Prop) (fits : N → Option Int) (look : V → Option α) :
    Prop :=
  ∀ frame, Around frame → ∃ make : Option (Int → α), (∀ f ∈ make, s.Makes f) ∧
    ∀ n, look (frame n) = (fits n).bind fun k => make.map (· k)

variable {M : Medium} {fits : M.Number → Option Int} {s : Slot α} {inner : M.Value → Option α}

theorem whole_makes (range : Range) : (whole range).Makes id :=
  ⟨fun _ _ => rfl, fun _ _ => rfl⟩

theorem natural_makes {range : Range} (h : 0 ≤ range.least) : (natural range).Makes Int.toNat where
  get k hk := by
    have hsign : 0 ≤ k := Int.le_trans h hk.1
    exact congrArg some (Int.toNat_of_nonneg hsign)
  set _ _ := rfl

/-- A number by itself stands in one frame only. -/
theorem Exact.alone {make : Int → α} (hplace : s.place = []) (hmakes : s.Makes make)
    (hlook : ∀ n, inner (M.number n) = (fits n).map make) :
    s.Exact (M.Frame s.place) fits inner := by
  intro frame hframe
  rw [hplace] at hframe
  cases hframe
  refine ⟨some make, ?_, ?_⟩
  · intro f hf
    cases hf
    exact hmakes
  · intro n
    rw [hlook]
    cases fits n <;> rfl

theorem Makes.inSome {make : Int → α} (h : s.Makes make) :
    s.inSome.Makes fun k => some (make k) where
  get := h.get
  set j k := congrArg some (h.set j k)

/-- A frame is never `null`, so that the value in it is not missing. -/
theorem Exact.inSome {outer : M.Value → Option (Option α)}
    (h : s.Exact (M.Frame s.place) fits inner)
    (hnumber : ∀ n, outer (M.number n) = (inner (M.number n)).map some)
    (hlist : ∀ items, outer (M.list items) = (inner (M.list items)).map some)
    (hobject : ∀ members, outer (M.object members) = (inner (M.object members)).map some) :
    s.inSome.Exact (M.Frame s.inSome.place) fits outer := by
  intro frame hframe
  have hvalue : ∀ n, outer (frame n) = (inner (frame n)).map some := by
    intro n
    have hsome : M.Frame s.place frame := hframe
    generalize s.place = place at hsome
    cases hsome with
    | here => exact hnumber n
    | named => exact hobject _
    | placed => exact hlist _
    | item => exact hlist _
  obtain ⟨make, hmakes, hinner⟩ := h frame hframe
  refine ⟨make.map fun f k => some (f k), ?_, ?_⟩
  · intro f hf
    obtain ⟨g, hg, rfl⟩ := Option.map_eq_some_iff.mp hf
    exact (hmakes g hg).inSome
  · intro n
    rw [hvalue, hinner]
    cases fits n with
    | none => rfl
    | some k => cases make <;> rfl

/-! ### Items of a list -/

theorem Makes.inItem {make : Int → α} (h : s.Makes make) (front back : List α) :
    (s.inItem front.length).Makes fun k => front ++ make k :: back where
  get k hk := by
    show (front ++ make k :: back)[front.length]?.bind s.get = some k
    rw [List.getElem?_append_right (Nat.le_refl _), Nat.sub_self]
    exact h.get k hk
  set j k := by
    show (front ++ make k :: back).modify front.length (s.set j) = front ++ make j :: back
    rw [modify_around, h.set]

theorem Exact.inItem {outer : M.Value → Option (List α)} {refused : Bool}
    (h : s.Exact (M.Frame s.place) fits inner)
    (hlist : ∀ items, outer (M.list items) = if refused then none else items.mapM inner)
    (index : Nat) :
    (s.inItem index).Exact (M.Frame (s.inItem index).place) fits outer := by
  intro frame hframe
  cases hframe with
  | @item before after _ _ frame hindex hframe =>
      obtain ⟨make, hmakes, hinner⟩ := h frame hframe
      obtain ⟨rest, haround, hrest⟩ := mapM_around inner before after
      cases refused with
      | true =>
          refine ⟨none, by simp, ?_⟩
          intro n
          rw [hlist]
          cases fits n <;> rfl
      | false =>
          refine ⟨make.bind fun f => rest.map fun r k => r.1 ++ f k :: r.2, ?_, ?_⟩
          · intro f hf
            obtain ⟨g, hg, hwhole⟩ := Option.bind_eq_some_iff.mp hf
            obtain ⟨r, hr, rfl⟩ := Option.map_eq_some_iff.mp hwhole
            rw [← hindex, ← length_of_mapM (haround r hr).1]
            exact (hmakes g hg).inItem r.1 r.2
          · intro n
            show outer (M.list (before ++ frame n :: after)) = _
            rw [hlist, hrest, hinner]
            cases fits n with
            | none => rfl
            | some k =>
                cases make with
                | none => rfl
                | some f => cases rest <;> rfl

end Slot

/-! ## Members of a record -/

def Member.EndsAsLacking (m : Member ρ) : Prop := ∀ f, m.short = some f → m.lacking = some f

def ChangedBy (found : V → Option (ρ → ρ)) (look : V → Option ρ) : Prop :=
  ∃ base : Option ρ, ∀ v, look v = (found v).bind fun change => base.map change

theorem ChangedBy.of_none {found : V → Option (ρ → ρ)} {look : V → Option ρ}
    (h : ∀ v, look v = none) : ChangedBy found look := by
  refine ⟨none, ?_⟩
  intro v
  rw [h]
  cases found v <;> rfl

namespace Shape

variable {shape : Shape ρ} {get : Member ρ → V → Option (ρ → ρ)}

theorem fill_change {members : List (Member ρ)} {seen : List String} {change : ρ → ρ} {value : ρ}
    (h : ∀ m ∈ members, seen.contains m.name = false → ∀ f, m.lacking = some f →
      ∀ r, f (change r) = change (f r)) :
    (fill members seen (change value)).toOption =
      (fill members seen value).toOption.map change := by
  induction members generalizing value with
  | nil => rfl
  | cons m members ih =>
      have hlater : ∀ {value : ρ}, (fill members seen (change value)).toOption =
          (fill members seen value).toOption.map change :=
        ih fun m' hm' => h m' (by simp [hm'])
      rw [fill, fill]
      cases hseen : seen.contains m.name with
      | true => exact hlater
      | false =>
          cases hlacking : m.lacking with
          | none => rfl
          | some f =>
              have hswap := h m (by simp) hseen f hlacking value
              simp only [Bool.false_eq_true, if_false, hswap]
              exact hlater

/-- A member may be met last, when the draft of all the others is made. -/
theorem gather_last (h : shape.Apart) (hget : Finds get) (name : String) (v : V)
    (before after : List (String × V)) :
    shape.gather get (before ++ (name, v) :: after) =
      (shape.drafted get (before ++ after)).bind fun draft =>
        (shape.step get draft name v).bind fun draft => (shape.finish draft).toOption := by
  have hperm : (before ++ (name, v) :: after).Perm (before ++ after ++ [(name, v)]) :=
    List.perm_middle.trans (List.perm_append_singleton _ _).symm
  rw [gather_perm h hget hperm]
  unfold gather
  rw [drafted, List.foldlM_append]
  change ((shape.drafted get (before ++ after)).bind _).bind _ = _
  cases shape.drafted get (before ++ after) with
  | none => rfl
  | some draft =>
      show ((shape.step get draft name v).bind some).bind _ = _
      rw [Option.bind_fun_some]
      rfl

/-- An object makes one record, which any of its members may change last. -/
theorem gather_part (h : shape.Apart) (hget : Finds get) {m : Member ρ} (hm : m ∈ shape.members)
    (before after : List (String × V)) :
    ChangedBy (get m) fun v => shape.gather get (before ++ (m.name, v) :: after) := by
  have hmember := member?_of_mem h.names hm
  simp only [gather_last h hget]
  cases hdraft : shape.drafted get (before ++ after) with
  | none => exact .of_none fun _ => rfl
  | some draft =>
      simp only [Option.bind_some]
      cases hseen : draft.seen.contains m.name with
      | true =>
          apply ChangedBy.of_none
          intro v
          rw [step_seen hseen]
          rfl
      | false =>
          refine ⟨(fill shape.members (m.name :: draft.seen) draft.value).toOption, ?_⟩
          intro v
          dsimp only
          rw [step_known hseen hmember]
          cases hchange : get m v with
          | none => rfl
          | some change =>
              apply fill_change
              intro m' hm' hother f hf r
              have hne : m' ≠ m := by
                intro heq
                rw [heq] at hother
                simp at hother
              have hparts := h.parts.forall hm' hm hne
              exact hparts f change (.inr (.inr hf)) (hget m v change hchange) r

theorem rowOf_change {members : List (Member ρ)} {items : List V} {change : ρ → ρ} {value : ρ}
    (hget : Finds get) (hends : ∀ m ∈ members, m.EndsAsLacking)
    (h : ∀ m ∈ members, ∀ f, m.Makes f → ∀ r, f (change r) = change (f r)) :
    rowOf get members items (change value) = (rowOf get members items value).map change := by
  induction members generalizing items value with
  | nil => cases items <;> rfl
  | cons m members ih =>
      have hlater : ∀ {items : List V} {value : ρ}, rowOf get members items (change value) =
          (rowOf get members items value).map change :=
        ih (fun m' hm' => hends m' (by simp [hm'])) fun m' hm' => h m' (by simp [hm'])
      cases items with
      | nil =>
          rw [rowOf, rowOf]
          cases hshort : m.short with
          | none => rfl
          | some f =>
              have hmakes : m.Makes f := .inr (.inr (hends m (by simp) f hshort))
              rw [Option.bind_some, Option.bind_some, h m (by simp) f hmakes]
              exact hlater
      | cons v items =>
          rw [rowOf, rowOf]
          cases hfound : get m v with
          | none => rfl
          | some f =>
              rw [Option.bind_some, Option.bind_some, h m (by simp) f (hget m v f hfound)]
              exact hlater

theorem rowOf_part (hget : Finds get) {m : Member ρ} {front back : List (Member ρ)}
    (hends : ∀ m' ∈ back, m'.EndsAsLacking) (hback : ∀ m' ∈ back, m.Apart m')
    {before : List V} (hposition : before.length = front.length) (after : List V) (value : ρ) :
    ChangedBy (get m) fun v => rowOf get (front ++ m :: back) (before ++ v :: after) value := by
  induction front generalizing before value with
  | nil =>
      obtain rfl := List.length_eq_zero_iff.mp hposition
      refine ⟨rowOf get back after value, ?_⟩
      intro v
      show (get m v).bind _ = _
      cases hchange : get m v with
      | none => rfl
      | some change =>
          apply rowOf_change hget hends
          intro m' hm' f hf r
          exact (hback m' hm' change f (hget m v change hchange) hf r).symm
  | cons first front ih =>
      cases before with
      | nil => cases hposition
      | cons w before =>
          simp only [List.cons_append, rowOf]
          cases get first w with
          | none => exact .of_none fun _ => rfl
          | some change => exact ih (Nat.succ.inj hposition) (change value)

/-- The record is looked for in objects and in lists, unless they are refused. -/
structure Looks (shape : Shape ρ) (M : Medium) (refused : Bool)
    (get : Member ρ → M.Value → Option (ρ → ρ)) (look : M.Value → Option ρ) : Prop where
  object : ∀ members, look (M.object members) =
    if refused then none else (M.named? members).bind (shape.gather get)
  list : ∀ items, look (M.list items) =
    if refused then none else rowOf get shape.members items shape.start

section
variable {M : Medium} {refused : Bool} {get : Member ρ → M.Value → Option (ρ → ρ)}
variable {look : M.Value → Option ρ}

theorem Looks.object_part (hlooks : shape.Looks M refused get look) (h : shape.Apart)
    (hget : Finds get) {m : Member ρ} (hm : m ∈ shape.members) {label : M.Label}
    (hname : M.name? label = some m.name) (before after : List (M.Label × M.Value)) :
    ChangedBy (get m) fun v => look (M.object (before ++ (label, v) :: after)) := by
  obtain ⟨rest, hrest⟩ := M.named?_around before after hname
  simp only [hlooks.object, hrest]
  cases refused with
  | true => exact .of_none fun _ => rfl
  | false =>
      cases rest with
      | none => exact .of_none fun _ => rfl
      | some r => exact gather_part h hget hm r.1 r.2

theorem Looks.list_part (hlooks : shape.Looks M refused get look) (h : shape.Apart)
    (hget : Finds get) (hends : ∀ m ∈ shape.members, m.EndsAsLacking) {m : Member ρ}
    {position : Nat} (hm : shape.members[position]? = some m) {before : List M.Value}
    (hposition : before.length = position) (after : List M.Value) :
    ChangedBy (get m) fun v => look (M.list (before ++ v :: after)) := by
  obtain ⟨hlt, hat⟩ := List.getElem?_eq_some_iff.mp hm
  have hsplit : shape.members =
      shape.members.take position ++ m :: shape.members.drop (position + 1) := by
    rw [← hat, List.getElem_cons_drop, List.take_append_drop]
  have hparts := h.parts
  rw [hsplit, List.pairwise_append, List.pairwise_cons] at hparts
  have hlength : before.length = (shape.members.take position).length := by
    rw [hposition, List.length_take, Nat.min_eq_left (Nat.le_of_lt hlt)]
  simp only [hlooks.list]
  cases refused with
  | true => exact .of_none fun _ => rfl
  | false =>
      rw [hsplit]
      exact rowOf_part hget (fun m' hm' => hends m' (List.mem_of_mem_drop hm')) hparts.2.1.1
        hlength after shape.start

end

end Shape

namespace Slot

variable {M : Medium} {fits : M.Number → Option Int} {s : Slot α} {inner : M.Value → Option α}

theorem Makes.inMember {make : Int → α} (h : s.Makes make) {name : String} {position : Nat}
    {part : ρ → α} {put : α → ρ → ρ} (hpart : ∀ a r, part (put a r) = a)
    (hput : ∀ a b r, put a (put b r) = put a r) (base : ρ) :
    (s.inMember name position part put).Makes fun k => put (make k) base where
  get k hk := by
    show s.get (part (put (make k) base)) = some k
    rw [hpart, h.get k hk]
  set j k := by
    show put (s.set j (part (put (make k) base))) (put (make k) base) = put (make j) base
    rw [hpart, h.set, hput]

/-- A record may stand as an object or as a list. -/
theorem Exact.inMember {shape : Shape ρ} {outer : M.Value → Option ρ} {refused : Bool}
    {get : Member ρ → M.Value → Option (ρ → ρ)} {m : Member ρ} {position : Nat} {part : ρ → α}
    {put : α → ρ → ρ} (h : s.Exact (M.Frame s.place) fits inner)
    (hlooks : shape.Looks M refused get outer) (hapart : shape.Apart) (hget : Finds get)
    (hends : ∀ m ∈ shape.members, m.EndsAsLacking) (hm : shape.members[position]? = some m)
    (hfound : ∀ v, get m v = (inner v).map put) (hpart : ∀ a r, part (put a r) = a)
    (hput : ∀ a b r, put a (put b r) = put a r) :
    (s.inMember m.name position part put).Exact
      (M.Frame (s.inMember m.name position part put).place) fits outer := by
  have hwhole : ∀ frame, M.Frame s.place frame → ∀ wrap : M.Value → M.Value,
      ChangedBy (get m) (fun v => outer (wrap v)) → ∃ make : Option (Int → ρ),
        (∀ f ∈ make, (s.inMember m.name position part put).Makes f) ∧
          ∀ n, outer (wrap (frame n)) = (fits n).bind fun k => make.map (· k) := by
    intro frame hframe wrap hchanged
    obtain ⟨make, hmakes, hinner⟩ := h frame hframe
    obtain ⟨base, hbase⟩ := hchanged
    refine ⟨make.bind fun f => base.map fun r k => put (f k) r, ?_, ?_⟩
    · intro f hf
      obtain ⟨g, hg, hrecord⟩ := Option.bind_eq_some_iff.mp hf
      obtain ⟨r, -, rfl⟩ := Option.map_eq_some_iff.mp hrecord
      exact (hmakes g hg).inMember hpart hput r
    · intro n
      have hchange : outer (wrap (frame n)) = (get m (frame n)).bind fun change =>
        base.map change := hbase (frame n)
      rw [hchange, hfound, hinner]
      cases fits n with
      | none => rfl
      | some k =>
          cases make with
          | none => rfl
          | some f => cases base <;> rfl
  intro frame hframe
  cases hframe with
  | named hname hframe =>
      exact hwhole _ hframe _
        (hlooks.object_part hapart hget (List.mem_of_getElem? hm) hname _ _)
  | placed hposition hframe =>
      exact hwhole _ hframe _ (hlooks.list_part hapart hget hends hm hposition _)

end Slot

end WalletBridge.Json
