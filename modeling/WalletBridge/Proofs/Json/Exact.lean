import WalletBridge.Proofs.Json.Places

/-! # Codecs that take numbers exactly

A codec is exact at a slot when it reads every text around the slot by the literal in
it, takes every value around it by the number in it, and writes the number there.
Whole and natural numbers are exact by themselves; a value that may be missing, a
list and a record are exact wherever a part of theirs is.
-/

namespace WalletBridge.Json

open Text

/-- What the codec reads or takes around the slot is settled by the number there, and what it
writes has the number there. -/
structure Codec.Exact (c : Codec α) (s : Slot α) : Prop where
  machine : s.range.Machine
  reads : ∀ depth, s.Exact (Medium.shown.Frame s.place) (Numeral.within s.range)
    (outcome (c.read depth))
  takes : s.Exact (Medium.kept.Frame s.place) s.range.of? fun v => (c.take v).toOption
  writes : ∀ a k, s.get a = some k →
    ∃ f, Medium.kept.Frame s.place f ∧ c.write a = f (.whole k)

theorem Medium.Frame.ne_null {place : List Spot} {f : Medium.kept.Number → Medium.kept.Value}
    (h : Medium.kept.Frame place f) (v : Num) : f v ≠ Json.null := by
  cases h <;> exact Json.noConfusion

namespace Codec

theorem whole_exact {range : Range} (h : range.Machine) : (whole range).Exact (.whole range) where
  machine := h
  reads depth := by
    apply Slot.Exact.alone rfl (Slot.whole_makes range)
    intro n
    rw [(whole_sees range depth (.number n)).outcome_eq]
    show n.value?.bind range.of? = (n.within range).map id
    rw [Numeral.value?_bind_of? h, Option.map_id]
    rfl
  takes := by
    apply Slot.Exact.alone rfl (Slot.whole_makes range)
    intro v
    show range.of? v = (range.of? v).map id
    rw [Option.map_id]
    rfl
  writes n k hk := by
    cases hk
    exact ⟨.number, .here, rfl⟩

theorem natural_exact {range : Range} (h : range.Machine) (hsign : 0 ≤ range.least) :
    (natural range).Exact (.natural range) where
  machine := h
  reads depth := by
    apply Slot.Exact.alone rfl (Slot.natural_makes hsign)
    intro n
    have hread := (whole_sees range depth (.number n)).map Int.toNat
    show outcome ((natural range).read depth) (.number n) = (n.within range).map Int.toNat
    rw [← Numeral.value?_bind_of? h]
    exact hread.outcome_eq
  takes := by
    apply Slot.Exact.alone rfl (Slot.natural_makes hsign)
    intro v
    exact toOption_map (range.check v) Int.toNat
  writes n k hk := by
    cases hk
    exact ⟨.number, .here, rfl⟩

variable {c : Codec α} {s : Slot α}

theorem optional_exact (h : c.Exact s) (hc : ReadsUnordered c.read) :
    c.optional.Exact s.inSome where
  machine := h.machine
  reads depth := by
    have hread : ∀ T, outcome (c.optional.read depth) T =
        T.optional? (outcome (c.read depth)) :=
      fun T => (optional_sees (hc.steady depth) T).outcome_eq
    apply (h.reads depth).inSome
    · exact fun n => hread (.number n)
    · exact fun items => hread (.list items)
    · exact fun members => hread (.object members)
  takes := by
    apply h.takes.inSome
    · exact fun v => toOption_map (c.take (.number v)) some
    · exact fun items => toOption_map (c.take (.list items)) some
    · exact fun members => toOption_map (c.take (.object members)) some
  writes value k hk := by
    cases value with
    | none => cases hk
    | some a => exact h.writes a k hk

theorem list_exact (h : c.Exact s) (hc : ReadsUnordered c.read) (index : Nat) :
    c.list.Exact (s.inItem index) where
  machine := h.machine
  reads depth := by
    have hread : ∀ items : List Tree, outcome (c.list.read depth) (.list items) =
        if decide (depth ≤ 1) then none else items.mapM (outcome (c.read (depth - 1))) := by
      intro items
      rw [(list_sees (hc.steady (depth - 1)) (.list items)).outcome_eq]
      simp only [Tree.list?, decide_eq_true_eq]
    exact (h.reads (depth - 1)).inItem hread index
  takes := by
    have htake : ∀ items : List Json, (c.list.take (.list items)).toOption =
        if false then none else items.mapM fun v => (c.take v).toOption :=
      fun items => toOption_mapM c.take items
    exact h.takes.inItem htake index
  writes items k hk := by
    obtain ⟨a, ha, hget⟩ := Option.bind_eq_some_iff.mp hk
    obtain ⟨f, hf, hwrite⟩ := h.writes a k hget
    obtain ⟨hlt, hat⟩ := List.getElem?_eq_some_iff.mp ha
    have hsplit : items = items.take index ++ a :: items.drop (index + 1) := by
      rw [← hat, List.getElem_cons_drop, List.take_append_drop]
    have hlength : ((items.take index).map c.write).length = index := by
      rw [List.length_map, List.length_take, Nat.min_eq_left (Nat.le_of_lt hlt)]
    have hitems : items.map c.write = (items.take index).map c.write ++
        f (.whole k) :: (items.drop (index + 1)).map c.write := by
      rw [← hwrite, ← List.map_cons, ← List.map_append, ← hsplit]
    exact ⟨fun v => .list ((items.take index).map c.write ++
      f v :: (items.drop (index + 1)).map c.write), .item hlength hf, congrArg Json.list hitems⟩

end Codec

/-! ## Records -/

/-- What is put into a part is found there, and nothing else of the part is kept. -/
structure Lens (part : ρ → α) (put : α → ρ → ρ) : Prop where
  part_put : ∀ a r, part (put a r) = a
  put_put : ∀ a b r, put a (put b r) = put a r

/-- Members have names and parts of their own, take every tree, and end as if they were lacking. -/
structure Shape.Regular (shape : Shape ρ) : Prop where
  apart : shape.Apart
  reads : ∀ m ∈ shape.members, ReadsUnordered m.read
  ends : ∀ m ∈ shape.members, m.EndsAsLacking

namespace Member

/-- The member is a part of the record that the codec reads, takes and writes, but for `null`. -/
structure By (m : Member ρ) (c : Codec α) (part : ρ → α) (put : α → ρ → ρ) : Prop where
  read : ∀ depth bytes, m.read depth bytes =
    (c.read depth bytes).map fun (a, rest) => (put a, rest)
  take : ∀ v, m.take v = (c.take v).map put
  write : ∀ r, c.write (part r) ≠ .null → m.write r = some (c.write (part r))

variable {name : String} {c : Codec α}

section
variable {m : Member ρ} {part : ρ → α} {put : α → ρ → ρ}

theorem By.look (h : m.By c part put) (depth : Nat) (T : Tree) :
    m.look depth T = (outcome (c.read depth) T).map put := by
  rw [Member.look, outcome, outcome, h.read, toOption_map]
  cases (c.read depth T.plain).toOption <;> rfl

theorem By.takes (h : m.By c part put) (v : Json) :
    m.takes v = (c.take v).toOption.map put := by
  rw [Member.takes, h.take, toOption_map]

end

section
variable {get : ρ → α} {set : α → ρ → ρ} {value : α}

theorem required_by : (required name c get set).By c get set :=
  ⟨fun _ _ => rfl, fun _ => rfl, fun _ _ => rfl⟩

theorem defaulted_by : (defaulted name c value get set).By c get set :=
  ⟨fun _ _ => rfl, fun _ => rfl, fun _ _ => rfl⟩

@[simp] theorem required_ends : (required name c get set).EndsAsLacking := fun _ h => by cases h

@[simp] theorem defaulted_ends : (defaulted name c value get set).EndsAsLacking := fun _ h => h

end

section
variable {get : ρ → Option α} {set : Option α → ρ → ρ}

theorem optional_by : (optional name c get set).By c.optional get set :=
  ⟨fun _ _ => rfl, fun _ => rfl, fun _ _ => rfl⟩

theorem trailing_by : (trailing name c get set).By c.optional get set where
  read _ _ := rfl
  take _ := rfl
  write r hwritten := by
    show (get r).map c.write = some (c.optional.write (get r))
    cases hget : get r with
    | none =>
        rw [hget] at hwritten
        exact absurd rfl hwritten
    | some a => rfl

@[simp] theorem optional_ends : (optional name c get set).EndsAsLacking := fun _ h => by cases h

@[simp] theorem trailing_ends : (trailing name c get set).EndsAsLacking := fun _ h => h

end

end Member

namespace Shape

variable {shape : Shape ρ}

theorem codec_looks (hmembers : ∀ m ∈ shape.members, ReadsUnordered m.read) (depth : Nat) :
    shape.Looks .shown (decide (depth ≤ 1)) (Member.look (depth - 1))
      (outcome (shape.codec.read depth)) := by
  have hlook : ∀ T, outcome (shape.codec.read depth) T = shape.look depth T := fun T =>
    (codec_sees (fun m hm => (hmembers m hm).steady _) T).outcome_eq
  constructor
  · intro members
    rw [hlook]
    simp only [look, decide_eq_true_eq]
    rfl
  · intro items
    rw [hlook]
    simp only [look, decide_eq_true_eq]

theorem take_looks : shape.Looks .kept false Member.takes fun v => (shape.take v).toOption := by
  constructor
  · intro members
    show (shape.take (.object members)).toOption = (Medium.kept.named? members).bind _
    rw [take_object, Medium.named?_kept, Option.bind_some]
  · intro items
    show (shape.takeRow items.length 0 shape.members items shape.start).toOption = _
    rw [takeRow_eq (by simp)]
    rfl

variable {c : Codec α} {s : Slot α} {m : Member ρ} {name : String} {position : Nat}
variable {part : ρ → α} {put : α → ρ → ρ}

/-- A record is written around what is written of a member, unless this is `null`. -/
theorem write_around (hm : shape.members[position]? = some m) (hname : m.name = name)
    (hby : m.By c part put) {r : ρ} (hvalue : c.write (part r) ≠ .null) :
    ∃ front back, shape.write r = front ++ (name, c.write (part r)) :: back := by
  obtain ⟨hlt, hat⟩ := List.getElem?_eq_some_iff.mp hm
  have hsplit : shape.members =
      shape.members.take position ++ m :: shape.members.drop (position + 1) := by
    rw [← hat, List.getElem_cons_drop, List.take_append_drop]
  unfold write
  rw [hsplit, List.filterMap_append, List.filterMap_cons, hby.write r hvalue, hname]
  exact ⟨_, _, rfl⟩

theorem Regular.reads_unordered (h : shape.Regular) : ReadsUnordered shape.codec.read :=
  codec_reads_unordered h.apart h.reads

theorem Regular.exact (hshape : shape.Regular) (hm : shape.members[position]? = some m)
    (hname : m.name = name) (hby : m.By c part put) (hlens : Lens part put) (h : c.Exact s) :
    shape.codec.Exact (s.inMember name position part put) := by
  subst hname
  constructor
  · exact h.machine
  · intro depth
    exact (h.reads (depth - 1)).inMember (codec_looks hshape.reads depth) hshape.apart
      (look_finds (depth - 1)) hshape.ends hm (hby.look (depth - 1)) hlens.part_put hlens.put_put
  · exact h.takes.inMember take_looks hshape.apart takes_finds hshape.ends hm hby.takes
      hlens.part_put hlens.put_put
  · intro r k hk
    obtain ⟨f, hf, hwrite⟩ := h.writes (part r) k hk
    have hvalue : c.write (part r) ≠ .null := by
      rw [hwrite]
      exact hf.ne_null (.whole k)
    obtain ⟨front, back, hwritten⟩ := write_around hm rfl hby hvalue
    rw [hwrite] at hwritten
    exact ⟨fun v => .object (front ++ (m.name, f v) :: back), .named rfl hf,
      congrArg Json.object hwritten⟩

end Shape

end WalletBridge.Json
