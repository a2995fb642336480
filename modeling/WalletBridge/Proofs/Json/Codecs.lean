import Mathlib.Data.List.Nodup
import WalletBridge.Proofs.Json.Written

/-! # Written records are taken back

A codec restores a value when it takes that value from what it writes of it, and
what it writes fits. The law of a container follows from that of its parts; the
law of a record asks of each member only how it changes a draft. A record that
is told apart by a tag is read from its bytes.
-/

namespace WalletBridge.Json

open Text

/-- What is written of the value is taken as that value and read as it, and nests no deeper than
`depth`. -/
structure Codec.Restores (c : Codec α) (depth : Nat) (a : α) : Prop where
  take : c.take (c.write a) = .ok a
  fits : Fits depth (c.write a)
  reads : Reads (c.read depth) (c.write a) a

theorem Reads.map {read : Reader α} {v : Json} {a : α} (h : Reads read v a) (f : α → β) :
    Reads (fun bytes => (read bytes).map fun (a, rest) => (f a, rest)) v (f a) := by
  obtain ⟨hstarts, hread⟩ := h
  refine ⟨hstarts, fun rest hrest => ?_⟩
  simp only [hread rest hrest]
  rfl

namespace Codec

theorem text_restores (depth : Nat) (s : String) : text.Restores (depth + 1) s :=
  ⟨rfl, trivial, ⟨quote, _, rfl, rfl, by decide⟩, fun rest _ => readText_written s rest⟩

theorem truth_restores (depth : Nat) (b : Bool) : truth.Restores (depth + 1) b := by
  refine ⟨rfl, trivial, ?_⟩
  cases b with
  | true => exact ⟨⟨beginsTrue, _, rfl, rfl, by decide⟩, fun rest _ => rfl⟩
  | false => exact ⟨⟨beginsFalse, _, rfl, rfl, by decide⟩, fun rest _ => rfl⟩

theorem map_restores {c : Codec α} {f : α → β} {back : β → α} {depth : Nat} {b : β}
    (h : c.Restores depth (back b)) (hback : f (back b) = b) :
    (c.map f back).Restores depth b := by
  refine ⟨?_, h.fits, ?_⟩
  · show (c.take (c.write (back b))).map f = _
    rw [h.take]
    exact congrArg Except.ok hback
  · have hreads := h.reads.map f
    rw [hback] at hreads
    exact hreads

theorem check_whole {range : Range} {n : Int} (hlow : range.least ≤ n)
    (hhigh : n ≤ range.greatest) : range.check (.whole n) = .ok n := by
  simp [Range.check, hlow, hhigh]

theorem whole_read_digit {range : Range} {n : Int} (hcheck : range.check (.whole n) = .ok n)
    (depth : Nat) {b : UInt8} {digits rest : Bytes} (hdigit : isDigitByte b = true)
    (hread : readNumber false (b :: digits) = .ok (.whole n, rest)) :
    (whole range).read depth (b :: digits) = .ok (n, rest) := by
  unfold whole
  simp only [skipSpaces_cons (isSpace_of_isDigitByte hdigit)]
  split
  · contradiction
  · rename_i heq
    exact absurd (List.cons.inj heq).1 (ne_of_isDigitByte hdigit rfl)
  · rename_i heq
    obtain ⟨rfl, rfl⟩ := List.cons.inj heq
    rw [if_pos hdigit, hread]
    simp only [bind, Except.bind, hcheck]
    rfl

theorem whole_read_after_minus (range : Range) (depth : Nat) (digits : Bytes) :
    (whole range).read depth (minus :: digits) = (do
      let (v, rest) ← readNumber true digits
      match range.check v with
      | .ok n => return (n, rest)
      | .error cause => .error (.before cause rest)) := rfl

theorem whole_read_minus {range : Range} {n : Int} (hcheck : range.check (.whole n) = .ok n)
    (depth : Nat) {digits rest : Bytes} (hread : readNumber true digits = .ok (.whole n, rest)) :
    (whole range).read depth (minus :: digits) = .ok (n, rest) := by
  rw [whole_read_after_minus, hread]
  simp only [bind, Except.bind, hcheck]
  rfl

theorem whole_restores {range : Range} {n : Int} (depth : Nat) (hleast : -2 ^ 63 ≤ range.least)
    (hgreatest : range.greatest ≤ 2 ^ 64 - 1) (hlow : range.least ≤ n)
    (hhigh : n ≤ range.greatest) : (whole range).Restores (depth + 1) n := by
  have hcheck := check_whole hlow hhigh
  have hlow' := Int.le_trans hleast hlow
  have hhigh' := Int.le_trans hhigh hgreatest
  refine ⟨hcheck, ⟨hlow', hhigh'⟩, (whole_reads hlow' hhigh' depth).1, fun rest hrest => ?_⟩
  show (whole range).read (depth + 1) (bytesOf (.number (.whole n)) ++ rest) = _
  rcases whole_written hlow' hhigh' hrest with ⟨b, digits, hb, hdigit, hn⟩ | ⟨digits, hb, hn⟩
  · rw [hb, List.cons_append]
    exact whole_read_digit hcheck (depth + 1) hdigit hn
  · rw [hb, List.cons_append]
    exact whole_read_minus hcheck (depth + 1) hn

theorem signed64_restores {n : Int} (depth : Nat) (hlow : -2 ^ 63 ≤ n) (hhigh : n < 2 ^ 63) :
    (whole .signed64).Restores (depth + 1) n :=
  whole_restores depth (by decide) (by decide) hlow (by simp only [Range.signed64]; omega)

theorem natural_restores {range : Range} {n : Nat} (depth : Nat) (hleast : range.least = 0)
    (hgreatest : range.greatest ≤ 2 ^ 64 - 1) (hn : (n : Int) ≤ range.greatest) :
    (natural range).Restores (depth + 1) n := by
  have hlow : range.least ≤ n := by
    rw [hleast]
    exact Int.natCast_nonneg n
  exact map_restores (whole_restores depth (by rw [hleast]; decide) hgreatest hlow hn) rfl

theorem natural32_restores {n : Nat} (depth : Nat) (hn : n < 2 ^ 32) :
    (natural .natural32).Restores (depth + 1) n :=
  natural_restores depth rfl (by decide) (by simp only [Range.natural32]; omega)

theorem natural64_restores {n : Nat} (depth : Nat) (hn : n < 2 ^ 64) :
    (natural .natural64).Restores (depth + 1) n :=
  natural_restores depth rfl (by decide) (by simp only [Range.natural64]; omega)

theorem first_ne_null {depth : Nat} {v : Json} (h : Fits depth v) (hnull : v ≠ .null) {b : UInt8}
    {more : Bytes} (hb : bytesOf v = b :: more) : b ≠ beginsNull := by
  obtain _ | depth := depth
  · exact h.elim
  cases v with
  | null => exact absurd rfl hnull
  | number n =>
      cases n with
      | whole n =>
          have hnil : Delimited [] := by simp [Delimited]
          rcases whole_written h.1 h.2 hnil with ⟨c, digits, hc, hdigit, -⟩ | ⟨digits, hc, -⟩
          · obtain ⟨rfl, -⟩ := List.cons.inj (hb.symm.trans hc)
            exact ne_of_isDigitByte hdigit rfl
          · obtain ⟨rfl, -⟩ := List.cons.inj (hb.symm.trans hc)
            decide
      | real x => exact h.elim
  | truth t =>
      cases t <;> (obtain ⟨rfl, -⟩ := List.cons.inj hb; decide)
  | _ =>
      obtain ⟨rfl, -⟩ := List.cons.inj hb
      decide

theorem optional_restores {c : Codec α} {depth : Nat} {value : Option α}
    (h : ∀ a ∈ value, c.Restores (depth + 1) a ∧ c.write a ≠ .null) :
    c.optional.Restores (depth + 1) value := by
  cases value with
  | none => exact ⟨rfl, trivial, ⟨beginsNull, _, rfl, rfl, by decide⟩, fun rest _ => rfl⟩
  | some a =>
      obtain ⟨ha, hnull⟩ := h a rfl
      refine ⟨?_, ha.fits, ha.reads.1, fun rest hrest => ?_⟩
      · have htake := ha.take
        simp only [optional, htake]
        rfl
      · obtain ⟨hstarts, hread⟩ := ha.reads
        have hskip := (hstarts.append rest).skipSpaces
        obtain ⟨b, more, hb, -⟩ := hstarts
        show c.optional.read (depth + 1) (bytesOf (c.write a) ++ rest) = _
        unfold optional
        simp only [hskip]
        split
        · rename_i heq
          rw [hb, List.cons_append] at heq
          exact absurd (List.cons.inj heq).1 (first_ne_null ha.fits hnull hb)
        · rw [hread rest hrest]
          rfl

theorem list_restores {c : Codec α} {depth : Nat} {items : List α}
    (h : ∀ a ∈ items, c.Restores (depth + 1) a) : c.list.Restores (depth + 2) items := by
  refine ⟨?take, ?fits, ⟨openList, _, rfl, rfl, by decide⟩, ?reads⟩
  case take =>
    show (items.map c.write).mapM c.take = _
    induction items with
    | nil => rfl
    | cons a items ih =>
        rw [List.map_cons, List.mapM_cons, (h a (by simp)).take, ih fun b hb => h b (by simp [hb])]
        rfl
  case fits =>
    refine ⟨by simp, fun v hv => ?_⟩
    obtain ⟨a, ha, rfl⟩ := List.mem_map.mp hv
    exact (h a ha).fits
  case reads =>
    intro rest _
    have hitems : ∀ p ∈ items.map fun a => (c.write a, a), Reads (c.read (depth + 1)) p.1 p.2 := by
      intro p hp
      obtain ⟨a, ha, rfl⟩ := List.mem_map.mp hp
      exact (h a ha).reads
    have hread := readList_written hitems rest
    simp only [List.map_map, Function.comp_def, List.map_id'] at hread
    exact hread

end Codec

/-! ## Records -/

/-- The member writes its part of the record, and takes and reads it back as a change of a draft. -/
def Member.Restores (m : Member ρ) (depth : Nat) (r : ρ) (change : ρ → ρ) : Prop :=
  ∃ v, m.write r = some v ∧ m.take v = .ok change ∧ Fits depth v ∧ Reads (m.read depth) v change

/-- The member leaves its part of the record out, and makes the change when it is lacking. -/
def Member.Omits (m : Member ρ) (r : ρ) (change : ρ → ρ) : Prop :=
  m.write r = none ∧ m.lacking = some change

namespace Member

theorem required_restores {c : Codec α} {depth : Nat} {name : String} {get : ρ → α}
    {set : α → ρ → ρ} {r : ρ} (h : c.Restores depth (get r)) :
    (required name c get set).Restores depth r (set (get r)) := by
  refine ⟨c.write (get r), rfl, ?_, h.fits, h.reads.map set⟩
  show (c.take (c.write (get r))).map set = _
  rw [h.take]
  rfl

theorem optional_restores {c : Codec α} {depth : Nat} {name : String} {get : ρ → Option α}
    {set : Option α → ρ → ρ} {r : ρ} (h : c.optional.Restores depth (get r)) :
    (optional name c get set).Restores depth r (set (get r)) :=
  (required_restores h : (required name c.optional get set).Restores depth r _)

theorem defaulted_restores {c : Codec α} {depth : Nat} {name : String} {value : α} {get : ρ → α}
    {set : α → ρ → ρ} {r : ρ} (h : c.Restores depth (get r)) :
    (defaulted name c value get set).Restores depth r (set (get r)) :=
  (required_restores h : (required name c get set).Restores depth r _)

theorem trailing_restores {c : Codec α} {depth : Nat} {name : String} {get : ρ → Option α}
    {set : Option α → ρ → ρ} {r : ρ} {a : α} (hget : get r = some a)
    (h : c.optional.Restores depth (some a)) :
    (trailing name c get set).Restores depth r (set (some a)) := by
  have hwrite : (trailing name c get set).write r = some (c.write a) := by simp [trailing, hget]
  have hrequired : (required name c.optional get set).Restores depth r (set (some a)) := by
    rw [← hget] at h ⊢
    exact required_restores h
  obtain ⟨v, hv, hrest⟩ := hrequired
  obtain rfl : c.write a = v := by simpa [required, hget, Codec.optional] using hv
  exact ⟨c.write a, hwrite, hrest⟩

theorem trailing_omits {c : Codec α} {name : String} {get : ρ → Option α}
    {set : Option α → ρ → ρ} {r : ρ} (hget : get r = none) :
    (trailing name c get set).Omits r (set none) :=
  ⟨by simp [trailing, hget], rfl⟩

end Member

namespace Shape

theorem member?_of_mem {shape : Shape ρ} (hnames : (shape.members.map (·.name)).Nodup)
    {m : Member ρ} (hm : m ∈ shape.members) : shape.member? m.name = some m := by
  unfold member?
  generalize shape.members = members at hnames hm
  induction members with
  | nil => cases hm
  | cons first members ih =>
      simp only [List.map_cons, List.nodup_cons] at hnames
      rcases List.mem_cons.mp hm with rfl | hlater
      · simp
      · have hne : first.name ≠ m.name := by
          intro he
          exact hnames.1 (List.mem_map.mpr ⟨m, hlater, he.symm⟩)
        rw [List.find?_cons_of_neg (by simpa using hne)]
        exact ih hnames.2 hlater

def written (members : List (Member ρ)) (r : ρ) : List (String × Json) :=
  members.filterMap fun m => (m.write r).map fun v => (m.name, v)

def apply (changes : List (ρ → ρ)) (r : ρ) : ρ := changes.foldl (fun r change => change r) r

/-- Written members are taken and read one after another; each makes its change. -/
theorem members_written {shape : Shape ρ} {depth : Nat} {r : ρ} {members : List (Member ρ)}
    {changes : List (ρ → ρ)} (hfind : ∀ m ∈ members, shape.member? m.name = some m)
    (hnames : (members.map (·.name)).Nodup)
    (h : List.Forall₂ (fun m change => m.Restores depth r change) members changes)
    (draft : Draft ρ) (hfresh : ∀ m ∈ members, m.name ∉ draft.seen) :
    let last : Draft ρ :=
      { value := apply changes draft.value, seen := (members.map (·.name)).reverse ++ draft.seen }
    shape.takeMembers (written members r) draft = .ok last ∧
      Visited repeats (shape.readMember depth) draft (written members r) last := by
  induction h generalizing draft with
  | nil => exact ⟨rfl, .nil draft⟩
  | @cons m change members changes hm hrest ih =>
      obtain ⟨v, hwrite, htake, -, hreads⟩ := hm
      simp only [List.map_cons, List.nodup_cons] at hnames
      have hunseen : repeats m.name draft = none := by
        simp [repeats, hfresh m (by simp)]
      have hlater : ∀ n ∈ members, n.name ∉ m.name :: draft.seen := by
        intro n hn hseen
        rcases List.mem_cons.mp hseen with he | hseen
        · exact hnames.1 (he ▸ List.mem_map_of_mem hn)
        · exact hfresh n (by simp [hn]) hseen
      let next : Draft ρ := { value := change draft.value, seen := m.name :: draft.seen }
      obtain ⟨htaken, hvisited⟩ :=
        ih (fun n hn => hfind n (by simp [hn])) hnames.2 next hlater
      have hwritten : written (m :: members) r = (m.name, v) :: written members r := by
        simp [written, hwrite]
      have hread : Reads (shape.readMember depth m.name draft) v next := by
        have hmember := hreads.map fun change =>
          ({ value := change draft.value, seen := m.name :: draft.seen } : Draft ρ)
        unfold readMember
        rw [hfind m (by simp)]
        exact hmember
      have hseen : ((m :: members).map (·.name)).reverse ++ draft.seen =
          (members.map (·.name)).reverse ++ next.seen := by simp [next]
      rw [hwritten, hseen]
      refine ⟨?_, .cons hunseen hread hvisited⟩
      rw [takeMembers, hfind m (by simp)]
      simp only [hunseen, htake]
      exact htaken

/-- Members that were seen are not filled in, and of the others each makes its change. -/
theorem fill_written {present absent : List (Member ρ)} {seen : List String} {r value : ρ}
    {changes : List (ρ → ρ)} (hseen : ∀ m ∈ present, m.name ∈ seen)
    (hunseen : ∀ m ∈ absent, m.name ∉ seen)
    (h : List.Forall₂ (fun m change => m.Omits r change) absent changes) :
    fill (present ++ absent) seen value = .ok (apply changes value) := by
  induction present with
  | nil =>
      induction h generalizing value with
      | nil => rfl
      | @cons m change absent changes hm _ ih =>
          rw [List.nil_append, fill, if_neg (by simpa using hunseen m (by simp)), hm.2]
          exact ih fun n hn => hunseen n (by simp [hn])
  | cons m present ih =>
      rw [List.cons_append, fill, if_pos (by simpa using hseen m (by simp))]
      exact ih fun n hn => hseen n (by simp [hn])

theorem fits_written {depth : Nat} {r : ρ} {members : List (Member ρ)} {changes : List (ρ → ρ)}
    (h : List.Forall₂ (fun m change => m.Restores depth r change) members changes) :
    ∀ p ∈ written members r, Fits depth p.2 ∧ ∃ m ∈ members, m.name = p.1 := by
  induction h with
  | nil => simp [written]
  | @cons m change members changes hm hrest ih =>
      obtain ⟨v, hwrite, -, hfits, -⟩ := hm
      intro p hp
      rw [written, List.filterMap_cons, hwrite] at hp
      rcases List.mem_cons.mp hp with rfl | hp
      · exact ⟨hfits, m, by simp, rfl⟩
      · obtain ⟨hp, n, hn, hname⟩ := ih p hp
        exact ⟨hp, n, by simp [hn], hname⟩

theorem written_omitted {r : ρ} {members : List (Member ρ)} {changes : List (ρ → ρ)}
    (h : List.Forall₂ (fun m change => m.Omits r change) members changes) :
    written members r = [] := by
  induction h with
  | nil => rfl
  | cons hm _ ih => simpa [written, hm.1] using ih

/-- A record that leaves members out comes back when the changes of the others, and then those of
the ones left out, made to any draft that the description starts from, give that record. -/
theorem restores_omitting {shape : Shape ρ} {depth : Nat} {r : ρ} {present absent : List (Member ρ)}
    {changes fillings : List (ρ → ρ)} (hmembers : shape.members = present ++ absent)
    (hnames : (shape.members.map (·.name)).Nodup)
    (hpresent : List.Forall₂ (fun m change => m.Restores (depth + 1) r change) present changes)
    (habsent : List.Forall₂ (fun m change => m.Omits r change) absent fillings)
    (hbuilt : apply fillings (apply changes shape.start) = r) :
    shape.codec.Restores (depth + 2) r := by
  have hwritten : shape.write r = written present r := by
    show written shape.members r = _
    rw [hmembers, written, List.filterMap_append, ← written, ← written, written_omitted habsent,
      List.append_nil]
  have hsplit := hnames
  rw [hmembers, List.map_append, List.nodup_append] at hsplit
  have hfind : ∀ m ∈ present, shape.member? m.name = some m := fun m hm =>
    member?_of_mem hnames (by simp [hmembers, hm])
  obtain ⟨htaken, hvisited⟩ :=
    members_written hfind hsplit.1 hpresent { value := shape.start, seen := [] } (by simp)
  have hfinish : shape.finish
      { value := apply changes shape.start, seen := (present.map (·.name)).reverse ++ [] } =
        .ok r := by
    rw [finish, hmembers, fill_written (fun m hm => by simpa using ⟨m, hm, rfl⟩) ?_ habsent, hbuilt]
    intro m hm hseen
    have hname : m.name ∈ present.map (·.name) := by simpa using hseen
    exact hsplit.2.2 m.name hname m.name (List.mem_map_of_mem hm) rfl
  have hwrite : shape.codec.write r = .object (written present r) := congrArg Json.object hwritten
  refine ⟨?take, ?fits, ?reads⟩
  case take =>
    rw [hwrite]
    show (shape.takeMembers (written present r) _ >>= shape.finish) = _
    rw [htaken]
    exact hfinish
  case fits =>
    rw [hwrite]
    exact ⟨by simp, fun p hp => (fits_written hpresent p hp).1⟩
  case reads =>
    rw [hwrite]
    refine ⟨⟨openObject, _, rfl, rfl, by decide⟩, fun rest _ => ?_⟩
    have hlength := length_le_memberChars (written present r)
    show shape.readObject (depth + 1) (spell (Json.memberChars (written present r)) ++ rest) = _
    rw [readObject, readMembers_written hvisited (by rw [List.length_append]; omega)]
    simp only [bind, Except.bind, hfinish]
    rfl

/-- A record comes back when the changes of all its members, made to any draft that the
description starts from, give that record. -/
theorem restores {shape : Shape ρ} {depth : Nat} {r : ρ} {changes : List (ρ → ρ)}
    (hnames : (shape.members.map (·.name)).Nodup)
    (h : List.Forall₂ (fun m change => m.Restores (depth + 1) r change) shape.members changes)
    (hbuilt : apply changes shape.start = r) : shape.codec.Restores (depth + 2) r :=
  restores_omitting (List.append_nil _).symm hnames h .nil hbuilt

end Shape

/-! ## One of a few names -/

theorem readName_written {names : List (String × β)} {tag : String} {b : β}
    (h : chooseName names tag = .ok b) : Reads (readName names) (.text tag) b := by
  refine ⟨⟨quote, _, rfl, rfl, by decide⟩, fun rest _ => ?_⟩
  have hread : Codec.readTextValue "variant identifier" (bytesOf (.text tag) ++ rest) =
      .ok (tag, rest) := readText_written tag rest
  rw [readName, hread]
  simp only [bind, Except.bind, h]
  rfl

theorem choice_restores {names : List (String × β)} {nameOf : β → String} {b : β}
    (h : chooseName names (nameOf b) = .ok b) (depth : Nat) :
    (choice names nameOf).Restores (depth + 1) b :=
  ⟨h, trivial, readName_written h⟩

/-! ## Records with a tag -/

namespace Tagged

def put (draft : Tagged.Draft α) (m : String × Json) : Tagged.Draft α :=
  { draft with members := m :: draft.members }

theorem foldl_put (members : List (String × Json)) (draft : Tagged.Draft α) :
    members.foldl put draft = { draft with members := members.reverse ++ draft.members } := by
  induction members generalizing draft with
  | nil => rfl
  | cons m members ih => simp [ih, put]

variable {tagged : Tagged α}

theorem visits_other {depth : Nat} {m : String × Json} (hname : m.1 ≠ tagged.tagName)
    (hfits : Fits depth m.2) : Visits tagged.repeats (tagged.readMember depth) put m := by
  intro draft
  obtain ⟨hstarts, hreads⟩ := readJson_written hfits
  refine ⟨by simp [repeats, hname], hstarts, fun rest hrest => ?_⟩
  simp only [readMember, beq_iff_eq, hname, if_false, hreads rest hrest]
  rfl

/-- The tag is written first and read first; the other members are kept for its variant. -/
theorem readObject_written {depth : Nat} {tag : String} {variant : Variant α}
    {members : List (String × Json)} (htag : chooseName tagged.names tag = .ok variant)
    (hmembers : ∀ m ∈ members, m.1 ≠ tagged.tagName ∧ Fits depth m.2) (rest : Bytes) :
    tagged.readObject depth
        (spell (Json.memberChars ((tagged.tagName, .text tag) :: members)) ++ rest) =
      .ok ((variant, .object members), rest) := by
  obtain ⟨bytes, hbytes⟩ : ∃ bytes, bytes =
      spell (Json.memberChars ((tagged.tagName, .text tag) :: members)) ++ rest := ⟨_, rfl⟩
  have hparts : bytes = spell (Json.textChars tagged.tagName) ++
      colon :: (bytesOf (.text tag) ++ (spell (tailMembers members) ++ rest)) := by
    rw [hbytes, memberChars_cons, spell_append, spell_cons, spell_append]
    simp [bytesOf]
    rfl
  have hlength : members.length < bytes.length := by
    have hle := length_le_memberChars ((tagged.tagName, .text tag) :: members)
    rw [hbytes, List.length_append]
    simp only [List.length_cons] at hle
    omega
  have hcheck : tagged.repeats tagged.tagName { variant := none, members := [] } = none := by
    simp [repeats]
  have hvisit : tagged.readMember depth tagged.tagName { variant := none, members := [] }
      (bytesOf (.text tag) ++ (spell (tailMembers members) ++ rest)) =
        .ok ({ variant := some variant, members := [] }, spell (tailMembers members) ++ rest) := by
    simp only [readMember, beq_self_eq_true, if_true]
    rw [(readName_written htag).2 _ (delimited_tailMembers _ _)]
    rfl
  have hround := (readMembers_round bytes.length hcheck hvisit).1
  have hvisited := visited_of_visits (fun m hm => visits_other (hmembers m hm).1 (hmembers m hm).2)
    { variant := some variant, members := [] }
  have htail := readMembers_tail hvisited hlength rest
  rw [← hparts] at hround
  rw [foldl_put, List.append_nil] at htail
  rw [← hbytes, readObject, hround, htail]
  show Except.ok ((variant, Json.object members.reverse.reverse), rest) = _
  rw [List.reverse_reverse]

theorem codec_read_object (depth : Nat) (bytes : Bytes) :
    tagged.codec.read (depth + 2) (openObject :: bytes) = (do
      let ((variant, v), rest) ← tagged.readObject (depth + 1) bytes
      match variant.take v with
      | .ok a => return (a, rest)
      | .error cause => .error { cause }) := rfl

/-- A record with a tag is read back from its bytes when its variant takes its other members. -/
theorem reads {depth : Nat} {a b : α} {variant : Variant α}
    (htag : chooseName tagged.names (tagged.write a).1 = .ok variant)
    (hnames : ∀ m ∈ (tagged.write a).2, m.1 ≠ tagged.tagName)
    (hfits : Fits (depth + 2) (.object (tagged.write a).2))
    (htake : variant.take (.object (tagged.write a).2) = .ok b) :
    Reads (tagged.codec.read (depth + 2)) (tagged.codec.write a) b := by
  refine ⟨⟨openObject, _, rfl, rfl, by decide⟩, fun rest _ => ?_⟩
  have hread := readObject_written htag (fun m hm => ⟨hnames m hm, hfits.2 m hm⟩) rest
  let members := (tagged.tagName, Json.text (tagged.write a).1) :: (tagged.write a).2
  show tagged.codec.read (depth + 2) (openObject :: (spell (Json.memberChars members) ++ rest)) = _
  rw [codec_read_object, hread]
  simp only [bind, Except.bind, htake]
  rfl

/-- A variant without members is read back. -/
theorem reads_plain {depth : Nat} {a : α} {tag : String} (hwrite : tagged.write a = (tag, []))
    (htag : chooseName tagged.names tag = .ok (.plain tag a)) :
    Reads (tagged.codec.read (depth + 2)) (tagged.codec.write a) a := by
  refine @reads α tagged depth a a (.plain tag a) ?_ ?_ ?_ ?_
  all_goals rw [hwrite]
  · exact htag
  · simp
  · exact ⟨by simp, by simp⟩
  · rfl

/-- A variant with the members of a record is read back when the record comes back. -/
theorem reads_ofShape {depth : Nat} {a : α} {tag : String} {shape : Shape ρ} {make : ρ → α} {r : ρ}
    (hwrite : tagged.write a = (tag, shape.write r)) (hmake : make r = a)
    (htag : chooseName tagged.names tag = .ok (.ofShape tag shape make))
    (hnames : ∀ m ∈ shape.members, m.name ≠ tagged.tagName)
    (h : shape.codec.Restores (depth + 2) r) :
    Reads (tagged.codec.read (depth + 2)) (tagged.codec.write a) a := by
  refine @reads α tagged depth a a (.ofShape tag shape make) ?_ ?_ ?_ ?_
  all_goals rw [hwrite]
  · exact htag
  · intro p hp
    obtain ⟨m, hm, hv⟩ := List.mem_filterMap.mp hp
    obtain ⟨v, -, rfl⟩ := Option.map_eq_some_iff.mp hv
    exact hnames m hm
  · exact h.fits
  · have htake : shape.take (.object (shape.write r)) = .ok r := h.take
    simp only [Variant.ofShape, htake]
    rw [← hmake]
    rfl

end Tagged

/-- A value whose written form is read back is decoded from its own bytes. -/
theorem decode_written {c : Codec α} {a b : α} (h : Reads (c.read deepest) (c.write a) b) :
    decode c (encode c a) = .ok b := by
  have hread := h.2 [] (by simp [Delimited])
  rw [List.append_nil, bytesOf, ← utf8_ofList] at hread
  rw [decode, encode, Json.compact, hread]
  rfl

end WalletBridge.Json
