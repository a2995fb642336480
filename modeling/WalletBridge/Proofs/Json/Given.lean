import Mathlib.Data.List.DropRight
import WalletBridge.Proofs.Json.Reading
import WalletBridge.Proofs.Json.Scalars

/-! # Members that a text does not give

Which members a text gives is found by passing over its values, whatever they
are. A codec passes when it reads exactly what such a pass goes over; a record
whose members all pass has the default of every member that is not given.
-/

namespace WalletBridge.Json

open Text

/-! ## Passing over a value -/

/-- What is read is what is passed over. -/
def Codec.Passes (c : Codec α) : Prop :=
  ∀ depth bytes a rest, c.read depth bytes = .ok (a, rest) → skipFirst bytes = .ok (none, rest)

theorem skipValue_of_first {bytes rest : Bytes} (h : skipFirst bytes = .ok (none, rest)) :
    skipValue bytes = .ok rest := by
  rw [skipValue, skipValues, h]
  rfl

theorem skipSpaces_idem (bytes : Bytes) : skipSpaces (skipSpaces bytes) = skipSpaces bytes :=
  List.dropWhile_idempotent isSpace bytes

theorem skipFirst_skipSpaces (bytes : Bytes) : skipFirst (skipSpaces bytes) = skipFirst bytes := by
  unfold skipFirst
  rw [skipSpaces_idem]

theorem skipFirst_digit {bytes more : Bytes} {b : UInt8} (hbytes : skipSpaces bytes = b :: more)
    (h : isDigitByte b = true) :
    skipFirst bytes = (skipNumber (b :: more)).map fun rest => (none, rest) := by
  unfold skipFirst
  rw [hbytes]
  split
  · contradiction
  all_goals
    rename_i heq
    obtain ⟨rfl, rfl⟩ := List.cons.inj heq
    first
    | exact absurd h (by decide)
    | exact if_pos h

theorem skipFirst_minus {bytes more : Bytes} (hbytes : skipSpaces bytes = minus :: more) :
    skipFirst bytes = (skipNumber more).map fun rest => (none, rest) := by
  unfold skipFirst
  rw [hbytes]
  rfl

/-! ## Numbers with a fraction or an exponent are not whole -/

theorem realNumber_ne_whole {negative : Bool} {significand : Nat} {exponent : Int}
    {bytes rest : Bytes} {n : Int} :
    realNumber negative significand exponent bytes ≠ .ok (.whole n, rest) := by
  unfold realNumber
  split <;> simp

theorem readExponent_ne_whole {negative : Bool} {significand : Nat} {exponent : Int}
    {bytes rest : Bytes} {n : Int} :
    readExponent negative significand exponent bytes ≠ .ok (.whole n, rest) := by
  have hvalue : ∀ {raises : Bool} {bytes : Bytes},
      readExponentValue negative significand exponent raises bytes ≠ .ok (.whole n, rest) := by
    intro raises bytes
    unfold readExponentValue
    split
    · simp
    · split
      · simp
      · split
        · exact realNumber_ne_whole
        · split <;> simp
  unfold readExponent
  split <;> exact hvalue

theorem readFraction_ne_whole {negative : Bool} {significand : Nat} {exponent : Int}
    {bytes rest : Bytes} {n : Int} :
    readFraction negative significand exponent bytes ≠ .ok (.whole n, rest) := by
  unfold readFraction
  simp only
  split
  · simp
  · split
    · split
      · exact readExponent_ne_whole
      · exact realNumber_ne_whole
    · exact realNumber_ne_whole

theorem skipNumber_of_whole {negative : Bool} {bytes rest : Bytes} {n : Int}
    (h : readNumber negative bytes = .ok (.whole n, rest)) : skipNumber bytes = .ok rest := by
  cases bytes with
  | nil => cases h
  | cons b more =>
      unfold readNumber at h
      unfold skipNumber
      simp only at h ⊢
      split at h
      · cases h
      · rename_i hdigit
        rw [if_neg hdigit]
        generalize (if (b == 0x30) = true then more else more.dropWhile isDigitByte) = after at h ⊢
        generalize (if (b == 0x30) = true then [] else more.takeWhile isDigitByte) = digits at h
        cases after with
        | nil =>
            simp only at h
            split at h
            · rw [← (Prod.mk.inj (Except.ok.inj h)).2]
            · exact absurd h realNumber_ne_whole
        | cons c tail =>
            simp only at h ⊢
            split at h
            · cases h
            rename_i hzero
            rw [if_neg hzero]
            split at h
            · exact absurd h readFraction_ne_whole
            rename_i hpoint
            rw [if_neg hpoint]
            split at h
            · exact absurd h readExponent_ne_whole
            rename_i hexponent
            split at h
            · rw [← (Prod.mk.inj (Except.ok.inj h)).2, skipOptionalExponent, if_neg hexponent]
            · exact absurd h realNumber_ne_whole

namespace Codec

theorem whole_passes (range : Range) : (whole range).Passes := by
  intro depth bytes n rest h
  obtain ⟨more, hbytes, hread⟩ | ⟨b, more, hbytes, hdigit, hread⟩ := (whole_read h).2
  · rw [skipFirst_minus hbytes, skipNumber_of_whole hread]
    rfl
  · rw [skipFirst_digit hbytes hdigit, skipNumber_of_whole hread]
    rfl

theorem natural_passes (range : Range) : (natural range).Passes := by
  intro depth bytes n rest h
  obtain ⟨m, hm, -⟩ := natural_read h
  exact whole_passes range _ _ _ _ hm

theorem truth_passes : truth.Passes := by
  intro depth bytes b rest h
  unfold truth at h
  simp only at h
  unfold skipFirst
  split at h
  · cases h
  · rename_i more hbytes
    obtain ⟨⟨u, left⟩, hu, heq⟩ := map_eq_ok h
    cases heq
    rw [hbytes]
    show (readTrue more).map _ = _
    rw [hu]
    rfl
  · rename_i more hbytes
    obtain ⟨⟨u, left⟩, hu, heq⟩ := map_eq_ok h
    cases heq
    rw [hbytes]
    show (readFalse more).map _ = _
    rw [hu]
    rfl
  · cases h

theorem optional_passes {c : Codec α} (h : c.Passes) : c.optional.Passes := by
  intro depth bytes value rest hread
  unfold optional at hread
  simp only at hread
  split at hread
  · rename_i more hbytes
    obtain ⟨⟨u, left⟩, hu, heq⟩ := map_eq_ok hread
    cases heq
    unfold skipFirst
    rw [hbytes]
    show (readNull more).map _ = _
    rw [hu]
    rfl
  · obtain ⟨⟨a, left⟩, ha, heq⟩ := map_eq_ok hread
    cases heq
    rw [← skipFirst_skipSpaces]
    exact h _ _ _ _ ha

end Codec

/-! ## The members that are given -/

/-- Passes over the value of a member; the names are kept, last first. -/
def passMember (name : String) (names : List String) : Reader (List String) := fun bytes =>
  (skipValue bytes).map fun rest => (name :: names, rest)

def objectNames (bytes : Bytes) : List String :=
  match readMembers (fun _ _ => none) passMember (bytes.length + 1) true [] bytes with
  | .ok (names, _) => names
  | .error _ => []

/-- The names that the items of a list go by, read after its opening bracket. -/
def rowNames : List String → Bool → Bytes → List String
  | [], _, _ => []
  | name :: names, first, bytes =>
    match nextItem first bytes with
    | .ok (some rest) =>
      match skipValue rest with
      | .ok rest => name :: rowNames names false rest
      | .error _ => []
    | _ => []

def Shape.given (shape : Shape ρ) (bytes : Bytes) : List String :=
  match skipSpaces bytes with
  | openObject :: rest => objectNames rest
  | openList :: rest => rowNames (shape.members.map (·.name)) true rest
  | _ => []

/-- The member reads exactly what is passed over. -/
def Member.Passes (m : Member ρ) : Prop :=
  ∀ depth bytes change rest, m.read depth bytes = .ok (change, rest) → skipValue bytes = .ok rest

namespace Member

variable {name : String} {c : Codec α}

theorem required_passes {get : ρ → α} {set : α → ρ → ρ} (h : c.Passes) :
    (required name c get set).Passes := by
  intro depth bytes change rest hread
  obtain ⟨⟨a, left⟩, ha, heq⟩ := map_eq_ok hread
  cases heq
  exact skipValue_of_first (h _ _ _ _ ha)

theorem optional_passes {get : ρ → Option α} {set : Option α → ρ → ρ} (h : c.Passes) :
    (optional name c get set).Passes :=
  (required_passes (Codec.optional_passes h) : (required name c.optional get set).Passes)

theorem defaulted_passes {value : α} {get : ρ → α} {set : α → ρ → ρ} (h : c.Passes) :
    (defaulted name c value get set).Passes :=
  (required_passes h : (required name c get set).Passes)

end Member

theorem nextItem_none {first : Bool} {bytes : Bytes} (h : nextItem first bytes = .ok none)
    (again : Bool) : nextItem again bytes = .ok none := by
  unfold nextItem at h ⊢
  split at h
  · cases h
  · rfl
  · split at h
    · cases h
    · split at h
      · split at h <;> cases h
      · cases h

namespace Shape

variable {shape : Shape ρ} {P : ρ → Prop} {name : String}

theorem readRow_lacking {depth index : Nat} {members : List (Member ρ)} {value r : ρ}
    {bytes rest : Bytes} (hpasses : ∀ m ∈ members, m.Passes)
    (hother : ∀ m ∈ members, m.name ≠ name → m.Keeps P)
    (hmissing : ∀ m ∈ members, m.KeepsMissing P) (h : P value)
    (hrow : shape.readRow depth index members value bytes = .ok (r, rest))
    (hname : name ∉ rowNames (members.map (·.name)) (index == 0) bytes) : P r := by
  induction members generalizing index value bytes with
  | nil =>
      cases hrow
      exact h
  | cons m members ih =>
      have ih' := @ih (index + 1)
      have hpasses' : ∀ n ∈ members, n.Passes := fun n hn => hpasses n (by simp [hn])
      have hother' : ∀ n ∈ members, n.name ≠ name → n.Keeps P := fun n hn => hother n (by simp [hn])
      have hmissing' : ∀ n ∈ members, n.KeepsMissing P := fun n hn => hmissing n (by simp [hn])
      rw [readRow] at hrow
      split at hrow
      · cases hrow
      · rename_i hnone
        split at hrow
        · rename_i change hchange
          refine ih' hpasses' hother' hmissing'
            (hmissing m (by simp) change (.inr hchange) value h) hrow ?_
          cases members with
          | nil => simp [rowNames]
          | cons n members => simp [rowNames, nextItem_none hnone]
        · cases hrow
      · rename_i more hmore
        split at hrow
        · cases hrow
        · rename_i change more' hvalue
          have hskip := hpasses m (by simp) _ _ _ _ hvalue
          simp only [List.map_cons, rowNames, hmore, hskip, List.mem_cons, not_or] at hname
          obtain ⟨hne, hlater⟩ := hname
          refine ih' hpasses' hother' hmissing' ?_ hrow (by simpa using hlater)
          exact hother m (by simp) (Ne.symm hne) _ _ _ _ hvalue value h

/-- Reading a member goes in step with passing over it, and only the member of the given name may
break the law. -/
theorem readMember_lacking (hpasses : ∀ m ∈ shape.members, m.Passes)
    (hother : ∀ m ∈ shape.members, m.name ≠ name → m.Keeps P) {depth : Nat} {n : String}
    {draft draft' : Draft ρ} {names : List String} {bytes rest : Bytes}
    (h : name ∈ names ∨ P draft.value)
    (hmember : shape.readMember depth n draft bytes = .ok (draft', rest)) :
    passMember n names bytes = .ok (n :: names, rest) ∧
      (name ∈ n :: names ∨ P draft'.value) := by
  unfold readMember at hmember
  split at hmember
  · rename_i m hm
    obtain ⟨⟨change, left⟩, hchange, heq⟩ := map_eq_ok hmember
    cases heq
    have hmem := List.mem_of_find?_eq_some hm
    have hn : m.name = n := by simpa using List.find?_some hm
    refine ⟨by rw [passMember, hpasses m hmem _ _ _ _ hchange]; rfl, ?_⟩
    by_cases hne : n = name
    · exact .inl (by simp [hne])
    · rcases h with h | h
      · exact .inl (by simp [h])
      · exact .inr (hother m hmem (by rwa [hn]) _ _ _ _ hchange _ h)
  · obtain ⟨left, hskip, heq⟩ := map_eq_ok hmember
    cases heq
    refine ⟨by rw [passMember, hskip]; rfl, ?_⟩
    rcases h with h | h
    · exact .inl (by simp [h])
    · exact .inr h

/-- A record that is read has the default of a member that is not given: a law of that member
holds at the start, and no other member changes it. -/
theorem lacking {depth : Nat} {bytes rest : Bytes} {r : ρ} (hstart : P shape.start)
    (hpasses : ∀ m ∈ shape.members, m.Passes)
    (hother : ∀ m ∈ shape.members, m.name ≠ name → m.Keeps P)
    (hmissing : ∀ m ∈ shape.members, m.KeepsMissing P)
    (hread : shape.codec.read depth bytes = .ok (r, rest)) (hname : name ∉ shape.given bytes) :
    P r := by
  obtain ⟨depth', more, ⟨hbytes, hobject⟩ | ⟨hbytes, hlist⟩⟩ := codec_read hread
  · obtain ⟨draft, more', hmembers, hfinish⟩ := readObject_eq_ok hobject
    have hstep : ∀ n (draft : Draft ρ) (names : List String) bytes draft' rest,
        (name ∈ names ∨ P draft.value) →
        shape.readMember depth' n draft bytes = .ok (draft', rest) →
        (fun _ _ => none) n names = (none : Option Cause) ∧
          ∃ names', passMember n names bytes = .ok (names', rest) ∧
            (name ∈ names' ∨ P draft'.value) :=
      fun n draft names bytes draft' rest h hmember =>
        ⟨rfl, n :: names, readMember_lacking hpasses hother h hmember⟩
    obtain ⟨names, hnames, h⟩ := readMembers_sim hstep (.inr hstart) hmembers
    have hgiven : shape.given bytes = names := by
      unfold given
      rw [hbytes]
      show objectNames more = names
      rw [objectNames, hnames]
    rw [hgiven] at hname
    exact fill_keeps hmissing (h.resolve_left hname) hfinish
  · obtain ⟨more', hrow⟩ := readList_eq_ok hlist
    have hgiven : shape.given bytes = rowNames (shape.members.map (·.name)) true more := by
      unfold given
      rw [hbytes]
      rfl
    rw [hgiven] at hname
    exact readRow_lacking hpasses hother hmissing hstart hrow hname

end Shape

end WalletBridge.Json
