import Mathlib.Algebra.Group.Nat.Defs
import WalletBridge.Json.Codec

/-! # What was read

Laws about every value that a reader gives, whatever the bytes were. The first
part is about the values themselves, such as the range of a number; the second
compares what a record was read from with a pass over the same bytes that only
looks at the names. A member that the bytes do not name has its default.
-/

namespace WalletBridge.Json

open Text

theorem bind_eq_ok {x : Except ε α} {f : α → Except ε β} {b : β} (h : (x >>= f) = .ok b) :
    ∃ a, x = .ok a ∧ f a = .ok b := by
  cases x with
  | error e => cases h
  | ok a => exact ⟨a, rfl, h⟩

theorem map_eq_ok {x : Except ε α} {f : α → β} {b : β} (h : x.map f = .ok b) :
    ∃ a, x = .ok a ∧ f a = b := by
  cases x with
  | error e => cases h
  | ok a => exact ⟨a, rfl, Except.ok.inj h⟩

/-! ## Loops -/

section
variable {check : String → β → Option Cause} {visit : String → β → Reader β}
variable {check' : String → γ → Option Cause} {visit' : String → γ → Reader γ}

/-- Two readers of an object go in step when each member that the first one reads is read by the
second one from the same bytes. -/
theorem readMembers_sim {R : β → γ → Prop}
    (hvisit : ∀ name b c bytes b' rest, R b c → visit name b bytes = .ok (b', rest) →
      check' name c = none ∧ ∃ c', visit' name c bytes = .ok (c', rest) ∧ R b' c')
    {fuel : Nat} {first : Bool} {b b' : β} {c : γ} {bytes rest : Bytes} (h : R b c)
    (hread : readMembers check visit fuel first b bytes = .ok (b', rest)) :
    ∃ c', readMembers check' visit' fuel first c bytes = .ok (c', rest) ∧ R b' c' := by
  induction fuel generalizing first b c bytes with
  | zero =>
      cases hread
      exact ⟨c, rfl, h⟩
  | succ fuel ih =>
      rw [readMembers] at hread ⊢
      cases hkey : nextKey first bytes with
      | error fault => simp [hkey] at hread
      | ok key =>
          cases key with
          | none =>
              simp only [hkey, Except.ok.injEq, Prod.mk.injEq] at hread ⊢
              obtain ⟨rfl, rfl⟩ := hread
              exact ⟨c, ⟨rfl, rfl⟩, h⟩
          | some key =>
              obtain ⟨name, more⟩ := key
              simp only [hkey] at hread ⊢
              split at hread
              · cases hread
              split at hread
              · cases hread
              · rename_i hcolon
                split at hread
                · cases hread
                · rename_i hvalue
                  obtain ⟨hcheck, c', hvalue', h'⟩ := hvisit _ _ _ _ _ _ h hvalue
                  simp only [hcheck, hvalue']
                  exact ih h' hread

theorem readMembers_keeps {P : β → Prop}
    (hvisit : ∀ name b bytes b' rest, P b → visit name b bytes = .ok (b', rest) → P b')
    {fuel : Nat} {first : Bool} {b b' : β} {bytes rest : Bytes} (h : P b)
    (hread : readMembers check visit fuel first b bytes = .ok (b', rest)) : P b' := by
  have hstep : ∀ name (b c : β) bytes b' rest, (b = c ∧ P b) →
      visit name b bytes = .ok (b', rest) → (fun _ _ => none) name c = (none : Option Cause) ∧
        ∃ c', visit name c bytes = .ok (c', rest) ∧ b' = c' ∧ P b' := by
    rintro name b c bytes b' rest ⟨rfl, hb⟩ hread
    exact ⟨rfl, b', hread, rfl, hvisit _ _ _ _ _ hb hread⟩
  obtain ⟨c', -, -, h'⟩ := readMembers_sim (R := fun b c => b = c ∧ P b) hstep ⟨rfl, h⟩ hread
  exact h'

end

theorem readItems_keeps {P : α → Prop} {item : Reader α}
    (hitem : ∀ bytes a rest, item bytes = .ok (a, rest) → P a) {fuel : Nat}
    {read items : List α} {bytes rest : Bytes} (h : ∀ a ∈ read, P a)
    (hread : readItems item fuel read bytes = .ok (items, rest)) : ∀ a ∈ items, P a := by
  induction fuel generalizing read bytes with
  | zero =>
      cases hread
      simpa using h
  | succ fuel ih =>
      rw [readItems] at hread
      split at hread
      · cases hread
      · cases hread
        simpa using h
      · split at hread
        · cases hread
        · rename_i value more hvalue
          refine ih ?_ hread
          intro a ha
          rcases List.mem_cons.mp ha with rfl | ha
          · exact hitem _ _ _ hvalue
          · exact h a ha

/-! ## Values -/

def Codec.Yields (c : Codec α) (P : α → Prop) : Prop :=
  ∀ depth bytes a rest, c.read depth bytes = .ok (a, rest) → P a

theorem Codec.yields_true (c : Codec α) : c.Yields fun _ => True := fun _ _ _ _ _ => trivial

namespace Codec

theorem check_eq_ok {range : Range} {v : Num} {n : Int} (h : range.check v = .ok n) :
    v = .whole n ∧ range.least ≤ n ∧ n ≤ range.greatest := by
  cases v with
  | real x => cases h
  | whole m =>
      simp only [Range.check] at h
      split at h
      · rename_i hrange
        cases h
        simp only [Bool.and_eq_true, decide_eq_true_eq] at hrange
        exact ⟨rfl, hrange⟩
      · cases h

/-- A number that is let through is whole and lies in the range. -/
theorem checked_eq_ok {range : Range} {result : Except Fault (Num × Bytes)} {n : Int} {rest : Bytes}
    (h : (do
      let (v, rest) ← result
      match range.check v with
      | .ok n => return (n, rest)
      | .error cause => .error (.before cause rest)) = Except.ok (n, rest)) :
    result = .ok (.whole n, rest) ∧ range.least ≤ n ∧ n ≤ range.greatest := by
  obtain ⟨⟨v, more⟩, hv, hcheck⟩ := bind_eq_ok h
  simp only at hcheck
  split at hcheck
  · rename_i m hm
    cases hcheck
    obtain ⟨rfl, hrange⟩ := check_eq_ok hm
    exact ⟨hv, hrange⟩
  · cases hcheck

/-- A whole number was read from its digits, or from those after a minus sign. -/
theorem whole_read {range : Range} {depth : Nat} {bytes rest : Bytes} {n : Int}
    (h : (whole range).read depth bytes = .ok (n, rest)) :
    (range.least ≤ n ∧ n ≤ range.greatest) ∧
      ((∃ more, skipSpaces bytes = minus :: more ∧
          readNumber true more = .ok (.whole n, rest)) ∨
        ∃ b more, skipSpaces bytes = b :: more ∧ isDigitByte b = true ∧
          readNumber false (b :: more) = .ok (.whole n, rest)) := by
  unfold whole at h
  simp only at h
  split at h
  · cases h
  · rename_i more hbytes
    obtain ⟨hread, hrange⟩ := checked_eq_ok h
    exact ⟨hrange, .inl ⟨more, hbytes, hread⟩⟩
  · rename_i b more _ hbytes
    split at h
    · rename_i hdigit
      obtain ⟨hread, hrange⟩ := checked_eq_ok h
      exact ⟨hrange, .inr ⟨b, more, hbytes, hdigit, hread⟩⟩
    · cases h

theorem natural_read {range : Range} {depth : Nat} {bytes rest : Bytes} {n : Nat}
    (h : (natural range).read depth bytes = .ok (n, rest)) :
    ∃ m : Int, (whole range).read depth bytes = .ok (m, rest) ∧ m.toNat = n := by
  obtain ⟨⟨m, more⟩, hm, heq⟩ := map_eq_ok h
  cases heq
  exact ⟨m, hm, rfl⟩

theorem natural32_yields : (natural .natural32).Yields (· < 2 ^ 32) := by
  intro depth bytes n rest h
  obtain ⟨m, hm, rfl⟩ := natural_read h
  have hrange := (whole_read hm).1
  simp only [Range.natural32] at hrange
  omega

theorem optional_yields {c : Codec α} {P : α → Prop} (h : c.Yields P) :
    c.optional.Yields fun value => ∀ a ∈ value, P a := by
  intro depth bytes value rest hread
  unfold optional at hread
  simp only at hread
  split at hread
  · obtain ⟨pair, -, heq⟩ := map_eq_ok hread
    cases heq
    simp
  · obtain ⟨pair, hpair, heq⟩ := map_eq_ok hread
    cases heq
    intro a ha
    cases ha
    exact h _ _ _ _ hpair

theorem list_yields {c : Codec α} {P : α → Prop} (h : c.Yields P) :
    c.list.Yields fun items => ∀ a ∈ items, P a := by
  intro depth bytes items rest hread
  unfold list at hread
  simp only at hread
  split at hread
  · cases hread
  · unfold enter at hread
    split at hread
    · cases hread
    · cases hread
    · obtain ⟨⟨items', rest'⟩, hitems, hend⟩ := bind_eq_ok hread
      obtain ⟨rest'', -, heq⟩ := bind_eq_ok hend
      cases heq
      exact readItems_keeps (h _) (by simp) hitems
  · cases hread

end Codec

/-! ## Records -/

def Member.Keeps (m : Member ρ) (P : ρ → Prop) : Prop :=
  ∀ depth bytes change rest, m.read depth bytes = .ok (change, rest) → ∀ r, P r → P (change r)

/-- A member that was not there leaves the law of drafts true. -/
def Member.KeepsMissing (m : Member ρ) (P : ρ → Prop) : Prop :=
  ∀ change, m.lacking = some change ∨ m.short = some change → ∀ r, P r → P (change r)

namespace Member

variable {name : String} {c : Codec α} {Q : α → Prop} {P : ρ → Prop}

theorem required_keeps {get : ρ → α} {set : α → ρ → ρ} (h : c.Yields Q)
    (hset : ∀ a r, Q a → P r → P (set a r)) : (required name c get set).Keeps P := by
  intro depth bytes change rest hread r hr
  obtain ⟨⟨a, left⟩, ha, heq⟩ := map_eq_ok hread
  cases heq
  exact hset a r (h _ _ _ _ ha) hr

theorem optional_keeps {get : ρ → Option α} {set : Option α → ρ → ρ} (h : c.Yields Q)
    (hset : ∀ value r, (∀ a ∈ value, Q a) → P r → P (set value r)) :
    (optional name c get set).Keeps P :=
  (required_keeps (Codec.optional_yields h) hset : (required name c.optional get set).Keeps P)

theorem defaulted_keeps {value : α} {get : ρ → α} {set : α → ρ → ρ} (h : c.Yields Q)
    (hset : ∀ a r, Q a → P r → P (set a r)) : (defaulted name c value get set).Keeps P :=
  (required_keeps h hset : (required name c get set).Keeps P)

theorem trailing_keeps {get : ρ → Option α} {set : Option α → ρ → ρ} (h : c.Yields Q)
    (hset : ∀ value r, (∀ a ∈ value, Q a) → P r → P (set value r)) :
    (trailing name c get set).Keeps P :=
  (required_keeps (Codec.optional_yields h) hset : (required name c.optional get set).Keeps P)

theorem optional_missing {get : ρ → Option α} {set : Option α → ρ → ρ}
    (h : ∀ r, P r → P (set none r)) : (optional name c get set).KeepsMissing P := by
  rintro change (hchange | hchange) r hr
  · cases hchange
    exact h r hr
  · cases hchange

theorem defaulted_missing {value : α} {get : ρ → α} {set : α → ρ → ρ}
    (h : ∀ r, P r → P (set value r)) : (defaulted name c value get set).KeepsMissing P := by
  rintro change (hchange | hchange) r hr
  all_goals
    cases hchange
    exact h r hr

theorem trailing_missing {get : ρ → Option α} {set : Option α → ρ → ρ}
    (h : ∀ r, P r → P (set none r)) : (trailing name c get set).KeepsMissing P := by
  rintro change (hchange | hchange) r hr
  all_goals
    cases hchange
    exact h r hr

end Member

namespace Shape

theorem fill_keeps {P : ρ → Prop} {members : List (Member ρ)} {seen : List String} {value r : ρ}
    (hmissing : ∀ m ∈ members, m.KeepsMissing P) (h : P value)
    (hfill : fill members seen value = .ok r) : P r := by
  induction members generalizing value with
  | nil =>
      cases hfill
      exact h
  | cons m members ih =>
      have hlater : ∀ n ∈ members, n.KeepsMissing P := fun n hn => hmissing n (by simp [hn])
      rw [fill] at hfill
      split at hfill
      · exact ih hlater h hfill
      · split at hfill
        · rename_i change hchange
          exact ih hlater (hmissing m (by simp) change (.inl hchange) value h) hfill
        · cases hfill

theorem readRow_keeps {shape : Shape ρ} {P : ρ → Prop} {depth index : Nat}
    {members : List (Member ρ)} {value r : ρ} {bytes rest : Bytes}
    (hread : ∀ m ∈ members, m.Keeps P) (hmissing : ∀ m ∈ members, m.KeepsMissing P) (h : P value)
    (hrow : shape.readRow depth index members value bytes = .ok (r, rest)) : P r := by
  induction members generalizing index value bytes with
  | nil =>
      cases hrow
      exact h
  | cons m members ih =>
      have hread' : ∀ n ∈ members, n.Keeps P := fun n hn => hread n (by simp [hn])
      have hmissing' : ∀ n ∈ members, n.KeepsMissing P := fun n hn => hmissing n (by simp [hn])
      rw [readRow] at hrow
      split at hrow
      · cases hrow
      · split at hrow
        · rename_i change hchange
          exact ih hread' hmissing' (hmissing m (by simp) change (.inr hchange) value h) hrow
        · cases hrow
      · split at hrow
        · cases hrow
        · rename_i change more hvalue
          exact ih hread' hmissing' (hread m (by simp) _ _ _ _ hvalue value h) hrow

theorem readMember_keeps {shape : Shape ρ} {P : ρ → Prop}
    (hread : ∀ m ∈ shape.members, m.Keeps P) {depth : Nat} {name : String} {draft draft' : Draft ρ}
    {bytes rest : Bytes} (h : P draft.value)
    (hmember : shape.readMember depth name draft bytes = .ok (draft', rest)) : P draft'.value := by
  unfold readMember at hmember
  split at hmember
  · rename_i m hm
    obtain ⟨⟨change, more⟩, hchange, heq⟩ := map_eq_ok hmember
    cases heq
    exact hread m (List.mem_of_find?_eq_some hm) _ _ _ _ hchange _ h
  · obtain ⟨more, -, heq⟩ := map_eq_ok hmember
    cases heq
    exact h

theorem codec_read {shape : Shape ρ} {depth : Nat} {bytes rest : Bytes} {r : ρ}
    (h : shape.codec.read depth bytes = .ok (r, rest)) :
    ∃ depth' more, skipSpaces bytes = openObject :: more ∧
        shape.readObject depth' more = .ok (r, rest) ∨
      skipSpaces bytes = openList :: more ∧ shape.readList depth' more = .ok (r, rest) := by
  have henter : ∀ {read : Nat → Reader ρ} {b : UInt8} {more : Bytes},
      enter depth (b :: more) read = .ok (r, rest) →
        ∃ depth', read depth' more = .ok (r, rest) := by
    intro read b more he
    unfold enter at he
    split at he
    · cases he
    · cases he
    · exact ⟨_, he⟩
  unfold codec at h
  simp only at h
  split at h
  · cases h
  · rename_i more hbytes
    obtain ⟨depth', hread⟩ := henter h
    exact ⟨depth', more, .inr ⟨hbytes, hread⟩⟩
  · rename_i more hbytes
    obtain ⟨depth', hread⟩ := henter h
    exact ⟨depth', more, .inl ⟨hbytes, hread⟩⟩
  · cases h

theorem readObject_eq_ok {shape : Shape ρ} {depth : Nat} {bytes rest : Bytes} {r : ρ}
    (h : shape.readObject depth bytes = .ok (r, rest)) :
    ∃ draft more, readMembers repeats (shape.readMember depth) (bytes.length + 1) true
        { value := shape.start, seen := [] } bytes = .ok (draft, more) ∧
      shape.finish draft = .ok r := by
  obtain ⟨⟨draft, more⟩, hmembers, hfinish⟩ := bind_eq_ok h
  simp only at hfinish
  split at hfinish
  · cases hfinish
  · rename_i value hvalue
    obtain ⟨left, -, heq⟩ := bind_eq_ok hfinish
    cases heq
    exact ⟨draft, more, hmembers, hvalue⟩

theorem readList_eq_ok {shape : Shape ρ} {depth : Nat} {bytes rest : Bytes} {r : ρ}
    (h : shape.readList depth bytes = .ok (r, rest)) :
    ∃ more, shape.readRow depth 0 shape.members shape.start bytes = .ok (r, more) := by
  obtain ⟨⟨value, more⟩, hrow, hend⟩ := bind_eq_ok h
  obtain ⟨left, -, heq⟩ := bind_eq_ok hend
  cases heq
  exact ⟨more, hrow⟩

/-- A law of drafts that holds at the start and that every member keeps holds of every record that
is read. -/
theorem yields {shape : Shape ρ} {P : ρ → Prop} (hstart : P shape.start)
    (hread : ∀ m ∈ shape.members, m.Keeps P) (hmissing : ∀ m ∈ shape.members, m.KeepsMissing P) :
    shape.codec.Yields P := by
  intro depth bytes r rest h
  obtain ⟨depth', more, ⟨-, hobject⟩ | ⟨-, hlist⟩⟩ := codec_read h
  · obtain ⟨draft, more', hmembers, hfinish⟩ := readObject_eq_ok hobject
    have hdraft := readMembers_keeps (P := fun d : Draft ρ => P d.value)
      (fun _ _ _ _ _ hd hm => readMember_keeps hread hd hm) hstart hmembers
    exact fill_keeps hmissing hdraft hfinish
  · obtain ⟨more', hrow⟩ := readList_eq_ok hlist
    exact readRow_keeps hread hmissing hstart hrow

end Shape

end WalletBridge.Json
