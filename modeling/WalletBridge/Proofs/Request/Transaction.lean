import Mathlib.Data.Nat.Digits.Defs
import WalletBridge.Proofs.Request.Accepted

/-! # Accepted transactions

Each part of an accepted transaction becomes one part of the message to the
device, in its place, with the same texts and the same numbers. An amount is the
number that its text spells in decimal.
-/

namespace WalletBridge.Request

open Device Json Text

/-! ## Amounts -/

/-- The text is a number in decimal, perhaps after a plus sign. -/
def Spells (s : String) (n : Nat) : Prop :=
  ∃ digits : List Char, (s.toList = digits ∨ s.toList = '+' :: digits) ∧ digits ≠ [] ∧
    (∀ c ∈ digits, isDigit c) ∧ n = Nat.ofDigits 10 (digits.map digitValue).reverse

theorem digitsValue_eq (cs : List Char) :
    digitsValue cs = Nat.ofDigits 10 (cs.map digitValue).reverse := by
  rw [Nat.ofDigits_eq_foldr, List.foldr_reverse, List.foldl_map, digitsValue]
  congr 1
  funext n c
  simp
  omega

/-- A number is read from the texts that spell it, and from no others. -/
theorem natural?_eq_some_iff {s : String} {n : Nat} : natural? s = some n ↔ Spells s n := by
  constructor
  · intro h
    unfold natural? at h
    split at h
    · rename_i cs hcs
      obtain ⟨hne, hall, rfl⟩ := digits?_eq_some_iff.mp h
      exact ⟨cs, .inr hcs, hne, hall, digitsValue_eq cs⟩
    · obtain ⟨hne, hall, rfl⟩ := digits?_eq_some_iff.mp h
      exact ⟨s.toList, .inl rfl, hne, hall, digitsValue_eq s.toList⟩
  · rintro ⟨digits, hs, hne, hall, rfl⟩
    have hdigits : digits? digits = some (Nat.ofDigits 10 (digits.map digitValue).reverse) :=
      digits?_eq_some_iff.mpr ⟨hne, hall, (digitsValue_eq digits).symm⟩
    unfold natural?
    rcases hs with hs | hs
    · rw [hs]
      split
      · -- a plus sign is not a digit
        have hplus : isDigit '+' := hall '+' (by simp)
        exact absurd hplus (by decide)
      · exact hdigits
    · rw [hs]
      exact hdigits

/-- An amount is the number that its text spells, if it has 64 bits. -/
theorem amount?_eq_some_iff {s : String} {n : Nat} :
    TransactionOutput.amount? s = some n ↔ Spells s n ∧ n < 2 ^ 64 := by
  have hbound : n ≤ greatest64 ↔ n < 2 ^ 64 := by
    unfold greatest64
    omega
  rw [TransactionOutput.amount?, naturalUpTo?, Option.filter_eq_some_iff, natural?_eq_some_iff,
    decide_eq_true_eq, hbound]

/-! ## Inputs and outputs -/

/-- The input for the device has the texts and numbers of the client's. -/
structure TransactionInput.Becomes (r : TransactionInput) (i : SignInput) : Prop where
  hash : r.hash = some i.hash
  index : r.index = some (i.index : Int)

/-- The output for the device has the texts and numbers of the client's. -/
structure TransactionOutput.Becomes (r : TransactionOutput) (o : SignOutput) : Prop where
  address : r.address = some o.address
  coins : ∃ s, r.coins = some s ∧ Spells s o.coins
  hours : ∃ s, r.hours = some s ∧ Spells s o.hours
  addressIndex : r.addressIndex = o.addressIndex

theorem TransactionInput.index_of_valid {r : TransactionInput} (h : validate r = .ok ()) :
    ∀ n ∈ r.index, 0 ≤ n ∧ n < 2 ^ 32 := by
  intro n hn
  have herrors := errors_of_valid h
  simp only [Body.errors, List.append_eq_nil_iff] at herrors
  have hindex := herrors.2
  rw [hn] at hindex
  unfold indexErrors at hindex
  simp only at hindex
  split at hindex
  · rename_i hrange
    simp only [Bool.and_eq_true, decide_eq_true_eq] at hrange
    unfold greatestIndex at hrange
    omega
  · cases hindex

theorem TransactionInput.toSignInput_eq_ok {r : TransactionInput} {i : SignInput}
    (h : r.toSignInput = .ok i) : r.Becomes i ∧ i.Bounded := by
  obtain ⟨⟨⟩, hvalid, hparts⟩ := bind_eq_ok h
  split at hparts
  · rename_i hash index hhash hindex
    cases hparts
    obtain ⟨hlow, hhigh⟩ := index_of_valid hvalid index hindex
    have hsame : (low32 index : Int) = index := by
      unfold low32
      omega
    refine ⟨⟨hhash, by rw [hindex, hsame]⟩, ?_⟩
    show low32 index < 2 ^ 32
    omega
  · cases hparts

theorem TransactionOutput.toSignOutput_becomes {r : TransactionOutput} {o : SignOutput}
    (h : r.toSignOutput = .ok o) : r.Becomes o ∧ o.coins < 2 ^ 64 ∧ o.hours < 2 ^ 64 := by
  obtain ⟨⟨⟩, hvalid, hparts⟩ := bind_eq_ok h
  split at hparts
  · rename_i address coins hours haddress hcoins hhours
    cases hparts
    obtain ⟨c, hc, hcoins⟩ := Option.bind_eq_some_iff.mp hcoins
    obtain ⟨d, hd, hhours⟩ := Option.bind_eq_some_iff.mp hhours
    obtain ⟨hcoinsSpelt, hcoinsBound⟩ := amount?_eq_some_iff.mp hcoins
    obtain ⟨hhoursSpelt, hhoursBound⟩ := amount?_eq_some_iff.mp hhours
    exact ⟨⟨haddress, ⟨c, hc, hcoinsSpelt⟩, ⟨d, hd, hhoursSpelt⟩, rfl⟩, hcoinsBound, hhoursBound⟩
  · cases hparts

theorem TransactionOutput.toSignOutput_eq_ok {r : TransactionOutput} {o : SignOutput}
    (h : r.toSignOutput = .ok o) (hindex : ∀ n ∈ r.addressIndex, n < 2 ^ 32) :
    r.Becomes o ∧ o.Bounded := by
  obtain ⟨hbecomes, hcoins, hhours⟩ := toSignOutput_becomes h
  rw [hbecomes.addressIndex] at hindex
  exact ⟨hbecomes, hcoins, hhours, hindex⟩

/-- When every part is converted, the results stand in the places of the parts. -/
theorem mapM_eq_ok {f : α → Except ε β} {R : α → β → Prop} {Q : β → Prop} {items : List α}
    {results : List β} (hstep : ∀ a ∈ items, ∀ b, f a = .ok b → R a b ∧ Q b)
    (h : items.mapM f = .ok results) : List.Forall₂ R items results ∧ ∀ b ∈ results, Q b := by
  induction items generalizing results with
  | nil =>
      cases h
      exact ⟨.nil, by simp⟩
  | cons a items ih =>
      rw [List.mapM_cons] at h
      obtain ⟨b, hb, hrest⟩ := bind_eq_ok h
      obtain ⟨more, hmore, heq⟩ := bind_eq_ok hrest
      cases heq
      obtain ⟨hrelated, hall⟩ := ih (fun a ha => hstep a (by simp [ha])) hmore
      obtain ⟨hR, hQ⟩ := hstep a (by simp) b hb
      refine ⟨.cons hR hrelated, ?_⟩
      intro d hd
      rcases List.mem_cons.mp hd with rfl | hd
      · exact hQ
      · exact hall d hd

theorem toSignInputs_eq_ok {given : List TransactionInput} {inputs : List SignInput}
    (h : given.mapM TransactionInput.toSignInput = .ok inputs) :
    List.Forall₂ TransactionInput.Becomes given inputs ∧ ∀ i ∈ inputs, i.Bounded :=
  mapM_eq_ok (fun _ _ _ hi => TransactionInput.toSignInput_eq_ok hi) h

theorem toSignOutputs_eq_ok {wanted : List TransactionOutput} {outputs : List SignOutput}
    (hindex : ∀ o ∈ wanted, ∀ n ∈ o.addressIndex, n < 2 ^ 32)
    (h : wanted.mapM TransactionOutput.toSignOutput = .ok outputs) :
    List.Forall₂ TransactionOutput.Becomes wanted outputs ∧ ∀ o ∈ outputs, o.Bounded :=
  mapM_eq_ok (fun r hr _ ho => TransactionOutput.toSignOutput_eq_ok ho (hindex r hr)) h

/-! ## Whole transactions -/

namespace TransactionSign

/-- The lists of an accepted transaction are there, and neither empty nor too long. -/
theorem parts_of_valid {b : TransactionSign} (h : validate b = .ok ()) :
    ∃ inputs outputs, b.inputs = some inputs ∧ b.outputs = some outputs ∧
      (1 ≤ inputs.length ∧ inputs.length ≤ 8) ∧ 1 ≤ outputs.length ∧ outputs.length ≤ 8 := by
  have herrors := errors_of_valid h
  simp only [Body.errors, List.append_eq_nil_iff] at herrors
  obtain ⟨⟨⟨hins, houts⟩, hinErrors⟩, houtErrors⟩ := herrors
  obtain ⟨inputs, hinputs⟩ := required_eq_nil hins
  obtain ⟨outputs, houtputs⟩ := required_eq_nil houts
  have hlength : ∀ {name : String} {n : Nat}, lengthErrors name n = [] → 1 ≤ n ∧ n ≤ 8 := by
    intro name n hn
    unfold lengthErrors at hn
    split at hn
    · cases hn
    · rename_i hbad
      simp only [Bool.or_eq_true, beq_iff_eq, decide_eq_true_eq, not_or] at hbad
      unfold mostEntries at hbad
      omega
  rw [hinputs, listErrors, List.append_eq_nil_iff] at hinErrors
  rw [houtputs, listErrors, List.append_eq_nil_iff] at houtErrors
  exact ⟨inputs, outputs, hinputs, houtputs, hlength hinErrors.1, hlength houtErrors.1⟩

/-- The indices of keys that were read have 32 bits. -/
def Bounded (b : TransactionSign) : Prop :=
  ∀ outputs ∈ b.outputs, ∀ o ∈ outputs, ∀ n ∈ o.addressIndex, n < 2 ^ 32

theorem output_yields : TransactionOutput.shape.codec.Yields fun o =>
    ∀ n ∈ o.addressIndex, n < 2 ^ 32 := by
  have hstart : ∀ n ∈ TransactionOutput.shape.start.addressIndex, n < 2 ^ 32 := by rintro n ⟨⟩
  refine Shape.yields hstart ?_ ?_
  · intro m hm
    simp only [TransactionOutput.shape, List.mem_cons, List.not_mem_nil, or_false] at hm
    rcases hm with rfl | rfl | rfl | rfl
    · exact Member.optional_keeps (Codec.yields_true _) fun _ _ _ hr => hr
    · exact Member.optional_keeps (Codec.yields_true _) fun _ _ _ hr => hr
    · exact Member.optional_keeps (Codec.yields_true _) fun _ _ _ hr => hr
    · exact Member.trailing_keeps Codec.natural32_yields fun _ _ ha _ => ha
  · intro m hm
    simp only [TransactionOutput.shape, List.mem_cons, List.not_mem_nil, or_false] at hm
    rcases hm with rfl | rfl | rfl | rfl
    · exact Member.optional_missing fun _ hr => hr
    · exact Member.optional_missing fun _ hr => hr
    · exact Member.optional_missing fun _ hr => hr
    · exact Member.trailing_missing fun _ _ => by rintro n ⟨⟩

theorem bounded_of_read {body : Bytes} {b : TransactionSign}
    (h : Json.decode (Body.shape : Shape TransactionSign).codec body = .ok b) : b.Bounded := by
  have hstart : (Body.shape : Shape TransactionSign).start.Bounded := by rintro outputs ⟨⟩
  refine yields_of_read (Shape.yields hstart ?_ ?_) h
  · intro m hm
    simp only [Body.shape, List.mem_cons, List.not_mem_nil, or_false] at hm
    rcases hm with rfl | rfl
    · exact Member.optional_keeps (Codec.yields_true _) fun _ _ _ hr => hr
    · exact Member.optional_keeps (Codec.list_yields output_yields) fun _ _ ha _ => ha
  · intro m hm
    simp only [Body.shape, List.mem_cons, List.not_mem_nil, or_false] at hm
    rcases hm with rfl | rfl
    · exact Member.optional_missing fun _ hr => hr
    · exact Member.optional_missing fun _ _ => by rintro outputs ⟨⟩

end TransactionSign

end WalletBridge.Request
