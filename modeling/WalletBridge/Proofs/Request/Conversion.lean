import WalletBridge.Proofs.Request.Transaction

/-! # Conversion agrees with the check

An input or output of a transaction is checked by one function and converted by
another, each with its own reading of the index and of the amounts. Here the two
agree: a conversion fails exactly when the check does, with the same errors, and
loses nothing otherwise. After the check of a whole transaction every one of its
parts is converted.
-/

namespace WalletBridge.Request

open Device Text

/-- A sequence whose second part does not fail after the first fails where the first does. -/
theorem bind_eq_error_iff {x : Except ε α} {f : α → Except ε β} {e : ε}
    (h : ∀ a, x = .ok a → ∃ b, f a = .ok b) : (x >>= f) = .error e ↔ x = .error e := by
  cases x with
  | error e' =>
      constructor <;>
        · rintro ⟨⟩
          rfl
  | ok a =>
      obtain ⟨b, hb⟩ := h a rfl
      constructor
      · intro herror
        have hok : f a = .error e := herror
        rw [hb] at hok
        cases hok
      · rintro ⟨⟩

theorem mapM_ok_of_all {f : α → Except ε β} {items : List α}
    (h : ∀ a ∈ items, ∃ b, f a = .ok b) : ∃ results, items.mapM f = .ok results := by
  induction items with
  | nil => exact ⟨[], rfl⟩
  | cons a items ih =>
      obtain ⟨b, hb⟩ := h a (by simp)
      obtain ⟨results, hresults⟩ := ih fun a ha => h a (by simp [ha])
      refine ⟨b :: results, ?_⟩
      rw [List.mapM_cons, hb, hresults]
      rfl

/-! ## Single parts -/

theorem validate_ne_error_nil [Body α] (a : α) : validate a ≠ .error [] := by
  unfold validate
  cases Body.errors a <;> simp [Errors.toResult]

theorem TransactionInput.toSignInput_of_valid {r : TransactionInput} (h : validate r = .ok ()) :
    ∃ i, r.toSignInput = .ok i := by
  have herrors := errors_of_valid h
  simp only [Body.errors, List.append_eq_nil_iff] at herrors
  obtain ⟨hash, hhash⟩ := required_eq_nil herrors.1.1
  obtain ⟨index, hindex⟩ := required_eq_nil herrors.1.2
  refine ⟨{ hash, index := low32 index }, ?_⟩
  rw [toSignInput, h, hhash, hindex]
  rfl

/-- A text passes for an amount when it spells a number of 64 bits. -/
theorem TransactionOutput.amountErrors_eq_nil {name s : String} :
    amountErrors name (some s) = [] ↔ ∃ n, Spells s n ∧ n < 2 ^ 64 := by
  have hsome : (amount? s).isSome ↔ ∃ n, Spells s n ∧ n < 2 ^ 64 := by
    simp only [Option.isSome_iff_exists, amount?_eq_some_iff]
  rw [← hsome, amountErrors]
  split <;> simp_all [Errors.invalid]

theorem TransactionOutput.toSignOutput_of_valid {r : TransactionOutput} (h : validate r = .ok ()) :
    ∃ o, r.toSignOutput = .ok o := by
  have herrors := errors_of_valid h
  simp only [Body.errors, List.append_eq_nil_iff] at herrors
  obtain ⟨⟨⟨⟨haddress, hcoins⟩, hhours⟩, hcoinsErrors⟩, hhoursErrors⟩ := herrors
  obtain ⟨address, haddress⟩ := required_eq_nil haddress
  obtain ⟨c, hc⟩ := required_eq_nil hcoins
  obtain ⟨d, hd⟩ := required_eq_nil hhours
  rw [hc, amountErrors_eq_nil] at hcoinsErrors
  rw [hd, amountErrors_eq_nil] at hhoursErrors
  obtain ⟨coins, hcoins⟩ := hcoinsErrors
  obtain ⟨hours, hhours⟩ := hhoursErrors
  refine ⟨{ address, coins, hours, addressIndex := r.addressIndex }, ?_⟩
  rw [toSignOutput, h, haddress, hc, hd, Option.bind_some, Option.bind_some,
    amount?_eq_some_iff.mpr hcoins, amount?_eq_some_iff.mpr hhours]
  rfl

theorem TransactionInput.toSignInput_eq_error_iff {r : TransactionInput} {errors : Errors} :
    r.toSignInput = .error errors ↔ validate r = .error errors :=
  bind_eq_error_iff fun _ h => by
    obtain ⟨i, hi⟩ := toSignInput_of_valid h
    rw [toSignInput, h] at hi
    exact ⟨i, hi⟩

theorem TransactionOutput.toSignOutput_eq_error_iff {r : TransactionOutput} {errors : Errors} :
    r.toSignOutput = .error errors ↔ validate r = .error errors :=
  bind_eq_error_iff fun _ h => by
    obtain ⟨o, ho⟩ := toSignOutput_of_valid h
    rw [toSignOutput, h] at ho
    exact ⟨o, ho⟩

/-! ## Whole transactions -/

namespace TransactionSign

theorem entries_valid [Body α] {name : String} {i : Nat} {entries : List α}
    (h : entryErrors name i entries = []) : ∀ entry ∈ entries, validate entry = .ok () := by
  induction entries generalizing i with
  | nil => simp
  | cons entry entries ih =>
      rw [entryErrors, List.append_eq_nil_iff] at h
      have hfirst : Body.errors entry = [] := List.map_eq_nil_iff.mp h.1
      intro other hother
      rcases List.mem_cons.mp hother with rfl | hother
      · exact (Errors.toResult_ok_iff _).mpr hfirst
      · exact ih h.2 other hother

theorem list_valid [Body α] {name : String} {entries : Option (List α)}
    (h : listErrors name entries = []) : ∀ entry ∈ entries.getD [], validate entry = .ok () := by
  cases entries with
  | none => simp
  | some entries =>
      rw [listErrors, List.append_eq_nil_iff] at h
      exact entries_valid h.2

theorem converts {b : TransactionSign} (h : validate b = .ok ()) :
    ∃ inputs outputs, (b.inputs.getD []).mapM TransactionInput.toSignInput = .ok inputs ∧
      (b.outputs.getD []).mapM TransactionOutput.toSignOutput = .ok outputs := by
  have herrors := errors_of_valid h
  simp only [Body.errors, List.append_eq_nil_iff] at herrors
  obtain ⟨⟨-, hins⟩, houts⟩ := herrors
  obtain ⟨inputs, hinputs⟩ := mapM_ok_of_all fun r hr =>
    TransactionInput.toSignInput_of_valid (list_valid hins r hr)
  obtain ⟨outputs, houtputs⟩ := mapM_ok_of_all fun r hr =>
    TransactionOutput.toSignOutput_of_valid (list_valid houts r hr)
  exact ⟨inputs, outputs, hinputs, houtputs⟩

end TransactionSign

open TransactionOutput in
/-- For every input and every output of a transaction the conversion fails exactly when the check
fails, with the same errors, of which there is at least one; otherwise the result has the same
texts and the same numbers. A text is an amount exactly when it spells a number of 64 bits. When a
whole transaction is accepted, the endpoint's conversions of its parts succeed. -/
theorem conversions_agree :
    (∀ (r : TransactionInput) (errors : Errors),
      (r.toSignInput = .error errors ↔ validate r = .error errors) ∧
        r.toSignInput ≠ .error []) ∧
    (∀ (r : TransactionInput) (i : SignInput), r.toSignInput = .ok i →
      r.hash = some i.hash ∧ r.index = some (i.index : Int) ∧ i.index < 2 ^ 32) ∧
    (∀ (r : TransactionOutput) (errors : Errors),
      (r.toSignOutput = .error errors ↔ validate r = .error errors) ∧
        r.toSignOutput ≠ .error []) ∧
    (∀ (r : TransactionOutput) (o : SignOutput), r.toSignOutput = .ok o →
      r.Becomes o ∧ o.coins < 2 ^ 64 ∧ o.hours < 2 ^ 64) ∧
    (∀ (s name : String), (∀ n, amount? s = some n ↔ Spells s n ∧ n < 2 ^ 64) ∧
      (amountErrors name (some s) = [] ↔ ∃ n, Spells s n ∧ n < 2 ^ 64)) ∧
    (∀ b : TransactionSign, validate b = .ok () → ∃ inputs outputs,
      (b.inputs.getD []).mapM TransactionInput.toSignInput = .ok inputs ∧
      (b.outputs.getD []).mapM TransactionOutput.toSignOutput = .ok outputs) := by
  refine ⟨?_, ?_, ?_, ?_, ?_, ?_⟩
  · intro r errors
    refine ⟨TransactionInput.toSignInput_eq_error_iff, ?_⟩
    rw [Ne, TransactionInput.toSignInput_eq_error_iff]
    exact validate_ne_error_nil r
  · intro r i h
    obtain ⟨hbecomes, hbounded⟩ := TransactionInput.toSignInput_eq_ok h
    exact ⟨hbecomes.hash, hbecomes.index, hbounded⟩
  · intro r errors
    refine ⟨toSignOutput_eq_error_iff, ?_⟩
    rw [Ne, toSignOutput_eq_error_iff]
    exact validate_ne_error_nil r
  · intro r o h
    exact toSignOutput_becomes h
  · intro s name
    exact ⟨fun _ => amount?_eq_some_iff, amountErrors_eq_nil⟩
  · intro b h
    exact b.converts h

/-- The greatest index, and an amount with a plus sign and leading zeros. -/
theorem conversions_agree_plus :
    (⟨some "b7", some 4294967295⟩ : TransactionInput).Becomes ⟨"b7", 4294967295⟩ ∧
    (⟨some "2M9hQ4", some "+007", some "0", none⟩ : TransactionOutput).Becomes
      ⟨"2M9hQ4", 7, 0, none⟩ ∧
    ∃ inputs outputs,
      [⟨some "b7", some 4294967295⟩].mapM TransactionInput.toSignInput = .ok inputs ∧
      [⟨some "2M9hQ4", some "+007", some "0", none⟩].mapM TransactionOutput.toSignOutput
        = .ok outputs := by
  obtain ⟨-, hinput, -, houtput, -, hwhole⟩ := conversions_agree
  have hvalid : validate (⟨some [⟨some "b7", some 4294967295⟩],
      some [⟨some "2M9hQ4", some "+007", some "0", none⟩]⟩ : TransactionSign) = .ok () := by
    decide +kernel
  obtain ⟨hhash, hindex, -⟩ :=
    hinput ⟨some "b7", some 4294967295⟩ ⟨"b7", 4294967295⟩ (by rfl)
  obtain ⟨hbecomes, -⟩ :=
    houtput ⟨some "2M9hQ4", some "+007", some "0", none⟩ ⟨"2M9hQ4", 7, 0, none⟩ (by rfl)
  exact ⟨⟨hhash, hindex⟩, hbecomes, hwhole _ hvalid⟩

end WalletBridge.Request
