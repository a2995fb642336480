import Mathlib.Data.List.Forall2
import Mathlib.Data.Nat.Digits.Defs
import WalletBridge.Http.Route
import WalletBridge.Proofs.Device.Datagram
import WalletBridge.Proofs.Json.Given

/-! # What an accepted body holds

A body is accepted when it is read and its check finds nothing wrong. For each
type of requests: what its check has made sure of, the ranges of its numbers,
and, for a transaction, how each of its parts becomes a part of the message.
-/

namespace WalletBridge.Request

open Device Json Text

/-- The body is read as this value, and the check of the value finds nothing wrong. -/
structure Accepted [Body α] (body : Bytes) (a : α) : Prop where
  read : Json.decode (Body.shape : Shape α).codec body = .ok a
  valid : validate a = .ok ()

theorem errors_of_valid [Body α] {a : α} (h : validate a = .ok ()) : Body.errors a = [] :=
  (Errors.toResult_ok_iff _).mp h

theorem required_eq_nil {name : String} {location : Location} {value : Option β}
    (h : Errors.required name location value = []) : ∃ b, value = some b := by
  cases value with
  | none => cases h
  | some b => exact ⟨b, rfl⟩

theorem yields_of_read [Body α] {P : α → Prop} {body : Bytes} {a : α}
    (hyields : (Body.shape : Shape α).codec.Yields P)
    (h : Json.decode (Body.shape : Shape α).codec body = .ok a) : P a := by
  obtain ⟨⟨b, rest⟩, hread, hend⟩ := bind_eq_ok h
  simp only at hend
  split at hend
  · cases hend
    exact hyields _ _ _ _ hread
  · cases hend

theorem lacking_of_read [Body α] {P : α → Prop} {name : String} {body : Bytes} {a : α}
    (hlacking : ∀ depth rest, (Body.shape : Shape α).codec.read depth body = .ok (a, rest) →
      name ∉ (Body.shape : Shape α).given body → P a)
    (h : Json.decode (Body.shape : Shape α).codec body = .ok a)
    (hname : name ∉ (Body.shape : Shape α).given body) : P a := by
  obtain ⟨⟨b, rest⟩, hread, hend⟩ := bind_eq_ok h
  simp only at hend
  split at hend
  · cases hend
    exact hlacking _ _ hread hname
  · cases hend

namespace GenerateAddresses

/-- The count and the first index have 32 bits. -/
structure Bounded (b : GenerateAddresses) : Prop where
  count : ∀ n ∈ b.addressCount, n < 2 ^ 32
  start : b.startIndex < 2 ^ 32

theorem bounded_of_read {body : Bytes} {b : GenerateAddresses}
    (h : Json.decode (Body.shape : Shape GenerateAddresses).codec body = .ok b) : b.Bounded := by
  have hstart : (Body.shape : Shape GenerateAddresses).start.Bounded :=
    ⟨by rintro n ⟨⟩, Nat.two_pow_pos 32⟩
  refine yields_of_read (Shape.yields hstart ?_ ?_) h
  · intro m hm
    simp only [Body.shape, List.mem_cons, List.not_mem_nil, or_false] at hm
    rcases hm with rfl | rfl | rfl
    · exact Member.optional_keeps Codec.natural32_yields fun _ r ha hr => ⟨ha, hr.start⟩
    · exact Member.defaulted_keeps Codec.natural32_yields fun _ r ha hr => ⟨hr.count, ha⟩
    · exact Member.defaulted_keeps Codec.truth.yields_true fun _ r _ hr => ⟨hr.count, hr.start⟩
  · intro m hm
    simp only [Body.shape, List.mem_cons, List.not_mem_nil, or_false] at hm
    rcases hm with rfl | rfl | rfl
    · exact Member.optional_missing fun r hr => ⟨by rintro n ⟨⟩, hr.start⟩
    · exact Member.defaulted_missing fun r hr => ⟨hr.count, Nat.two_pow_pos 32⟩
    · exact Member.defaulted_missing fun r hr => ⟨hr.count, hr.start⟩

theorem passes : ∀ m ∈ (Body.shape : Shape GenerateAddresses).members, m.Passes := by
  intro m hm
  simp only [Body.shape, List.mem_cons, List.not_mem_nil, or_false] at hm
  rcases hm with rfl | rfl | rfl
  · exact Member.optional_passes (Codec.natural_passes _)
  · exact Member.defaulted_passes (Codec.natural_passes _)
  · exact Member.defaulted_passes Codec.truth_passes

theorem startIndex_lacking {body : Bytes} {b : GenerateAddresses}
    (h : Json.decode (Body.shape : Shape GenerateAddresses).codec body = .ok b)
    (hname : "start_index" ∉ (Body.shape : Shape GenerateAddresses).given body) :
    b.startIndex = 0 := by
  have hstart : (Body.shape : Shape GenerateAddresses).start.startIndex = 0 := rfl
  refine lacking_of_read (P := fun b : GenerateAddresses => b.startIndex = 0) (fun depth rest =>
    Shape.lacking (P := fun b : GenerateAddresses => b.startIndex = 0) hstart passes ?_ ?_) h hname
  · intro m hm hne
    simp only [Body.shape, List.mem_cons, List.not_mem_nil, or_false] at hm
    rcases hm with rfl | rfl | rfl
    · exact Member.optional_keeps (Codec.yields_true _) fun _ _ _ hr => hr
    · exact absurd rfl hne
    · exact Member.defaulted_keeps (Codec.yields_true _) fun _ _ _ hr => hr
  · intro m hm
    simp only [Body.shape, List.mem_cons, List.not_mem_nil, or_false] at hm
    rcases hm with rfl | rfl | rfl
    · exact Member.optional_missing fun _ hr => hr
    · exact Member.defaulted_missing fun _ _ => rfl
    · exact Member.defaulted_missing fun _ hr => hr

theorem confirm_lacking {body : Bytes} {b : GenerateAddresses}
    (h : Json.decode (Body.shape : Shape GenerateAddresses).codec body = .ok b)
    (hname : "confirm_address" ∉ (Body.shape : Shape GenerateAddresses).given body) :
    b.confirm = false := by
  have hstart : (Body.shape : Shape GenerateAddresses).start.confirm = false := rfl
  refine lacking_of_read (P := fun b : GenerateAddresses => b.confirm = false) (fun depth rest =>
    Shape.lacking (P := fun b : GenerateAddresses => b.confirm = false) hstart passes ?_ ?_) h hname
  · intro m hm hne
    simp only [Body.shape, List.mem_cons, List.not_mem_nil, or_false] at hm
    rcases hm with rfl | rfl | rfl
    · exact Member.optional_keeps (Codec.yields_true _) fun _ _ _ hr => hr
    · exact Member.defaulted_keeps (Codec.yields_true _) fun _ _ _ hr => hr
    · exact absurd rfl hne
  · intro m hm
    simp only [Body.shape, List.mem_cons, List.not_mem_nil, or_false] at hm
    rcases hm with rfl | rfl | rfl
    · exact Member.optional_missing fun _ hr => hr
    · exact Member.defaulted_missing fun _ hr => hr
    · exact Member.defaulted_missing fun _ _ => rfl

theorem count_of_valid {b : GenerateAddresses} (h : validate b = .ok ()) :
    ∃ count, b.addressCount = some count ∧ 1 ≤ count ∧ count ≤ 99 := by
  have herrors := errors_of_valid h
  simp only [Body.errors, List.append_eq_nil_iff] at herrors
  obtain ⟨hrequired, hrange⟩ := herrors
  obtain ⟨count, hcount⟩ := required_eq_nil hrequired
  simp only [hcount] at hrange
  split at hrange
  · cases hrange
  · rename_i hbad
    simp only [Bool.or_eq_true, beq_iff_eq, decide_eq_true_eq, not_or] at hbad
    unfold mostAddresses at hbad
    exact ⟨count, hcount, by omega, by omega⟩

end GenerateAddresses

namespace SignMessage

theorem index_of_read {body : Bytes} {b : SignMessage}
    (h : Json.decode (Body.shape : Shape SignMessage).codec body = .ok b) :
    ∀ n ∈ b.addressIndex, n < 2 ^ 32 := by
  have hstart : ∀ n ∈ (Body.shape : Shape SignMessage).start.addressIndex, n < 2 ^ 32 := by
    rintro n ⟨⟩
  refine yields_of_read (P := fun b : SignMessage => ∀ n ∈ b.addressIndex, n < 2 ^ 32)
    (Shape.yields hstart ?_ ?_) h
  · intro m hm
    simp only [Body.shape, List.mem_cons, List.not_mem_nil, or_false] at hm
    rcases hm with rfl | rfl
    · exact Member.optional_keeps Codec.natural32_yields fun _ _ ha _ => ha
    · exact Member.optional_keeps (Codec.yields_true _) fun _ _ _ hr => hr
  · intro m hm
    simp only [Body.shape, List.mem_cons, List.not_mem_nil, or_false] at hm
    rcases hm with rfl | rfl
    · exact Member.optional_missing fun _ _ => by rintro n ⟨⟩
    · exact Member.optional_missing fun _ hr => hr

theorem parts_of_valid {b : SignMessage} (h : validate b = .ok ()) :
    ∃ index message, b.addressIndex = some index ∧ b.message = some message := by
  have herrors := errors_of_valid h
  simp only [Body.errors, List.append_eq_nil_iff] at herrors
  obtain ⟨index, hindex⟩ := required_eq_nil herrors.1
  obtain ⟨message, hmessage⟩ := required_eq_nil herrors.2
  exact ⟨index, message, hindex, hmessage⟩

end SignMessage

theorem CheckMessageSignature.parts_of_valid {b : CheckMessageSignature}
    (h : validate b = .ok ()) :
    ∃ address message signature, b.address = some address ∧ b.message = some message ∧
      b.signature = some signature := by
  have herrors := errors_of_valid h
  simp only [Body.errors, List.append_eq_nil_iff] at herrors
  obtain ⟨address, haddress⟩ := required_eq_nil herrors.1.1
  obtain ⟨message, hmessage⟩ := required_eq_nil herrors.1.2
  obtain ⟨signature, hsignature⟩ := required_eq_nil herrors.2
  exact ⟨address, message, signature, haddress, hmessage, hsignature⟩

end WalletBridge.Request
