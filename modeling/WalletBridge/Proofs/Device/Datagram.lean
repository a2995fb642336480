import WalletBridge.Device.Emulator
import WalletBridge.Proofs.Json.Codecs

/-! # A datagram says what the message says

The bytes that go to the device are decoded to the message that they were made
from. Nothing but the range of its numbers is asked of the message.
-/

namespace WalletBridge.Device

open Json

def SignInput.Bounded (i : SignInput) : Prop := i.index < 2 ^ 32

/-- The amounts have 64 bits, and the index of the key has 32. -/
structure SignOutput.Bounded (o : SignOutput) : Prop where
  coins : o.coins < 2 ^ 64
  hours : o.hours < 2 ^ 64
  addressIndex : ∀ i ∈ o.addressIndex, i < 2 ^ 32

theorem SignInput.restores {i : SignInput} (h : i.Bounded) (depth : Nat) :
    SignInput.shape.codec.Restores (depth + 2) i :=
  Shape.restores (by decide)
    (.cons (Member.required_restores (Codec.text_restores depth _))
      (.cons (Member.required_restores (Codec.natural32_restores depth h)) .nil)) rfl

theorem SignOutput.restores {o : SignOutput} (h : o.Bounded) (depth : Nat) :
    SignOutput.shape.codec.Restores (depth + 2) o := by
  have hindex : (Codec.natural .natural32).optional.Restores (depth + 1) o.addressIndex :=
    Codec.optional_restores fun i hi =>
      ⟨Codec.natural32_restores depth (h.addressIndex i hi), by rintro ⟨⟩⟩
  exact Shape.restores (by decide)
    (.cons (Member.required_restores (Codec.text_restores depth _))
      (.cons (Member.required_restores (Codec.natural64_restores depth h.coins))
        (.cons (Member.required_restores (Codec.natural64_restores depth h.hours))
          (.cons (Member.optional_restores hindex) .nil)))) rfl

namespace Request

/-- The numbers of the message have 32 or 64 bits. -/
def Bounded : Request → Prop
  | .generateAddresses count startIndex _ => count < 2 ^ 32 ∧ startIndex < 2 ^ 32
  | .signMessage addressIndex _ => addressIndex < 2 ^ 32
  | .transactionSign inputs outputs => (∀ i ∈ inputs, i.Bounded) ∧ ∀ o ∈ outputs, o.Bounded
  | _ => True

theorem addressRange_restores {r : AddressRange} (hcount : r.count < 2 ^ 32)
    (hstart : r.startIndex < 2 ^ 32) (depth : Nat) :
    addressRange.codec.Restores (depth + 2) r :=
  Shape.restores (by decide)
    (.cons (Member.required_restores (Codec.natural32_restores depth hcount))
      (.cons (Member.required_restores (Codec.natural32_restores depth hstart))
        (.cons (Member.required_restores (Codec.truth_restores depth _)) .nil))) rfl

theorem toSign_restores {r : ToSign} (hindex : r.addressIndex < 2 ^ 32) (depth : Nat) :
    toSign.codec.Restores (depth + 2) r :=
  Shape.restores (by decide)
    (.cons (Member.required_restores (Codec.natural32_restores depth hindex))
      (.cons (Member.required_restores (Codec.text_restores depth _)) .nil)) rfl

theorem toCheck_restores (r : ToCheck) (depth : Nat) : toCheck.codec.Restores (depth + 2) r :=
  Shape.restores (by decide)
    (.cons (Member.required_restores (Codec.text_restores depth _))
      (.cons (Member.required_restores (Codec.text_restores depth _))
        (.cons (Member.required_restores (Codec.text_restores depth _)) .nil))) rfl

theorem transaction_restores {r : Transaction} (hinputs : ∀ i ∈ r.inputs, i.Bounded)
    (houtputs : ∀ o ∈ r.outputs, o.Bounded) (depth : Nat) :
    transaction.codec.Restores (depth + 4) r := by
  have hin : (Codec.list SignInput.shape.codec).Restores (depth + 3) r.inputs :=
    Codec.list_restores fun i hi => SignInput.restores (hinputs i hi) depth
  have hout : (Codec.list SignOutput.shape.codec).Restores (depth + 3) r.outputs :=
    Codec.list_restores fun o ho => SignOutput.restores (houtputs o ho) depth
  exact Shape.restores (by decide)
    (.cons (Member.required_restores hin) (.cons (Member.required_restores hout) .nil)) rfl

/-- Every message whose numbers are in range is read back from its bytes. -/
theorem codec_reads {m : Request} (h : m.Bounded) :
    Reads (Request.codec.read deepest) (Request.codec.write m) m := by
  cases m with
  | ping => exact Tagged.reads_plain rfl rfl
  | getFeatures => exact Tagged.reads_plain rfl rfl
  | generateAddresses count startIndex confirm =>
      exact Tagged.reads_ofShape rfl rfl rfl (by decide)
        (addressRange_restores (r := ⟨count, startIndex, confirm⟩) h.1 h.2 126)
  | signMessage addressIndex message =>
      exact Tagged.reads_ofShape rfl rfl rfl (by decide)
        (toSign_restores (r := ⟨addressIndex, message⟩) h 126)
  | checkMessageSignature address message signature =>
      exact Tagged.reads_ofShape rfl rfl rfl (by decide)
        (toCheck_restores ⟨address, message, signature⟩ 126)
  | transactionSign inputs outputs =>
      exact Tagged.reads_ofShape rfl rfl rfl (by decide)
        (transaction_restores (r := ⟨inputs, outputs⟩) h.1 h.2 124)
  | wipe => exact Tagged.reads_plain rfl rfl
  | cancel => exact Tagged.reads_plain rfl rfl

theorem decode_datagram {m : Request} (h : m.Bounded) :
    decode Request.codec (Emulator.datagram m) = .ok m :=
  decode_written (codec_reads h)

end Request

/-! ## Long datagrams -/

theorem length_le_flatMap {α β : Type} {f : α → List β} (hf : ∀ a, f a ≠ []) (l : List α) :
    l.length ≤ (l.flatMap f).length := by
  induction l with
  | nil => exact Nat.le_refl _
  | cons a l ih =>
      have hone : 0 < (f a).length := List.length_pos_of_ne_nil (hf a)
      rw [List.flatMap_cons, List.length_append, List.length_cons]
      omega

theorem length_le_textChars (s : String) : s.length ≤ (textChars s).length := by
  have hf : ∀ c, textChar c ≠ [] := by
    intro c
    unfold textChar
    split_ifs <;> simp
  have hlength := length_le_flatMap hf s.toList
  rw [String.length_toList] at hlength
  simp only [textChars, List.length_cons, List.length_append]
  omega

theorem length_le_spell (cs : List Char) : cs.length ≤ (Text.spell cs).length :=
  length_le_flatMap (fun c => List.ne_nil_of_length_pos (by simp [c.utf8Size_pos])) cs

theorem Request.length_le_datagram (addressIndex : Nat) (message : String) :
    message.length ≤ (Emulator.datagram (.signMessage addressIndex message)).length := by
  have htext := length_le_textChars message
  have hspelled :=
    length_le_spell (Request.codec.write (.signMessage addressIndex message)).compactChars
  have hwritten : Request.codec.write (.signMessage addressIndex message) =
      .object [("kind", .text "sign_message"), ("address_index", .number (.whole addressIndex)),
        ("message", .text message)] := rfl
  have hchars : (textChars message).length ≤
      (Request.codec.write (.signMessage addressIndex message)).compactChars.length := by
    rw [hwritten]
    simp only [compactChars, memberChars, List.length_cons, List.length_append]
    omega
  rw [Emulator.datagram, encode, compact, Text.utf8_ofList]
  omega

end WalletBridge.Device
