import WalletBridge.Config.Settings
import WalletBridge.Proofs.Device.Datagram
import WalletBridge.Proofs.Request.Transaction

/-! # Every message comes back from its text

Each type of messages is decoded from what is written of its values: the requests
of clients, the messages to and from the device and their parts, and what the
bridge says of itself. Only the numbers of a value must have their width; its texts
and lists are arbitrary.
-/

namespace WalletBridge

open Json Text Device Request Config

namespace Json

/-- Every value of the kind is decoded from what is written of it. -/
def Codec.Faithful (c : Codec α) (P : α → Prop) : Prop := ∀ a, P a → decode c (encode c a) = .ok a

theorem Codec.Faithful.of_restores {c : Codec α} {P : α → Prop}
    (h : ∀ a, P a → c.Restores deepest a) : c.Faithful P :=
  fun a ha => decode_written (h a ha).reads

/-- Two values of the kind that are written alike are the same. -/
theorem Codec.Faithful.injective {c : Codec α} {P : α → Prop} (h : c.Faithful P) {a b : α}
    (ha : P a) (hb : P b) (hsame : encode c a = encode c b) : a = b := by
  have hread := h a ha
  rw [hsame, h b hb] at hread
  exact (Except.ok.inj hread).symm

theorem Codec.optional_text_restores (depth : Nat) (value : Option String) :
    text.optional.Restores (depth + 1) value :=
  optional_restores fun s _ => ⟨text_restores depth s, by rintro ⟨⟩⟩

theorem Codec.optional_natural32_restores (depth : Nat) {value : Option Nat}
    (h : ∀ n ∈ value, n < 2 ^ 32) : (natural .natural32).optional.Restores (depth + 1) value :=
  optional_restores fun n hn => ⟨natural32_restores depth (h n hn), by rintro ⟨⟩⟩

theorem Codec.optional_list_restores {c : Codec α} {depth : Nat} {value : Option (List α)}
    (h : ∀ items ∈ value, ∀ a ∈ items, c.Restores (depth + 1) a) :
    c.list.optional.Restores (depth + 2) value :=
  optional_restores fun items hitems => ⟨list_restores (h items hitems), by rintro ⟨⟩⟩

end Json

/-! ## Requests of clients -/

namespace Request

/-- The index has 64 bits with a sign. -/
def TransactionInput.Bounded (i : TransactionInput) : Prop :=
  ∀ n ∈ i.index, -2 ^ 63 ≤ n ∧ n < 2 ^ 63

def TransactionOutput.Bounded (o : TransactionOutput) : Prop := ∀ n ∈ o.addressIndex, n < 2 ^ 32

def SignMessage.Bounded (b : SignMessage) : Prop := ∀ n ∈ b.addressIndex, n < 2 ^ 32

/-- The numbers of all inputs and outputs have their width. -/
structure TransactionSign.InRange (b : TransactionSign) : Prop where
  inputs : ∀ inputs ∈ b.inputs, ∀ i ∈ inputs, i.Bounded
  outputs : ∀ outputs ∈ b.outputs, ∀ o ∈ outputs, o.Bounded

theorem TransactionInput.restores {i : TransactionInput} (h : i.Bounded) (depth : Nat) :
    TransactionInput.shape.codec.Restores (depth + 2) i := by
  have hindex : (Codec.whole .signed64).optional.Restores (depth + 1) i.index :=
    Codec.optional_restores fun n hn =>
      ⟨Codec.signed64_restores depth (h n hn).1 (h n hn).2, by rintro ⟨⟩⟩
  exact Shape.restores (by decide)
    (.cons (Member.optional_restores (Codec.optional_text_restores depth _))
      (.cons (Member.optional_restores hindex) .nil)) rfl

/-- An output without the index of a key leaves that member out. -/
theorem TransactionOutput.restores {o : TransactionOutput} (h : o.Bounded) (depth : Nat) :
    TransactionOutput.shape.codec.Restores (depth + 2) o := by
  obtain ⟨address, coins, hours, addressIndex⟩ := o
  have htext := Codec.optional_text_restores depth
  -- The last member is written only where it has a value, so that two lists of members are read.
  cases addressIndex with
  | none =>
      have hmembers : TransactionOutput.shape.members =
          TransactionOutput.shape.members.take 3 ++ TransactionOutput.shape.members.drop 3 := rfl
      exact Shape.restores_omitting hmembers (by decide)
        (.cons (Member.optional_restores (htext address))
          (.cons (Member.optional_restores (htext coins))
            (.cons (Member.optional_restores (htext hours)) .nil)))
        (.cons (Member.trailing_omits rfl) .nil) rfl
  | some n =>
      have hindex : (Codec.natural .natural32).optional.Restores (depth + 1) (some n) :=
        Codec.optional_natural32_restores depth h
      exact Shape.restores (by decide)
        (.cons (Member.optional_restores (htext address))
          (.cons (Member.optional_restores (htext coins))
            (.cons (Member.optional_restores (htext hours))
              (.cons (Member.trailing_restores rfl hindex) .nil)))) rfl

theorem GenerateAddresses.restores {b : GenerateAddresses} (h : b.Bounded) (depth : Nat) :
    (Body.shape : Shape GenerateAddresses).codec.Restores (depth + 2) b :=
  Shape.restores (by decide)
    (.cons (Member.optional_restores (Codec.optional_natural32_restores depth h.count))
      (.cons (Member.defaulted_restores (Codec.natural32_restores depth h.start))
        (.cons (Member.defaulted_restores (Codec.truth_restores depth _)) .nil))) rfl

theorem SignMessage.restores {b : SignMessage} (h : b.Bounded) (depth : Nat) :
    (Body.shape : Shape SignMessage).codec.Restores (depth + 2) b :=
  Shape.restores (by decide)
    (.cons (Member.optional_restores (Codec.optional_natural32_restores depth h))
      (.cons (Member.optional_restores (Codec.optional_text_restores depth _)) .nil)) rfl

theorem CheckMessageSignature.restores (b : CheckMessageSignature) (depth : Nat) :
    (Body.shape : Shape CheckMessageSignature).codec.Restores (depth + 2) b :=
  Shape.restores (by decide)
    (.cons (Member.optional_restores (Codec.optional_text_restores depth _))
      (.cons (Member.optional_restores (Codec.optional_text_restores depth _))
        (.cons (Member.optional_restores (Codec.optional_text_restores depth _)) .nil))) rfl

theorem TransactionSign.restores {b : TransactionSign} (h : b.InRange) (depth : Nat) :
    (Body.shape : Shape TransactionSign).codec.Restores (depth + 4) b := by
  have hinputs : TransactionInput.shape.codec.list.optional.Restores (depth + 3) b.inputs :=
    Codec.optional_list_restores fun inputs hin i hi =>
      TransactionInput.restores (h.inputs inputs hin i hi) depth
  have houtputs : TransactionOutput.shape.codec.list.optional.Restores (depth + 3) b.outputs :=
    Codec.optional_list_restores fun outputs hout o ho =>
      TransactionOutput.restores (h.outputs outputs hout o ho) depth
  exact Shape.restores (by decide)
    (.cons (Member.optional_restores hinputs)
      (.cons (Member.optional_restores houtputs) .nil)) rfl

end Request

/-! ## Messages from the device -/

namespace Device

theorem Features.restores (f : Features) (depth : Nat) :
    Features.shape.codec.Restores (depth + 2) f := by
  have htext := Codec.text_restores depth
  have htruth := Codec.truth_restores depth
  exact Shape.restores (by decide)
    (.cons (Member.required_restores (htext _))
      (.cons (Member.required_restores (htext _))
        (.cons (Member.required_restores (htext _))
          (.cons (Member.optional_restores (Codec.optional_text_restores depth _))
            (.cons (Member.required_restores (htruth _))
              (.cons (Member.required_restores (htruth _))
                (.cons (Member.required_restores (htruth _))
                  (.cons (Member.required_restores (htruth _)) .nil)))))))) rfl

namespace Reply

theorem success_restores (r : Success) (depth : Nat) :
    successShape.codec.Restores (depth + 2) r :=
  Shape.restores (by decide)
    (.cons (Member.optional_restores (Codec.optional_text_restores depth _)) .nil) rfl

theorem failure_restores (r : Failure) (depth : Nat) :
    failureShape.codec.Restores (depth + 2) r := by
  have hcode : FailureCode.codec.Restores (depth + 1) r.code :=
    choice_restores (by cases r.code <;> rfl) depth
  exact Shape.restores (by decide)
    (.cons (Member.required_restores hcode)
      (.cons (Member.required_restores (Codec.text_restores depth _)) .nil)) rfl

theorem texts_restores (texts : List String) (depth : Nat) :
    Codec.text.list.Restores (depth + 2) texts :=
  Codec.list_restores fun s _ => Codec.text_restores depth s

theorem addresses_restores (addresses : List String) (depth : Nat) :
    addressesShape.codec.Restores (depth + 3) addresses :=
  Shape.restores (by decide)
    (.cons (Member.required_restores (texts_restores addresses depth)) .nil) rfl

theorem signatures_restores (signatures : List String) (depth : Nat) :
    signaturesShape.codec.Restores (depth + 3) signatures :=
  Shape.restores (by decide)
    (.cons (Member.required_restores (texts_restores signatures depth)) .nil) rfl

theorem codec_reads (m : Reply) : Reads (Reply.codec.read deepest) (Reply.codec.write m) m := by
  cases m with
  | success message =>
      exact Tagged.reads_ofShape rfl rfl rfl (by decide) (success_restores ⟨message⟩ 126)
  | failure code message =>
      exact Tagged.reads_ofShape rfl rfl rfl (by decide) (failure_restores ⟨code, message⟩ 126)
  | features f => exact Tagged.reads_ofShape rfl rfl rfl (by decide) (f.restores 126)
  | addresses l => exact Tagged.reads_ofShape rfl rfl rfl (by decide) (addresses_restores l 125)
  | signatures l => exact Tagged.reads_ofShape rfl rfl rfl (by decide) (signatures_restores l 125)

end Reply

end Device

/-! ## What the bridge says of itself -/

theorem Config.Build.restores (b : Build) (depth : Nat) :
    Build.shape.codec.Restores (depth + 2) b :=
  Shape.restores (by decide)
    (.cons (Member.defaulted_restores (Codec.text_restores depth _))
      (.cons (Member.defaulted_restores (Codec.text_restores depth _))
        (.cons (Member.defaulted_restores (Codec.text_restores depth _)) .nil))) rfl

theorem Device.Mode.restores (m : Mode) (depth : Nat) : Mode.codec.Restores (depth + 1) m :=
  choice_restores (by cases m <;> rfl) depth

/-! ## All of them -/

/-- Every message is decoded from what is written of it, and a datagram belongs to one message to
the device only. -/
theorem messages_round_trip :
    TransactionInput.shape.codec.Faithful TransactionInput.Bounded ∧
    TransactionOutput.shape.codec.Faithful TransactionOutput.Bounded ∧
    (Body.shape : Shape TransactionSign).codec.Faithful TransactionSign.InRange ∧
    (Body.shape : Shape GenerateAddresses).codec.Faithful GenerateAddresses.Bounded ∧
    (Body.shape : Shape SignMessage).codec.Faithful SignMessage.Bounded ∧
    (Body.shape : Shape CheckMessageSignature).codec.Faithful (fun _ => True) ∧
    Device.Request.codec.Faithful Device.Request.Bounded ∧
    Reply.codec.Faithful (fun _ => True) ∧
    Features.shape.codec.Faithful (fun _ => True) ∧
    SignInput.shape.codec.Faithful SignInput.Bounded ∧
    SignOutput.shape.codec.Faithful SignOutput.Bounded ∧
    Build.shape.codec.Faithful (fun _ => True) ∧
    Mode.codec.Faithful (fun _ => True) ∧
    ∀ m n : Device.Request, m.Bounded → n.Bounded →
      Emulator.datagram m = Emulator.datagram n → m = n := by
  have hrequests : Device.Request.codec.Faithful Device.Request.Bounded :=
    fun _ hm => Device.Request.decode_datagram hm
  have hreplies : Reply.codec.Faithful fun _ => True := fun m _ => decode_written m.codec_reads
  exact ⟨.of_restores fun _ h => TransactionInput.restores h 126,
    .of_restores fun _ h => TransactionOutput.restores h 126,
    .of_restores fun _ h => TransactionSign.restores h 124,
    .of_restores fun _ h => GenerateAddresses.restores h 126,
    .of_restores fun _ h => SignMessage.restores h 126,
    .of_restores fun b _ => b.restores 126,
    hrequests,
    hreplies,
    .of_restores fun f _ => f.restores 126,
    .of_restores fun _ h => SignInput.restores h 126,
    .of_restores fun _ h => SignOutput.restores h 126,
    .of_restores fun b _ => b.restores 126,
    .of_restores fun m _ => m.restores 127,
    fun _ _ hm hn hsame => hrequests.injective hm hn hsame⟩

/-- The least index, a text with marks, controls and a character outside the first plane, and a
member that is left out. -/
theorem messages_round_trip_escaped :
    let input : TransactionInput :=
      { hash := some "\"\\\n\x01\x7f𝄞", index := some (-2 ^ 63) }
    let output : TransactionOutput :=
      { address := none, coins := some "1", hours := none, addressIndex := none }
    let whole : TransactionSign := { inputs := some [input, input], outputs := some [output] }
    let sent : Device.Request := .transactionSign [⟨"", 2 ^ 32 - 1⟩] [⟨"a", 2 ^ 64 - 1, 0, none⟩]
    input.Bounded ∧ whole.InRange ∧ sent.Bounded ∧
      decode TransactionInput.shape.codec (encode TransactionInput.shape.codec input) = .ok input ∧
      decode (Body.shape : Shape TransactionSign).codec
        (encode (Body.shape : Shape TransactionSign).codec whole) = .ok whole ∧
      decode Device.Request.codec (Emulator.datagram sent) = .ok sent := by
  intro input output whole sent
  have hinput : input.Bounded := by rintro n ⟨⟩; decide
  have houtput : output.Bounded := by rintro n ⟨⟩
  have hwhole : whole.InRange := by
    constructor
    · rintro inputs ⟨⟩ i hi
      obtain rfl : i = input := by simpa using hi
      exact hinput
    · rintro outputs ⟨⟩ o ho
      obtain rfl : o = output := by simpa using ho
      exact houtput
  have hsent : sent.Bounded := by
    constructor
    · intro i hi
      obtain rfl := List.mem_singleton.mp hi
      exact (by decide : 2 ^ 32 - 1 < 2 ^ 32)
    · intro o ho
      obtain rfl := List.mem_singleton.mp ho
      exact ⟨by decide, by decide, by simp⟩
  obtain ⟨hinputs, -, hwholes, -, -, -, hrequests, -⟩ := messages_round_trip
  exact ⟨hinput, hwhole, hsent, hinputs input hinput, hwholes whole hwhole, hrequests sent hsent⟩

end WalletBridge
