import WalletBridge.Proofs.Json.Spelled
import WalletBridge.Proofs.Messages.Presentation
import WalletBridge.Proofs.Messages.RoundTrip

/-! # Whole numbers of messages are decoded exactly

A message has whole numbers of 32 or 64 bits, some of them in the items of its lists.
For each the text may have any literal. It is decoded to the value of the literal, if
this is a whole number of the range, written without fraction and exponent and not as
zero with a sign; and every other literal is refused.
-/

namespace WalletBridge

open Json Text Device Request

namespace Json

/-- The number of the slot is decoded exactly, whatever literal a text has for it: `Around` tells
the texts, and `P` the values that are written to be decoded again. -/
structure Codec.DecodesExactly (c : Codec α) (s : Slot α) (Around : (Numeral → Tree) → Prop)
    (P : α → Prop) : Prop where
  /-- A text is accepted if its literal is a whole number of the range and the text with the
  literal `0` is accepted. The values of the two differ in the number only. -/
  accepts : ∀ frame, Around frame → ∀ n bytes zeroed, Spread (frame n).tokens bytes →
    Spread (frame .zero).tokens zeroed → ∀ a, decode c bytes = .ok a ↔
      ∃ k b, n.integer? = some k ∧ s.range.Has k ∧ decode c zeroed = .ok b ∧ s.set k b = a
  /-- The number is the value of the literal. -/
  finds : ∀ frame, Around frame → ∀ n bytes a, Spread (frame n).tokens bytes →
    decode c bytes = .ok a → ∃ k, n.integer? = some k ∧ s.range.Has k ∧ s.get a = some k
  /-- In what is written of a value with the number, every literal of the range may stand. -/
  written : ∀ a, P a → (s.get a).isSome → ∃ frame, Around frame ∧
    (∃ n, (frame n).plain = encode c a) ∧ ∀ n k, n.integer? = some k → s.range.Has k →
      decode c (frame n).plain = .ok (s.set k a)

/-- A literal that is no whole number of the range is refused in every text. -/
theorem Codec.DecodesExactly.refuses {c : Codec α} {s : Slot α} {Around : (Numeral → Tree) → Prop}
    {P : α → Prop} (h : c.DecodesExactly s Around P) {frame : Numeral → Tree}
    (hframe : Around frame) {n : Numeral} (hout : n.within s.range = none) {bytes : Bytes}
    (hbytes : Spread (frame n).tokens bytes) (a : α) : decode c bytes ≠ .ok a := by
  intro ha
  obtain ⟨k, hinteger, hin, -⟩ := h.finds frame hframe n bytes a hbytes ha
  have hwithin := Numeral.within_eq_some.mpr ⟨hinteger, hin⟩
  rw [hout] at hwithin
  cases hwithin

theorem encode_eq (c : Codec α) (a : α) : encode c a = bytesOf (c.write a) :=
  utf8_ofList (c.write a).compactChars

section
variable {c : Codec α} {s : Slot α} {Around : (Numeral → Tree) → Prop} {P : α → Prop}

/-- What the texts of a frame are decoded to is made of the values of their literals. -/
theorem Slot.Exact.decode_eq_ok
    (h : s.Exact Around (Numeral.within s.range) (outcome (c.read deepest)))
    (hsees : ∀ frame, Around frame → ∀ n, ∃ o, Sees (c.read deepest) (frame n).tokens o)
    {frame : Numeral → Tree} (hframe : Around frame) :
    ∃ make : Option (Int → α), (∀ f ∈ make, s.Makes f) ∧
      ∀ n bytes, Spread (frame n).tokens bytes → ∀ a, decode c bytes = .ok a ↔
        ∃ k, n.integer? = some k ∧ s.range.Has k ∧ ∃ f, make = some f ∧ f k = a := by
  obtain ⟨make, hmakes, hread⟩ := h frame hframe
  refine ⟨make, hmakes, ?_⟩
  intro n bytes hbytes a
  obtain ⟨o, ho⟩ := hsees frame hframe n
  rw [← toOption_eq_some, decode_spread ho hbytes, ← ho.outcome_eq, hread,
    Option.bind_eq_some_iff]
  simp only [Numeral.within_eq_some, Option.map_eq_some_iff, and_assoc]

theorem Codec.DecodesExactly.of_exact
    (h : s.Exact Around (Numeral.within s.range) (outcome (c.read deepest)))
    (hsees : ∀ frame, Around frame → ∀ n, ∃ o, Sees (c.read deepest) (frame n).tokens o)
    (hzero : s.range.Has 0) (hfaithful : c.Faithful P)
    (hwritten : ∀ a k, P a → s.get a = some k →
      ∃ frame, Around frame ∧ WritesIn frame (c.write a)) :
    c.DecodesExactly s Around P where
  accepts frame hframe n bytes zeroed hbytes hzeroed a := by
    obtain ⟨make, hmakes, hdecode⟩ := h.decode_eq_ok hsees hframe
    rw [hdecode n bytes hbytes]
    constructor
    · intro ⟨k, hinteger, hin, f, hf, hmade⟩
      have hset : s.set k (f 0) = a := by
        rw [(hmakes f hf).set, hmade]
      exact ⟨k, f 0, hinteger, hin,
        (hdecode .zero zeroed hzeroed (f 0)).mpr ⟨0, rfl, hzero, f, hf, rfl⟩, hset⟩
    · intro ⟨k, b, hinteger, hin, hb, hset⟩
      obtain ⟨j, -, -, f, hf, hmade⟩ := (hdecode .zero zeroed hzeroed b).mp hb
      refine ⟨k, hinteger, hin, f, hf, ?_⟩
      rw [← hset, ← hmade, (hmakes f hf).set]
  finds frame hframe n bytes a hbytes ha := by
    obtain ⟨make, hmakes, hdecode⟩ := h.decode_eq_ok hsees hframe
    obtain ⟨k, hinteger, hin, f, hf, hmade⟩ := (hdecode n bytes hbytes a).mp ha
    refine ⟨k, hinteger, hin, ?_⟩
    rw [← hmade]
    exact (hmakes f hf).get k hin
  written a ha hget := by
    obtain ⟨j, hj⟩ := Option.isSome_iff_exists.mp hget
    obtain ⟨frame, hframe, n₀, hn₀⟩ := hwritten a j ha hj
    obtain ⟨make, hmakes, hdecode⟩ := h.decode_eq_ok hsees hframe
    have hplain : (frame n₀).plain = encode c a := by
      rw [encode_eq]
      exact hn₀
    refine ⟨frame, hframe, ⟨n₀, hplain⟩, ?_⟩
    intro n k hinteger hin
    -- the value itself is what the frame is decoded to with the literal that is written
    have hagain := hfaithful a ha
    rw [← hplain] at hagain
    obtain ⟨i, -, -, f, hf, hmade⟩ := (hdecode n₀ _ (.flatten _) a).mp hagain
    refine (hdecode n _ (.flatten _) _).mpr ⟨k, hinteger, hin, f, hf, ?_⟩
    rw [← hmade, (hmakes f hf).set]

theorem Codec.Exact.decodesExactly (h : c.Exact s) (hread : ReadsUnordered c.read)
    (hrestores : ∀ a, P a → c.Restores deepest a) :
    c.DecodesExactly s (Medium.shown.Frame s.place) P := by
  apply Codec.DecodesExactly.of_exact (h.reads deepest)
  · intro frame _ n
    exact hread.steady deepest (frame n)
  · exact h.machine.zero
  · exact Codec.Faithful.of_restores hrestores
  · intro a k ha hk
    obtain ⟨f, hf, hwrite⟩ := h.writes a k hk
    have hfits := (hrestores a ha).fits
    rw [hwrite] at hfits ⊢
    exact hf.exists_writes hfits

end

theorem Shape.Regular.decodesExactly {shape : Shape ρ} {slots : List (Slot ρ)} {P : ρ → Prop}
    (hshape : shape.Regular) (hexact : ∀ s ∈ slots, shape.codec.Exact s)
    (hrestores : ∀ a, P a → shape.codec.Restores deepest a) : ∀ s ∈ slots,
      shape.codec.DecodesExactly s (Medium.shown.Frame s.place) P :=
  fun s hs => (hexact s hs).decodesExactly hshape.reads_unordered hrestores

/-- A record told apart by a tag decodes exactly where the record of its variant is exact. -/
theorem Tagged.decodesExactly {tagged : Tagged α} {s : Slot ρ} {P : α → Prop} {tag : String}
    {shape : Shape ρ} {make : ρ → α} {part? : α → Option ρ} (h : shape.codec.Exact s)
    (hchoose : chooseName tagged.names tag = .ok (.ofShape tag shape make))
    (hbesides : s.Besides tagged.tagName) (htag : tagged.tagName ∉ shape.members.map (·.name))
    (hmakes : ∀ r, part? (make r) = some r) (hpart : ∀ a r, part? a = some r → make r = a)
    (hwrite : ∀ r, tagged.write (make r) = (tag, shape.write r))
    (hfits : ∀ r, P (make r) → Fits deepest (.object (shape.write r)))
    (hfaithful : tagged.codec.Faithful P) :
    tagged.codec.DecodesExactly (s.inVariant make part?)
      (Tree.Kinded tagged.tagName tag s.place) P := by
  apply Codec.DecodesExactly.of_exact
    (Tagged.reads_exact h hchoose hbesides hmakes deepest)
  · intro frame hframe n
    obtain ⟨name, position, place, hplace, -⟩ := hbesides
    rw [hplace] at hframe
    cases hframe with
    | object => exact ⟨_, codec_sees_object _⟩
    | list => exact ⟨_, codec_sees_list _ _⟩
  · exact h.machine.zero
  · exact hfaithful
  · intro a k ha hk
    obtain ⟨r, hr, hget⟩ := Option.bind_eq_some_iff.mp hk
    have hmade := hpart a r hr
    subst hmade
    exact Tagged.exists_kinded (hwrite r) h hbesides htag hget (hfits r ha)

end Json

/-! ## Requests of clients -/

namespace Request

def TransactionInput.slots : List (Slot TransactionInput) :=
  [(Slot.whole .signed64).inSome.inMember "index" 1 index fun a r => { r with index := a }]

def TransactionOutput.slots : List (Slot TransactionOutput) :=
  [(Slot.natural .natural32).inSome.inMember "address_index" 3 addressIndex
    fun a r => { r with addressIndex := a }]

def GenerateAddresses.slots : List (Slot GenerateAddresses) :=
  [(Slot.natural .natural32).inSome.inMember "address_n" 0 addressCount
      fun a r => { r with addressCount := a },
    (Slot.natural .natural32).inMember "start_index" 1 startIndex
      fun a r => { r with startIndex := a }]

def SignMessage.slots : List (Slot SignMessage) :=
  [(Slot.natural .natural32).inSome.inMember "address_index" 0 addressIndex
    fun a r => { r with addressIndex := a }]

def TransactionSign.slots (index : Nat) : List (Slot TransactionSign) :=
  (TransactionInput.slots.map fun s => (s.inItem index).inSome.inMember "transaction_inputs" 0
    inputs fun a r => { r with inputs := a }) ++
  TransactionOutput.slots.map fun s => (s.inItem index).inSome.inMember "transaction_outputs" 1
    outputs fun a r => { r with outputs := a }

theorem TransactionInput.regular : TransactionInput.shape.Regular :=
  ⟨apart, members_unordered, by simp [TransactionInput.shape]⟩

theorem TransactionOutput.regular : TransactionOutput.shape.Regular :=
  ⟨apart, members_unordered, by simp [TransactionOutput.shape]⟩

theorem GenerateAddresses.regular : (Body.shape : Shape GenerateAddresses).Regular :=
  ⟨apart, by simp [Body.shape], by simp [Body.shape]⟩

theorem SignMessage.regular : (Body.shape : Shape SignMessage).Regular :=
  ⟨apart, by simp [Body.shape], by simp [Body.shape]⟩

theorem TransactionSign.regular : (Body.shape : Shape TransactionSign).Regular :=
  ⟨apart, members_unordered, by simp [Body.shape]⟩

theorem natural32_exact : (Codec.natural .natural32).Exact (.natural .natural32) :=
  Codec.natural_exact Range.natural32_machine (by decide)

theorem optional_natural32_exact :
    (Codec.natural .natural32).optional.Exact (Slot.natural .natural32).inSome :=
  Codec.optional_exact natural32_exact (by simp)

theorem TransactionInput.exact : ∀ s ∈ slots, TransactionInput.shape.codec.Exact s := by
  have hindex := Codec.optional_exact (Codec.whole_exact Range.signed64_machine) (by simp)
  simp only [slots, List.forall_mem_singleton]
  exact regular.exact rfl rfl Member.optional_by ⟨fun _ _ => rfl, fun _ _ _ => rfl⟩ hindex

theorem TransactionOutput.exact : ∀ s ∈ slots, TransactionOutput.shape.codec.Exact s := by
  simp only [slots, List.forall_mem_singleton]
  exact regular.exact rfl rfl Member.trailing_by ⟨fun _ _ => rfl, fun _ _ _ => rfl⟩
    optional_natural32_exact

theorem GenerateAddresses.exact :
    ∀ s ∈ slots, (Body.shape : Shape GenerateAddresses).codec.Exact s := by
  simp only [slots, List.forall_mem_cons, List.not_mem_nil, false_imp_iff, implies_true, and_true]
  constructor
  · exact regular.exact rfl rfl Member.optional_by ⟨fun _ _ => rfl, fun _ _ _ => rfl⟩
      optional_natural32_exact
  · exact regular.exact rfl rfl Member.defaulted_by ⟨fun _ _ => rfl, fun _ _ _ => rfl⟩
      natural32_exact

theorem SignMessage.exact : ∀ s ∈ slots, (Body.shape : Shape SignMessage).codec.Exact s := by
  simp only [slots, List.forall_mem_singleton]
  exact regular.exact rfl rfl Member.optional_by ⟨fun _ _ => rfl, fun _ _ _ => rfl⟩
    optional_natural32_exact

theorem entries_exact {c : Codec α} {slots : List (Slot α)} (hc : ReadsUnordered c.read)
    (hslots : ∀ s ∈ slots, c.Exact s) (index : Nat) {shape : Shape ρ} (hshape : shape.Regular)
    {position : Nat} {m : Member ρ} {name : String} {get : ρ → Option (List α)}
    {set : Option (List α) → ρ → ρ} (hm : shape.members[position]? = some m) (hname : m.name = name)
    (hby : m.By c.list.optional get set) (hlens : Lens get set) :
    ∀ s ∈ slots, shape.codec.Exact ((s.inItem index).inSome.inMember name position get set) := by
  intro s hs
  have hlist := Codec.list_exact (hslots s hs) hc index
  exact hshape.exact hm hname hby hlens (Codec.optional_exact hlist (by simp [hc]))

theorem TransactionSign.exact (index : Nat) :
    ∀ s ∈ slots index, (Body.shape : Shape TransactionSign).codec.Exact s := by
  simp only [slots, List.forall_mem_append, List.forall_mem_map]
  constructor
  · exact entries_exact TransactionInput.regular.reads_unordered TransactionInput.exact index
      regular rfl rfl Member.optional_by ⟨fun _ _ => rfl, fun _ _ _ => rfl⟩
  · exact entries_exact TransactionOutput.regular.reads_unordered TransactionOutput.exact index
      regular rfl rfl Member.optional_by ⟨fun _ _ => rfl, fun _ _ _ => rfl⟩

end Request

/-! ## Messages to the device -/

namespace Device

def SignInput.slots : List (Slot SignInput) :=
  [(Slot.natural .natural32).inMember "index" 1 index fun a r => { r with index := a }]

def SignOutput.slots : List (Slot SignOutput) :=
  [(Slot.natural .natural64).inMember "coins" 1 coins fun a r => { r with coins := a },
    (Slot.natural .natural64).inMember "hours" 2 hours fun a r => { r with hours := a },
    (Slot.natural .natural32).inSome.inMember "address_index" 3 addressIndex
      fun a r => { r with addressIndex := a }]

theorem SignInput.regular : SignInput.shape.Regular :=
  ⟨apart, by simp [shape], by simp [shape]⟩

theorem SignOutput.regular : SignOutput.shape.Regular :=
  ⟨apart, by simp [shape], by simp [shape]⟩

theorem SignInput.exact : ∀ s ∈ slots, SignInput.shape.codec.Exact s := by
  simp only [slots, List.forall_mem_singleton]
  exact regular.exact rfl rfl Member.required_by ⟨fun _ _ => rfl, fun _ _ _ => rfl⟩ natural32_exact

theorem SignOutput.exact : ∀ s ∈ slots, SignOutput.shape.codec.Exact s := by
  have hamount : (Codec.natural .natural64).Exact (.natural .natural64) :=
    Codec.natural_exact Range.natural64_machine (by decide)
  simp only [slots, List.forall_mem_cons, List.not_mem_nil, false_imp_iff, implies_true, and_true]
  refine ⟨?coins, ?hours, ?addressIndex⟩
  case coins =>
    exact regular.exact rfl rfl Member.required_by ⟨fun _ _ => rfl, fun _ _ _ => rfl⟩ hamount
  case hours =>
    exact regular.exact rfl rfl Member.required_by ⟨fun _ _ => rfl, fun _ _ _ => rfl⟩ hamount
  case addressIndex =>
    exact regular.exact rfl rfl Member.optional_by ⟨fun _ _ => rfl, fun _ _ _ => rfl⟩
      optional_natural32_exact

namespace Request

def AddressRange.slots : List (Slot AddressRange) :=
  [(Slot.natural .natural32).inMember "count" 0 count fun a r => { r with count := a },
    (Slot.natural .natural32).inMember "start_index" 1 startIndex
      fun a r => { r with startIndex := a }]

def ToSign.slots : List (Slot ToSign) :=
  [(Slot.natural .natural32).inMember "address_index" 0 addressIndex
    fun a r => { r with addressIndex := a }]

def Transaction.slots (index : Nat) : List (Slot Transaction) :=
  (SignInput.slots.map fun s => (s.inItem index).inMember "inputs" 0 inputs
    fun a r => { r with inputs := a }) ++
  SignOutput.slots.map fun s => (s.inItem index).inMember "outputs" 1 outputs
    fun a r => { r with outputs := a }

theorem addressRange_regular : addressRange.Regular :=
  ⟨addressRange_apart, by simp [addressRange], by simp [addressRange]⟩

theorem toSign_regular : toSign.Regular := ⟨toSign_apart, by simp [toSign], by simp [toSign]⟩

theorem transaction_regular : transaction.Regular where
  apart := transaction_apart
  reads := by
    simp [transaction, SignInput.regular.reads_unordered, SignOutput.regular.reads_unordered]
  ends := by simp [transaction]

theorem AddressRange.exact : ∀ s ∈ slots, addressRange.codec.Exact s := by
  simp only [slots, List.forall_mem_cons, List.not_mem_nil, false_imp_iff, implies_true, and_true]
  constructor <;>
    exact addressRange_regular.exact rfl rfl Member.required_by
      ⟨fun _ _ => rfl, fun _ _ _ => rfl⟩ natural32_exact

theorem ToSign.exact : ∀ s ∈ slots, toSign.codec.Exact s := by
  simp only [slots, List.forall_mem_singleton]
  exact toSign_regular.exact rfl rfl Member.required_by ⟨fun _ _ => rfl, fun _ _ _ => rfl⟩
    natural32_exact

theorem Transaction.exact (index : Nat) : ∀ s ∈ slots index, transaction.codec.Exact s := by
  simp only [slots, List.forall_mem_append, List.forall_mem_map]
  constructor
  · intro s hs
    exact transaction_regular.exact rfl rfl Member.required_by ⟨fun _ _ => rfl, fun _ _ _ => rfl⟩
      (Codec.list_exact (SignInput.exact s hs) SignInput.regular.reads_unordered index)
  · intro s hs
    exact transaction_regular.exact rfl rfl Member.required_by ⟨fun _ _ => rfl, fun _ _ _ => rfl⟩
      (Codec.list_exact (SignOutput.exact s hs) SignOutput.regular.reads_unordered index)

def addressRange? : Request → Option AddressRange
  | .generateAddresses count startIndex confirm => some { count, startIndex, confirm }
  | _ => none

def toSign? : Request → Option ToSign
  | .signMessage addressIndex message => some { addressIndex, message }
  | _ => none

def transaction? : Request → Option Transaction
  | .transactionSign inputs outputs => some { inputs, outputs }
  | _ => none

def slots (index : Nat) : List (String × Slot Request) :=
  (AddressRange.slots.map fun s => ("generate_addresses",
    s.inVariant (fun r => .generateAddresses r.count r.startIndex r.confirm) addressRange?)) ++
  (ToSign.slots.map fun s => ("sign_message",
    s.inVariant (fun r => .signMessage r.addressIndex r.message) toSign?)) ++
  (Transaction.slots index).map fun s => ("transaction_sign",
    s.inVariant (fun r => .transactionSign r.inputs r.outputs) transaction?)

theorem besides_kind (index : Nat) : (∀ s ∈ AddressRange.slots, s.Besides "kind") ∧
    (∀ s ∈ ToSign.slots, s.Besides "kind") ∧ ∀ s ∈ Transaction.slots index, s.Besides "kind" := by
  simp [AddressRange.slots, ToSign.slots, Transaction.slots, SignInput.slots, SignOutput.slots]

theorem addressRange?_eq_some {m : Request} {r : AddressRange} (h : addressRange? m = some r) :
    .generateAddresses r.count r.startIndex r.confirm = m := by
  cases m <;> cases h
  rfl

theorem toSign?_eq_some {m : Request} {r : ToSign} (h : toSign? m = some r) :
    .signMessage r.addressIndex r.message = m := by
  cases m <;> cases h
  rfl

theorem transaction?_eq_some {m : Request} {r : Transaction} (h : transaction? m = some r) :
    .transactionSign r.inputs r.outputs = m := by
  cases m <;> cases h
  rfl

/-- A message is kept as a value until its kind is known, and no number changes by this. -/
theorem decodesExactly (index : Nat) : ∀ e ∈ slots index,
    Request.codec.DecodesExactly e.2 (Tree.Kinded "kind" e.1 e.2.place) Request.Bounded := by
  have hfaithful : Request.codec.Faithful Request.Bounded := fun _ h => decode_datagram h
  obtain ⟨haddresses, hmessage, htransaction⟩ := besides_kind index
  simp only [slots, List.forall_mem_append, List.forall_mem_map]
  refine ⟨⟨?addresses, ?message⟩, ?transaction⟩
  case addresses =>
    intro s hs
    exact Tagged.decodesExactly (AddressRange.exact s hs) rfl (haddresses s hs) (by decide)
      (fun _ => rfl) (fun _ _ => addressRange?_eq_some) (fun _ => rfl)
      (fun r hr => (addressRange_restores (r := r) hr.1 hr.2 126).fits) hfaithful
  case message =>
    intro s hs
    exact Tagged.decodesExactly (ToSign.exact s hs) rfl (hmessage s hs) (by decide)
      (fun _ => rfl) (fun _ _ => toSign?_eq_some) (fun _ => rfl)
      (fun r hr => (toSign_restores (r := r) hr 126).fits) hfaithful
  case transaction =>
    intro s hs
    exact Tagged.decodesExactly (Transaction.exact index s hs) rfl (htransaction s hs) (by decide)
      (fun _ => rfl) (fun _ _ => transaction?_eq_some) (fun _ => rfl)
      (fun r hr => (transaction_restores (r := r) hr.1 hr.2 124).fits) hfaithful

end Request

end Device

/-! ## All whole numbers -/

/-- Every whole number of a message is decoded exactly, also in the item of a list at `index`. The
messages from the device and the other ones to it have none. -/
theorem messages_decode_integers_exactly (index : Nat) :
    (∀ s ∈ TransactionInput.slots, TransactionInput.shape.codec.DecodesExactly s
      (Medium.shown.Frame s.place) TransactionInput.Bounded) ∧
    (∀ s ∈ TransactionOutput.slots, TransactionOutput.shape.codec.DecodesExactly s
      (Medium.shown.Frame s.place) TransactionOutput.Bounded) ∧
    (∀ s ∈ GenerateAddresses.slots, (Body.shape : Shape GenerateAddresses).codec.DecodesExactly s
      (Medium.shown.Frame s.place) GenerateAddresses.Bounded) ∧
    (∀ s ∈ SignMessage.slots, (Body.shape : Shape SignMessage).codec.DecodesExactly s
      (Medium.shown.Frame s.place) SignMessage.Bounded) ∧
    (∀ s ∈ TransactionSign.slots index, (Body.shape : Shape TransactionSign).codec.DecodesExactly s
      (Medium.shown.Frame s.place) TransactionSign.InRange) ∧
    (∀ s ∈ SignInput.slots, SignInput.shape.codec.DecodesExactly s
      (Medium.shown.Frame s.place) SignInput.Bounded) ∧
    (∀ s ∈ SignOutput.slots, SignOutput.shape.codec.DecodesExactly s
      (Medium.shown.Frame s.place) SignOutput.Bounded) ∧
    ∀ e ∈ Device.Request.slots index, Device.Request.codec.DecodesExactly e.2
      (Tree.Kinded "kind" e.1 e.2.place) Device.Request.Bounded := by
  refine ⟨?input, ?output, ?addresses, ?message, ?transaction, ?signInput, ?signOutput,
    Device.Request.decodesExactly index⟩
  case input =>
    exact TransactionInput.regular.decodesExactly TransactionInput.exact
      fun _ h => TransactionInput.restores h 126
  case output =>
    exact TransactionOutput.regular.decodesExactly TransactionOutput.exact
      fun _ h => TransactionOutput.restores h 126
  case addresses =>
    exact GenerateAddresses.regular.decodesExactly GenerateAddresses.exact
      fun _ h => GenerateAddresses.restores h 126
  case message =>
    exact SignMessage.regular.decodesExactly SignMessage.exact
      fun _ h => SignMessage.restores h 126
  case transaction =>
    exact TransactionSign.regular.decodesExactly (TransactionSign.exact index)
      fun _ h => TransactionSign.restores h 124
  case signInput =>
    exact SignInput.regular.decodesExactly SignInput.exact fun _ h => SignInput.restores h 126
  case signOutput =>
    exact SignOutput.regular.decodesExactly SignOutput.exact fun _ h => SignOutput.restores h 126

/-- An input of which only the index is told. -/
def indexed (n : Numeral) : Tree := .object [(plainText "index" (by decide +kernel), .number n)]

def asked (n : Numeral) : Tree :=
  .object [(successTag.1, .text (plainText "generate_addresses" (by decide +kernel))),
    (plainText "count" (by decide +kernel), .number n),
    (plainText "start_index" (by decide +kernel), .number .zero),
    (plainText "confirm" (by decide +kernel), .truth true)]

/-- The greatest numbers of two ranges are accepted. The numbers after them are not, nor are zero
with a fraction and zero with a sign. -/
theorem messages_decode_integers_exactly_greatest :
    decode TransactionInput.shape.codec (utf8 "\x7b\"index\":9223372036854775807\x7d") =
      .ok ⟨none, some 9223372036854775807⟩ ∧
    (∀ i, decode TransactionInput.shape.codec (utf8 "\x7b\"index\":9223372036854775808\x7d") ≠
      .ok i) ∧
    (∀ i, decode TransactionInput.shape.codec (utf8 "\x7b\"index\":0.0\x7d") ≠ .ok i) ∧
    (∀ i, decode TransactionInput.shape.codec (utf8 "\x7b\"index\":-0\x7d") ≠ .ok i) ∧
    decode Device.Request.codec (utf8 ("\x7b\"kind\":\"generate_addresses\"," ++
      "\"count\":4294967295,\"start_index\":0,\"confirm\":true\x7d")) =
        .ok (.generateAddresses 4294967295 0 true) ∧
    ∀ m, decode Device.Request.codec (utf8 ("\x7b\"kind\":\"generate_addresses\"," ++
      "\"count\":4294967296,\"start_index\":0,\"confirm\":true\x7d")) ≠ .ok m := by
  obtain ⟨hinput, -, -, -, -, -, -, hrequest⟩ := messages_decode_integers_exactly 0
  have hplain : ∀ (T : Tree) (s : String), T.plain = utf8 s → Spread T.tokens (utf8 s) :=
    fun T s hs => hs ▸ Spread.flatten T.tokens
  have hindexed : Medium.shown.Frame [.member "index" 1] indexed :=
    @Medium.Frame.named .shown [] [] (plainText "index" (by decide +kernel)) "index" 1 []
      Tree.number (by decide +kernel) .here
  have hasked : Tree.Kinded "kind" "generate_addresses" [.member "count" 0] asked :=
    @Tree.Kinded.object "kind" "generate_addresses"
      [(successTag.1, .text (plainText "generate_addresses" (by decide +kernel)))]
      [(plainText "start_index" (by decide +kernel), .number .zero),
        (plainText "confirm" (by decide +kernel), .truth true)]
      (plainText "count" (by decide +kernel)) "count" 0 [] Tree.number (by decide +kernel)
      (by decide +kernel) .here
  have hindex := hinput _ List.mem_cons_self
  have hcount := hrequest _ List.mem_cons_self
  refine ⟨?greatest, ?beyond, ?fraction, ?signed, ?kept, ?keptBeyond⟩
  case greatest =>
    have hzero : decode TransactionInput.shape.codec (indexed .zero).plain = .ok ⟨none, some 0⟩ :=
      toOption_eq_some.mp (by decide +kernel)
    exact (hindex.accepts indexed hindexed (.plain false (utf8 "9223372036854775807")
      (by decide +kernel) (by decide +kernel)) _ _ (hplain _ _ (by decide +kernel)) (.flatten _)
        _).mpr ⟨9223372036854775807, _, by decide +kernel, by decide, hzero, rfl⟩
  case beyond =>
    exact hindex.refuses hindexed (n := .plain false (utf8 "9223372036854775808")
      (by decide +kernel) (by decide +kernel)) (by decide +kernel) (hplain _ _ (by decide +kernel))
  case fraction =>
    exact hindex.refuses hindexed
      (n := { Numeral.zero with fraction := some [0x30], fraction_digits := by decide +kernel })
      (by decide +kernel) (hplain _ _ (by decide +kernel))
  case signed =>
    exact hindex.refuses hindexed (n := .plain true [0x30] (by decide +kernel) fun _ => rfl)
      (by decide +kernel) (hplain _ _ (by decide +kernel))
  case kept =>
    have hzero : decode Device.Request.codec (asked .zero).plain =
        .ok (.generateAddresses 0 0 true) := toOption_eq_some.mp (by decide +kernel)
    exact (hcount.accepts asked hasked (.plain false (utf8 "4294967295") (by decide +kernel)
      (by decide +kernel)) _ _ (hplain _ _ (by decide +kernel)) (.flatten _) _).mpr
        ⟨4294967295, _, by decide +kernel, by decide, hzero, rfl⟩
  case keptBeyond =>
    exact hcount.refuses hasked (n := .plain false (utf8 "4294967296") (by decide +kernel)
      (by decide +kernel)) (by decide +kernel) (hplain _ _ (by decide +kernel))

end WalletBridge
