import WalletBridge.Device.Message
import WalletBridge.Proofs.Json.Further
import WalletBridge.Request.Body

/-! # Messages do not depend on how their texts present them

One message may be written in many ways: with blanks between its tokens, with the
members of its objects in any order, with members that its type does not know, and
with `null` for a member that may be lacking. Each type of messages is decoded
to the same value from all of them.
-/

namespace WalletBridge

open Json Text Device Request

namespace Json

/-! ## Decoding -/

theorem decode_spread {c : Codec α} {T : Tree} {o : Option α} {bytes : Bytes}
    (h : Sees (c.read deepest) T.tokens o) (hbytes : Spread T.tokens bytes) :
    (decode c bytes).toOption = o := by
  have hspread : Spread (T.tokens ++ []) bytes := by
    rwa [List.append_nil]
  have hgives := h [] bytes (by simp [Follows]) hspread
  unfold decode
  cases o with
  | none =>
      obtain ⟨fault, hread⟩ := hgives
      rw [hread]
      rfl
  | some a =>
      obtain ⟨rest, hread, hrest⟩ := hgives
      rw [hread]
      simp only [bind, Except.bind, hrest.nil_skipSpaces]
      rfl

/-- What an object is decoded to does not depend on its presentation: `known` are the names that
the type knows, `lackable` those of members that may be lacking, and `Fits` tells what may be the
value of a further member. -/
structure Codec.IgnoresPresentation (c : Codec α) (known lackable : List String)
    (Fits : Tree → Prop) : Prop where
  /-- Blanks may stand between the tokens, and the members of each object change places. -/
  order : ∀ (members : List (Spelling × Tree)) (T : Tree) (bytes bytes' : Bytes),
    Relation.ReflTransGen Tree.Reorders (.object members) T →
      Spread (Tree.object members).tokens bytes → Spread T.tokens bytes' →
        (decode c bytes).toOption = (decode c bytes').toOption
  /-- A member may be added whose name the type does not know. -/
  unknown : ∀ (before after : List (Spelling × Tree)) (name : Spelling) (text : String) (V : Tree)
    (bytes bytes' : Bytes) (a : α), name.value? = some text → text ∉ known → Fits V →
      Spread (Tree.object (before ++ after)).tokens bytes →
        Spread (Tree.object (before ++ (name, V) :: after)).tokens bytes' →
          decode c bytes = .ok a → decode c bytes' = .ok a
  /-- `null` may be added for a member that is lacking. -/
  lacking : ∀ (before after : List (Spelling × Tree)) (name : Spelling) (text : String)
    (bytes bytes' : Bytes) (a : α), name.value? = some text → text ∈ lackable →
      (∀ m ∈ before ++ after, m.1.value? ≠ some text) →
        Spread (Tree.object (before ++ after)).tokens bytes →
          Spread (Tree.object (before ++ (name, .null) :: after)).tokens bytes' →
            decode c bytes = .ok a → decode c bytes' = .ok a

theorem toOption_eq_some {x : Except ε α} {a : α} : x.toOption = some a ↔ x = .ok a := by
  cases x with
  | error e => simp [Except.toOption]
  | ok b => simp [Except.toOption]

/-- The laws of decoding from those of reading, with a further member in the first place. -/
theorem Codec.IgnoresPresentation.of_outcome {c : Codec α} {known lackable : List String}
    {Fits : Tree → Prop}
    (hsees : ∀ members : List (Spelling × Tree),
      ∃ o, Sees (c.read deepest) (Tree.object members).tokens o)
    (hsame : ∀ members T, Tree.Reorders (.object members) T →
      outcome (c.read deepest) (.object members) = outcome (c.read deepest) T)
    (hunknown : ∀ members name text V a, Spelling.value? name = some text → text ∉ known → Fits V →
      outcome (c.read deepest) (.object members) = some a →
        outcome (c.read deepest) (.object ((name, V) :: members)) = some a)
    (hlacking : ∀ members name text a, Spelling.value? name = some text → text ∈ lackable →
      (∀ m ∈ members, m.1.value? ≠ some text) →
        outcome (c.read deepest) (.object members) = some a →
          outcome (c.read deepest) (.object ((name, .null) :: members)) = some a) :
    c.IgnoresPresentation known lackable Fits := by
  have hdecode : ∀ (members : List (Spelling × Tree)) (bytes : Bytes),
      Spread (Tree.object members).tokens bytes →
        (decode c bytes).toOption = outcome (c.read deepest) (.object members) := by
    intro members bytes hbytes
    obtain ⟨o, ho⟩ := hsees members
    rw [decode_spread ho hbytes, ho.outcome_eq]
  have hfront : ∀ (before after : List (Spelling × Tree)) (m : Spelling × Tree),
      outcome (c.read deepest) (.object (before ++ m :: after)) =
        outcome (c.read deepest) (.object (m :: (before ++ after))) :=
    fun before after m => hsame _ _ (.here List.perm_middle)
  refine ⟨?order, ?unknown, ?lacking⟩
  case order =>
    intro members T bytes bytes' hT hbytes hbytes'
    obtain ⟨members', rfl, hmembers⟩ : ∃ members', T = .object members' ∧
        outcome (c.read deepest) (.object members) =
          outcome (c.read deepest) (.object members') := by
      clear hbytes'
      induction hT with
      | refl => exact ⟨members, rfl, rfl⟩
      | tail _ hstep ih =>
          obtain ⟨middle, rfl, hmiddle⟩ := ih
          obtain ⟨last, rfl⟩ := hstep.object
          exact ⟨last, rfl, hmiddle.trans (hsame _ _ hstep)⟩
    rw [hdecode members bytes hbytes, hdecode members' bytes' hbytes', hmembers]
  case unknown =>
    intro before after name text V bytes bytes' a hname hknown hV hbytes hbytes' ha
    rw [← toOption_eq_some] at ha ⊢
    rw [hdecode _ _ hbytes] at ha
    rw [hdecode _ _ hbytes', hfront]
    exact hunknown _ name text V a hname hknown hV ha
  case lacking =>
    intro before after name text bytes bytes' a hname hlack habsent hbytes hbytes' ha
    rw [← toOption_eq_some] at ha ⊢
    rw [hdecode _ _ hbytes] at ha
    rw [hdecode _ _ hbytes', hfront]
    exact hlacking _ name text a hname hlack habsent ha

/-- A record is decoded in this way when its members do not see the order of members, and are
apart. Any value may be that of a further member: it is passed over. -/
theorem Shape.ignoresPresentation {shape : Shape ρ} {lackable : List String} (h : shape.Apart)
    (hmembers : ∀ m ∈ shape.members, ReadsUnordered m.read)
    (hlackable : ∀ text ∈ lackable, ∃ m ∈ shape.members, m.name = text ∧
      ∃ change, m.MayBeNull change) :
    shape.codec.IgnoresPresentation (shape.members.map (·.name)) lackable fun _ => True := by
  have hlook : ∀ T, outcome (shape.codec.read deepest) T = shape.look deepest T := fun T =>
    (codec_sees (fun m hm => (hmembers m hm).steady _) T).outcome_eq
  have hread := codec_reads_unordered h hmembers
  refine .of_outcome (fun members => hread.steady deepest (.object members))
    (fun members T => hread.same deepest (.object members) T) ?unknown ?lacking
  case unknown =>
    intro members name text V a hname hknown _ ha
    rw [hlook] at ha ⊢
    rw [look_unknown hname (member?_eq_none hknown), ha]
  case lacking =>
    intro members name text a hname hlack habsent ha
    obtain ⟨m, hm, rfl, change, hnull⟩ := hlackable text hlack
    rw [hlook] at ha ⊢
    rw [look_null h hm hnull hname habsent, ha]

/-- A record that is told apart by a tag is decoded in this way when its variants are. The value of
a further member must be one that can be read within the depth that is left in the object. -/
theorem Tagged.ignoresPresentation {tagged : Tagged α} {known lackable : List String}
    (htakes : ∀ variant ∈ tagged.variants, TakesUnordered variant.take)
    (htag : tagged.tagName ∈ known) (htag' : tagged.tagName ∉ lackable)
    (hunknown : ∀ text, text ∉ known → ∀ variant ∈ tagged.variants, variant.Ignores text)
    (hlackable : ∀ text ∈ lackable, ∀ variant ∈ tagged.variants, variant.MayLack text) :
    tagged.codec.IgnoresPresentation known lackable
      fun V => (outcome (readJson (deepest - 1)) V).isSome := by
  refine .of_outcome (fun members => ⟨_, codec_sees_object members⟩)
    (fun members T hT => read_unordered htakes hT deepest) ?unknown ?lacking
  case unknown =>
    intro members name text V a hname hknown hV ha
    rw [(readJson_sees (deepest - 1) V).outcome_eq] at hV
    obtain ⟨v, hv⟩ := Option.isSome_iff_exists.mp hV
    have hne : text ≠ tagged.tagName := by
      rintro rfl
      exact hknown htag
    refine read_further hname hne hv (fun values _ variant hvariant a ha => ?_) ha
    rw [hunknown text hknown variant hvariant, ha]
  case lacking =>
    intro members name text a hname hlack habsent ha
    have hne : text ≠ tagged.tagName := by
      rintro rfl
      exact htag' hlack
    refine read_further hname hne (v := .null) rfl
      (fun values hvalues variant hvariant a ha => ?_) ha
    refine hlackable text hlack variant hvariant _ a (fun hmem => ?_) ha
    have hnames := valued?_names hvalues habsent
    obtain ⟨m, hm, heq⟩ := List.mem_map.mp hmem
    exact hnames (List.mem_map.mpr ⟨m, (List.mem_filter.mp hm).1, heq⟩)

end Json

/-! ## Requests of clients -/

namespace Request

theorem TransactionInput.apart : TransactionInput.shape.Apart where
  names := by decide
  parts := by simp [TransactionInput.shape, Member.apart]

theorem TransactionOutput.apart : TransactionOutput.shape.Apart where
  names := by decide
  parts := by simp [TransactionOutput.shape, Member.apart]

theorem GenerateAddresses.apart : (Body.shape : Shape GenerateAddresses).Apart where
  names := by decide
  parts := by simp [Body.shape, Member.apart]

theorem SignMessage.apart : (Body.shape : Shape SignMessage).Apart where
  names := by decide
  parts := by simp [Body.shape, Member.apart]

theorem CheckMessageSignature.apart : (Body.shape : Shape CheckMessageSignature).Apart where
  names := by decide
  parts := by simp [Body.shape, Member.apart]

theorem TransactionSign.apart : (Body.shape : Shape TransactionSign).Apart where
  names := by decide
  parts := by simp [Body.shape, Member.apart]

theorem TransactionInput.members_unordered :
    ∀ m ∈ TransactionInput.shape.members, ReadsUnordered m.read := by
  simp [TransactionInput.shape]

theorem TransactionOutput.members_unordered :
    ∀ m ∈ TransactionOutput.shape.members, ReadsUnordered m.read := by
  simp [TransactionOutput.shape]

theorem TransactionSign.members_unordered :
    ∀ m ∈ (Body.shape : Shape TransactionSign).members, ReadsUnordered m.read := by
  have hinputs := Shape.codec_reads_unordered TransactionInput.apart
    TransactionInput.members_unordered
  have houtputs := Shape.codec_reads_unordered TransactionOutput.apart
    TransactionOutput.members_unordered
  simp [Body.shape, hinputs, houtputs]

theorem TransactionInput.presentation : TransactionInput.shape.codec.IgnoresPresentation
    ["hash", "index"] ["hash", "index"] fun _ => True :=
  Shape.ignoresPresentation apart members_unordered (by simp [TransactionInput.shape])

theorem TransactionOutput.presentation : TransactionOutput.shape.codec.IgnoresPresentation
    ["address", "coins", "hours", "address_index"] ["address", "coins", "hours", "address_index"]
      fun _ => True :=
  Shape.ignoresPresentation apart members_unordered (by simp [TransactionOutput.shape])

theorem GenerateAddresses.presentation :
    (Body.shape : Shape GenerateAddresses).codec.IgnoresPresentation
      ["address_n", "start_index", "confirm_address"] ["address_n"] fun _ => True :=
  Shape.ignoresPresentation apart (by simp [Body.shape]) (by simp [Body.shape])

theorem SignMessage.presentation :
    (Body.shape : Shape SignMessage).codec.IgnoresPresentation
      ["address_index", "message"] ["address_index", "message"] fun _ => True :=
  Shape.ignoresPresentation apart (by simp [Body.shape]) (by simp [Body.shape])

theorem CheckMessageSignature.presentation :
    (Body.shape : Shape CheckMessageSignature).codec.IgnoresPresentation
      ["address", "message", "signature"] ["address", "message", "signature"] fun _ => True :=
  Shape.ignoresPresentation apart (by simp [Body.shape]) (by simp [Body.shape])

theorem TransactionSign.presentation :
    (Body.shape : Shape TransactionSign).codec.IgnoresPresentation
      ["transaction_inputs", "transaction_outputs"] ["transaction_inputs", "transaction_outputs"]
      fun _ => True :=
  Shape.ignoresPresentation apart members_unordered (by simp [Body.shape])

end Request

/-! ## Messages to and from the device -/

namespace Device

theorem Features.apart : Features.shape.Apart where
  names := by decide
  parts := by simp [Features.shape, Member.apart]

theorem SignInput.apart : SignInput.shape.Apart where
  names := by decide
  parts := by simp [SignInput.shape, Member.apart]

theorem SignOutput.apart : SignOutput.shape.Apart where
  names := by decide
  parts := by simp [SignOutput.shape, Member.apart]

theorem Features.presentation : Features.shape.codec.IgnoresPresentation
    ["vendor", "device_id", "firmware_version", "label", "initialized", "pin_protection",
      "passphrase_protection", "needs_backup"] ["label"] fun _ => True :=
  Shape.ignoresPresentation apart (by simp [shape]) (by simp [shape])

theorem SignInput.presentation :
    SignInput.shape.codec.IgnoresPresentation ["hash", "index"] [] fun _ => True :=
  Shape.ignoresPresentation apart (by simp [shape]) (by simp)

theorem SignOutput.presentation : SignOutput.shape.codec.IgnoresPresentation
    ["address", "coins", "hours", "address_index"] ["address_index"] fun _ => True :=
  Shape.ignoresPresentation apart (by simp [shape]) (by simp [shape])

theorem SignInput.takes_unordered : TakesUnordered SignInput.shape.take :=
  Shape.take_unordered apart (by simp [shape])

theorem SignOutput.takes_unordered : TakesUnordered SignOutput.shape.take :=
  Shape.take_unordered apart (by simp [shape])

namespace Request

theorem addressRange_apart : addressRange.Apart where
  names := by decide
  parts := by simp [addressRange, Member.apart]

theorem toSign_apart : toSign.Apart where
  names := by decide
  parts := by simp [toSign, Member.apart]

theorem transaction_apart : transaction.Apart where
  names := by decide
  parts := by simp [transaction, Member.apart]

theorem addressRange_takes_unordered : TakesUnordered addressRange.take :=
  Shape.take_unordered addressRange_apart (by simp [addressRange])

theorem toSign_takes_unordered : TakesUnordered toSign.take :=
  Shape.take_unordered toSign_apart (by simp [toSign])

theorem toCheck_takes_unordered : TakesUnordered toCheck.take :=
  Shape.take_unordered ⟨by decide, by simp [toCheck, Member.apart]⟩ (by simp [toCheck])

theorem transaction_takes_unordered : TakesUnordered transaction.take := by
  have hinputs : TakesUnordered SignInput.shape.codec.take := SignInput.takes_unordered
  have houtputs : TakesUnordered SignOutput.shape.codec.take := SignOutput.takes_unordered
  exact Shape.take_unordered transaction_apart (by simp [transaction, hinputs, houtputs])

theorem presentation : Request.codec.IgnoresPresentation
    ["kind", "count", "start_index", "confirm", "address_index", "message", "address", "signature",
      "inputs", "outputs"] [] fun V => (outcome (readJson (deepest - 1)) V).isSome := by
  refine Tagged.ignoresPresentation ?_ (by decide) (by decide) ?_ (by simp)
  · simp [addressRange_takes_unordered, toSign_takes_unordered, toCheck_takes_unordered,
      transaction_takes_unordered]
  · intro text h
    simp only [List.mem_cons, List.not_mem_nil, or_false, not_or] at h
    simp [addressRange, toSign, toCheck, transaction, h]

end Request

namespace Reply

theorem success_apart : successShape.Apart where
  names := by decide
  parts := by simp [successShape]

theorem failure_apart : failureShape.Apart where
  names := by decide
  parts := by simp [failureShape, Member.apart]

theorem success_takes_unordered : TakesUnordered successShape.take :=
  Shape.take_unordered success_apart (by simp [successShape])

theorem failure_takes_unordered : TakesUnordered failureShape.take := by
  have hcode : TakesUnordered FailureCode.codec.take := choice_takes_unordered _ _
  exact Shape.take_unordered failure_apart (by simp [failureShape, hcode])

theorem features_takes_unordered : TakesUnordered Features.shape.take :=
  Shape.take_unordered Features.apart (by simp [Features.shape])

theorem addresses_takes_unordered : TakesUnordered addressesShape.take :=
  Shape.take_unordered ⟨by decide, by simp [addressesShape]⟩ (by simp [addressesShape])

theorem signatures_takes_unordered : TakesUnordered signaturesShape.take :=
  Shape.take_unordered ⟨by decide, by simp [signaturesShape]⟩ (by simp [signaturesShape])

theorem presentation : Reply.codec.IgnoresPresentation
    ["kind", "message", "code", "vendor", "device_id", "firmware_version", "label", "initialized",
      "pin_protection", "passphrase_protection", "needs_backup", "addresses", "signatures"]
    ["message", "label"] fun V => (outcome (readJson (deepest - 1)) V).isSome := by
  refine Tagged.ignoresPresentation ?_ (by decide) (by decide) ?_ ?_
  · simp [success_takes_unordered, failure_takes_unordered, features_takes_unordered,
      addresses_takes_unordered, signatures_takes_unordered]
  · intro text h
    simp only [List.mem_cons, List.not_mem_nil, or_false, not_or] at h
    simp [successShape, failureShape, Features.shape, addressesShape, signaturesShape, h]
  · simp only [List.forall_mem_cons, List.not_mem_nil, false_imp_iff, implies_true, and_true]
    refine ⟨⟨?success, ?failure, ?features, ?addresses, ?signatures⟩,
      ?successLabel, ?failureLabel, ?featuresLabel, ?addressesLabel, ?signaturesLabel⟩
    case success => exact Variant.ofShape_mayLack success_apart (by simp [successShape])
    -- A failure is not told without its message, so that this message is never lacking.
    case failure => exact Variant.ofShape_mayLack_required (by simp [failureShape])
    case featuresLabel => exact Variant.ofShape_mayLack Features.apart (by simp [Features.shape])
    all_goals exact (Variant.ofShape_ignores (by decide)).mayLack

end Reply

end Device

/-! ## All messages -/

/-- Every type of messages is decoded without regard to the presentation of its texts. A message to
or from the device is kept as a value until its kind is known, so that a further member must have a
value that can be read inside the object; elsewhere a further value is passed over, whatever it
is. -/
theorem messages_ignore_presentation :
    TransactionInput.shape.codec.IgnoresPresentation ["hash", "index"] ["hash", "index"]
      (fun _ => True) ∧
    TransactionOutput.shape.codec.IgnoresPresentation
      ["address", "coins", "hours", "address_index"] ["address", "coins", "hours", "address_index"]
      (fun _ => True) ∧
    (Body.shape : Shape GenerateAddresses).codec.IgnoresPresentation
      ["address_n", "start_index", "confirm_address"] ["address_n"] (fun _ => True) ∧
    (Body.shape : Shape SignMessage).codec.IgnoresPresentation
      ["address_index", "message"] ["address_index", "message"] (fun _ => True) ∧
    (Body.shape : Shape CheckMessageSignature).codec.IgnoresPresentation
      ["address", "message", "signature"] ["address", "message", "signature"] (fun _ => True) ∧
    (Body.shape : Shape TransactionSign).codec.IgnoresPresentation
      ["transaction_inputs", "transaction_outputs"] ["transaction_inputs", "transaction_outputs"]
      (fun _ => True) ∧
    Features.shape.codec.IgnoresPresentation
      ["vendor", "device_id", "firmware_version", "label", "initialized", "pin_protection",
        "passphrase_protection", "needs_backup"] ["label"] (fun _ => True) ∧
    SignInput.shape.codec.IgnoresPresentation ["hash", "index"] [] (fun _ => True) ∧
    SignOutput.shape.codec.IgnoresPresentation
      ["address", "coins", "hours", "address_index"] ["address_index"] (fun _ => True) ∧
    Device.Request.codec.IgnoresPresentation
      ["kind", "count", "start_index", "confirm", "address_index", "message", "address",
        "signature", "inputs", "outputs"] []
      (fun V => (outcome (readJson (deepest - 1)) V).isSome) ∧
    Reply.codec.IgnoresPresentation
      ["kind", "message", "code", "vendor", "device_id", "firmware_version", "label", "initialized",
        "pin_protection", "passphrase_protection", "needs_backup", "addresses", "signatures"]
      ["message", "label"] (fun V => (outcome (readJson (deepest - 1)) V).isSome) :=
  ⟨TransactionInput.presentation, TransactionOutput.presentation, GenerateAddresses.presentation,
    SignMessage.presentation, CheckMessageSignature.presentation, TransactionSign.presentation,
    Features.presentation, SignInput.presentation, SignOutput.presentation,
    Device.Request.presentation, Reply.presentation⟩

instance : DecidablePred Plain := fun _ => inferInstanceAs (Decidable (_ ∧ _ ∧ _))

def plainText (s : String) (h : ∀ b ∈ utf8 s, Plain b) : Spelling :=
  (utf8 s).attach.map fun b => .plain b.1 (h b.1 b.2)

def successTag : Spelling × Tree :=
  (plainText "kind" (by decide +kernel), .text (plainText "success" (by decide +kernel)))

def successMessage (value : Tree) : Spelling × Tree :=
  (plainText "message" (by decide +kernel), value)

def furtherMember (value : Tree) : Spelling × Tree := (plainText "z" (by decide +kernel), value)

/-- The tag may come last and blanks between all tokens, a further member may be there, and the
message may be `null`. -/
theorem messages_ignore_presentation_success :
    (decode Reply.codec (utf8 "\x7b\"kind\":\"success\",\"message\":\"z\"\x7d")).toOption =
      (decode Reply.codec
        (utf8 " \x7b \"message\" : \"z\" , \"kind\" : \"success\" \x7d ")).toOption ∧
    decode Reply.codec (utf8 "\x7b\"kind\":\"success\",\"z\":[null]\x7d") =
      .ok (.success none) ∧
    decode Reply.codec (utf8 "\x7b\"message\":null,\"kind\":\"success\"\x7d") =
      .ok (.success none) := by
  obtain ⟨-, -, -, -, -, -, -, -, -, -, h⟩ := messages_ignore_presentation
  have hplain : ∀ (T : Tree) (s : String), T.plain = utf8 s → Spread T.tokens (utf8 s) :=
    fun T s hs => hs ▸ Spread.flatten T.tokens
  have hsuccess : decode Reply.codec (utf8 "\x7b\"kind\":\"success\"\x7d") = .ok (.success none) :=
    toOption_eq_some.mp (by decide +kernel)
  refine ⟨?_, ?_, ?_⟩
  · let message := successMessage (.text (plainText "z" (by decide +kernel)))
    have hswap : Tree.Reorders (.object [successTag, message]) (.object [message, successTag]) :=
      .here (.swap ..)
    have hspread : (Tree.object [message, successTag]).tokens.flatMap (0x20 :: ·) ++ [0x20] =
        utf8 " \x7b \"message\" : \"z\" , \"kind\" : \"success\" \x7d " := by decide +kernel
    refine h.order _ _ _ _ (.single hswap) (hplain _ _ (by decide +kernel)) ?_
    rw [← hspread]
    exact Spread.of_blank rfl _
  · exact h.unknown [successTag] [] (furtherMember .null).1 "z" (.list [.null]) _ _ _
      (by decide +kernel) (by decide) (by decide +kernel) (hplain _ _ (by decide +kernel))
      (hplain _ _ (by decide +kernel)) hsuccess
  · exact h.lacking [] [successTag] (successMessage .null).1 "message" _ _ _
      (by decide +kernel) (by decide) (by decide +kernel) (hplain _ _ (by decide +kernel))
      (hplain _ _ (by decide +kernel)) hsuccess

def nestedLists : Nat → Tree
  | 0 => .list []
  | n + 1 => .list [nestedLists n]

/-- A value that nests as deep as any value may is not one for a further member. -/
theorem deep_member_refused :
    ¬ Reply.codec.IgnoresPresentation
      ["kind", "message", "code", "vendor", "device_id", "firmware_version", "label", "initialized",
        "pin_protection", "passphrase_protection", "needs_backup", "addresses", "signatures"]
      ["message", "label"] (fun V => (outcome (readJson deepest) V).isSome) := by
  intro h
  have hsuccess : decode Reply.codec (Tree.object [successTag]).plain = .ok (.success none) :=
    toOption_eq_some.mp (by decide +kernel)
  have hdeep := h.unknown [successTag] [] (furtherMember .null).1 "z" (nestedLists 126) _ _ _
    (by decide +kernel) (by decide) (by decide +kernel) (Spread.flatten _) (Spread.flatten _)
    hsuccess
  have hrefused : (decode Reply.codec
      (Tree.object [successTag, furtherMember (nestedLists 126)]).plain).toOption = none := by
    decide +kernel
  rw [← toOption_eq_some] at hdeep
  cases hrefused.symm.trans hdeep

end WalletBridge
