import WalletBridge.Device.Link

/-! # What a call makes of a reply

A call gives its caller a value exactly when the device replied with what the call
waits for, and then the value is what the reply carries. Signatures are held
against the request: one for a message, one for every input of a transaction.
Addresses are not, so a caller gets as many as the device sent, in its order.
-/

namespace WalletBridge.Device

/-! ## From the outcome of an exchange to the result -/

section
variable {c : Call} {reply : Reply} {outcome : Except Error Reply} {v : Value}

theorem conclude_error (hc : c ≠ .available) (error : Error) :
    c.conclude (.error error) = .error error := by
  cases c with
  | available => exact absurd rfl hc
  | _ => rfl

theorem conclude_ok (hc : c ≠ .available) (h : ∀ code message, reply ≠ .failure code message) :
    c.conclude (.ok reply) = c.interpret reply := by
  cases reply with
  | failure code message => exact absurd rfl (h code message)
  | _ =>
      cases c with
      | available => exact absurd rfl hc
      | _ => rfl

theorem conclude_failure (hc : c ≠ .available) (code : FailureCode) (message : String) :
    c.conclude (.ok (.failure code message)) = .error (match code with
      | .actionCancelled => .cancelled
      | .dataError => .invalidArgument message
      | .other => .failure message) := by
  cases c with
  | available => exact absurd rfl hc
  | _ => cases code <;> rfl

theorem interpret_eq_error {error : Error} (h : c.interpret reply = .error error) :
    error = c.unexpected reply := by
  unfold Call.interpret at h
  (repeat' split at h) <;> cases h <;> rfl

/-- A call has a value only of a reply that is no failure. -/
theorem conclude_eq_ok (hc : c ≠ .available) (h : c.conclude outcome = .ok v) :
    ∃ reply, outcome = .ok reply ∧ c.interpret reply = .ok v := by
  cases outcome with
  | error error =>
      rw [conclude_error hc] at h
      cases h
  | ok reply =>
      refine ⟨reply, rfl, ?_⟩
      cases reply with
      | failure code message =>
          rw [conclude_failure hc] at h
          cases h
      | _ => rwa [conclude_ok hc (by simp)] at h

end

/-! ## Replies that a call waits for -/

/-- The reply is one that the call waits for, and this is the value that it carries. -/
inductive Conveys : Call → Reply → Value → Prop where
  | features (f : Features) : Conveys .features (.features f) (.features f)
  | addresses (count startIndex : Nat) (confirm : Bool) (l : List String) :
      Conveys (.generateAddresses count startIndex confirm) (.addresses l) (.texts l)
  | signature (index : Nat) (message s : String) :
      Conveys (.signMessage index message) (.signatures [s]) (.text s)
  | signer (address message signature s : String) :
      Conveys (.checkMessageSignature address message signature) (.success (some s)) (.text s)
  | signatures {inputs : List SignInput} (outputs : List SignOutput) {l : List String}
      (hlength : l.length = inputs.length) :
      Conveys (.transactionSign inputs outputs) (.signatures l) (.texts l)
  | wiped (message : Option String) : Conveys .wipe (.success message) .nothing
  | cancelled (message : Option String) : Conveys .cancel (.success message) .nothing

section
variable {c : Call} {reply : Reply} {outcome : Except Error Reply} {v : Value}

theorem Conveys.not_failure (h : Conveys c reply v) (code : FailureCode) (message : String) :
    reply ≠ .failure code message := by
  cases h <;> simp

theorem Conveys.interpret (h : Conveys c reply v) : c.interpret reply = .ok v := by
  cases h with
  | signatures outputs hlength => simp [Call.interpret, hlength]
  | _ => rfl

theorem conveys_of_interpret (h : c.interpret reply = .ok v) : Conveys c reply v := by
  unfold Call.interpret at h
  split at h
  case h_5 inputs outputs l =>
    split at h
    · next hlength =>
        cases h
        exact .signatures outputs (by simpa using hlength)
    · cases h
  case h_8 => cases h
  all_goals
    cases h
    constructor

/-- The caller gets a value exactly when the reply conveys it. -/
theorem conclude_eq_ok_iff (hc : c ≠ .available) :
    c.conclude outcome = .ok v ↔ ∃ reply, outcome = .ok reply ∧ Conveys c reply v := by
  constructor
  · intro h
    obtain ⟨reply, houtcome, hinterpret⟩ := conclude_eq_ok hc h
    exact ⟨reply, houtcome, conveys_of_interpret hinterpret⟩
  · rintro ⟨reply, rfl, hconveys⟩
    rw [conclude_ok hc hconveys.not_failure]
    exact hconveys.interpret

end

/-! ## Calls over a link -/

/-- The call ends over the link with this value. -/
def Returns (link : Link σ) (s : σ) (c : Call) (v : Value) : Prop :=
  ∃ f, (c.perform link s).1 = some f ∧ f.result = .ok v

/-- The message of the call is answered over the link with this reply. -/
def Replies (link : Link σ) (s : σ) (c : Call) (reply : Reply) : Prop :=
  ∃ answer, (link.exchange c.request s).1 = some answer ∧ answer.result = .ok reply

theorem perform_asked (link : Link σ) (s : σ) {c : Call} (hc : c ≠ .available) :
    c.perform link s = ((link.exchange c.request s).1.map fun answer =>
      { after := answer.after
        result := c.conclude answer.result
        counted := c.counted answer.result }, (link.exchange c.request s).2) := by
  have hsends : (c == .available && !link.asks) = false := by simp [hc]
  simp only [Call.perform, hsends, Bool.false_eq_true, if_false]

theorem returns_iff (link : Link σ) (s : σ) {c : Call} {v : Value} (hc : c ≠ .available) :
    Returns link s c v ↔ ∃ reply, Replies link s c reply ∧ Conveys c reply v := by
  unfold Returns Replies
  rw [perform_asked link s hc]
  constructor
  · rintro ⟨f, hf, hresult⟩
    obtain ⟨answer, hanswer, rfl⟩ := Option.map_eq_some_iff.mp hf
    obtain ⟨reply, hreply, hconveys⟩ := (conclude_eq_ok_iff hc).mp hresult
    exact ⟨reply, ⟨answer, hanswer, hreply⟩, hconveys⟩
  · rintro ⟨reply, ⟨answer, hanswer, hreply⟩, hconveys⟩
    refine ⟨_, Option.map_eq_some_iff.mpr ⟨answer, hanswer, rfl⟩, ?_⟩
    exact (conclude_eq_ok_iff hc).mpr ⟨reply, hreply, hconveys⟩

/-- Over every link, signing a transaction gives a list exactly when the device replied with that
list and it has one entry for each input; signing a message gives a text exactly when the device
replied with that one signature; asking for addresses gives a list exactly when the device replied
with that list, whatever number was asked for. -/
theorem lists_as_replied (link : Link σ) (s : σ) (v : Value) :
    (∀ inputs outputs, Returns link s (.transactionSign inputs outputs) v ↔
      ∃ l, v = .texts l ∧ l.length = inputs.length ∧
        Replies link s (.transactionSign inputs outputs) (.signatures l)) ∧
    (∀ index message, Returns link s (.signMessage index message) v ↔
      ∃ signature, v = .text signature ∧
        Replies link s (.signMessage index message) (.signatures [signature])) ∧
    (∀ count startIndex confirm, Returns link s (.generateAddresses count startIndex confirm) v ↔
      ∃ l, v = .texts l ∧
        Replies link s (.generateAddresses count startIndex confirm) (.addresses l)) := by
  refine ⟨?transaction, ?message, ?addresses⟩
  case transaction =>
    intro inputs outputs
    rw [returns_iff link s (by simp)]
    constructor
    · rintro ⟨reply, hreply, hconveys⟩
      cases hconveys with
      | signatures outputs hlength => exact ⟨_, rfl, hlength, hreply⟩
    · rintro ⟨l, rfl, hlength, hreply⟩
      exact ⟨_, hreply, .signatures outputs hlength⟩
  case message =>
    intro index message
    rw [returns_iff link s (by simp)]
    constructor
    · rintro ⟨reply, hreply, hconveys⟩
      cases hconveys with
      | signature => exact ⟨_, rfl, hreply⟩
    · rintro ⟨signature, rfl, hreply⟩
      exact ⟨_, hreply, .signature index message signature⟩
  case addresses =>
    intro count startIndex confirm
    rw [returns_iff link s (by simp)]
    constructor
    · rintro ⟨reply, hreply, hconveys⟩
      cases hconveys with
      | addresses => exact ⟨_, rfl, hreply⟩
    · rintro ⟨l, rfl, hreply⟩
      exact ⟨_, hreply, .addresses count startIndex confirm l⟩

/-- Two addresses are asked for, the device sends one, and the caller gets it as the answer. -/
theorem addresses_too_few :
    let s : Script := ⟨[some { result := .ok (.addresses ["2M9"]) }], []⟩
    Returns Script.link s (.generateAddresses 2 0 false) (.texts ["2M9"]) ∧
      ["2M9"].length ≠ 2 :=
  ⟨⟨_, rfl, rfl⟩, by decide⟩

end WalletBridge.Device
