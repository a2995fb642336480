import WalletBridge.Proofs.Device.Replies
import WalletBridge.Proofs.Messages.RoundTrip
import WalletBridge.Proofs.Service.Access
import WalletBridge.Proofs.Service.Delivery

/-! # Answers say what the device said

A client is told of a success when the device replied with what the endpoint waits
for, and then of the contents of that reply; every other outcome of the exchange
has a status of its own. Which replies an endpoint waits for, and what is told of
them, is `Answers`; it is compared with the call that the endpoint makes.
-/

namespace WalletBridge.Http

open Device Json Request

/-- The reply is one that the endpoint waits for, and this is the data that tells of it. -/
inductive Answers (body : Bytes) : Endpoint → Reply → Json → Prop where
  | features {f : Features} {d : Json} (told : Features.shape.codec.take d = .ok f) :
      Answers body .features (.features f) d
  | addresses (l : List String) :
      Answers body .generateAddresses (.addresses l) (.object [("addresses", .list (l.map .text))])
  | signature (s : String) :
      Answers body .signMessage (.signatures [s]) (.object [("signature", .text s)])
  | signer (s : String) :
      Answers body .checkMessageSignature (.success (some s)) (.object [("address", .text s)])
  | signatures {b : Request.TransactionSign} {given : List TransactionInput} {l : List String}
      (accepted : Accepted body b) (hgiven : b.inputs = some given)
      (hlength : l.length = given.length) :
      Answers body .transactionSign (.signatures l) (.object [("signatures", .list (l.map .text))])
  | wiped (message : Option String) :
      Answers body .wipe (.success message) (.object [("message", .text "device wiped")])
  | cancelled (message : Option String) :
      Answers body .cancel (.success message) (.object [("message", .text "operation cancelled")])

/-- The outcome of sending the message of a call came before the time limit. -/
def Heard (site : Site) (link : Link σ) (s : State σ) (c : Call)
    (outcome : Except Device.Error Reply) : Prop :=
  ∃ answer, (link.exchange c.request s.link).1 = some answer ∧
    answer.after < site.settings.requestTimeout ∧ answer.result = outcome

/-- The turn tells the client of the outcome as it was. -/
structure Turn.Truthful (t : Turn σ) (e : Endpoint) (outcome : Except Device.Error Reply) :
    Prop where
  success : t.response.status = 200 ↔
    ∃ reply d, outcome = .ok reply ∧ Answers t.request.body e reply d
  data : t.response.status = 200 → t.request.method ≠ "HEAD" →
    ∃ reply d, outcome = .ok reply ∧ Answers t.request.body e reply d ∧
      decode anything (Text.utf8 t.response.body) = .ok (.object [("data", d)])
  bare : t.request.method = "HEAD" → t.response.body = ""
  failure : ∀ code message, outcome = .ok (.failure code message) →
    t.response.status = match code with
      | .actionCancelled => 409
      | .dataError => 400
      | .other => 500
  unexpected : ∀ reply, outcome = .ok reply → (∀ code message, reply ≠ .failure code message) →
    (∀ d, ¬ Answers t.request.body e reply d) → t.response.status = 500
  error : ∀ error, outcome = .error error →
    t.response.status = match error with
      | .notConnected _ => 503
      | .cancelled => 409
      | .invalidArgument _ => 400
      | .failure _ | .transport _ | .protocol _ => 500
  undecodable : ∀ bytes fault, Json.decode Reply.codec bytes = .error fault →
    outcome = Reply.decode bytes → t.response.status = 500

/-- The turn tells the client whether a device is there. -/
structure Turn.TellsAvailable (t : Turn σ) (available : Prop) : Prop where
  status : t.response.status = 200
  data : t.request.method ≠ "HEAD" → ∃ b, (b = true ↔ available) ∧
    decode anything (Text.utf8 t.response.body) =
      .ok (.object [("data", .object [("available", .truth b)])])
  bare : t.request.method = "HEAD" → t.response.body = ""

/-! ## The call of an endpoint -/

inductive Makes (body : Bytes) : Endpoint → Call → Prop where
  | available : Makes body .available .available
  | features : Makes body .features .features
  | generateAddresses (count startIndex : Nat) (confirm : Bool) :
      Makes body .generateAddresses (.generateAddresses count startIndex confirm)
  | signMessage (index : Nat) (message : String) :
      Makes body .signMessage (.signMessage index message)
  | checkMessageSignature (address message signature : String) :
      Makes body .checkMessageSignature (.checkMessageSignature address message signature)
  | transactionSign {b : Request.TransactionSign} {given : List TransactionInput}
      {inputs : List SignInput} {outputs : List SignOutput} (accepted : Accepted body b)
      (hgiven : b.inputs = some given) (hlength : inputs.length = given.length) :
      Makes body .transactionSign (.transactionSign inputs outputs)
  | wipe : Makes body .wipe .wipe
  | cancel : Makes body .cancel .cancel

theorem Endpoint.job_makes {e : Endpoint} {r : HttpRequest} {c : Call}
    (h : e.job r = .ok (.call c)) : Makes r.body e c := by
  have hcall := bodyCall_of_job h
  cases e with
  | csrf | version => cases h
  | available =>
      cases h
      exact .available
  | features =>
      cases h
      exact .features
  | wipe =>
      cases h
      exact .wipe
  | cancel =>
      cases h
      exact .cancel
  | generateAddresses =>
      obtain ⟨b, -, hmade⟩ := bind_eq_ok hcall
      cases hmade
      exact .generateAddresses _ _ _
  | signMessage =>
      obtain ⟨b, -, hmade⟩ := bind_eq_ok hcall
      cases hmade
      exact .signMessage _ _
  | checkMessageSignature =>
      obtain ⟨b, -, hmade⟩ := bind_eq_ok hcall
      cases hmade
      exact .checkMessageSignature _ _ _
  | transactionSign =>
      have hcarries := (job_carries (by decide) h).1
      obtain ⟨b, -, hmade⟩ := bind_eq_ok hcall
      obtain ⟨inputs, -, hmade⟩ := bind_eq_ok hmade
      obtain ⟨outputs, -, hmade⟩ := bind_eq_ok hmade
      cases hmade
      cases hcarries with
      | transactionSign accepted hgiven _ hinputs _ _ =>
          exact .transactionSign accepted hgiven hinputs.length_eq.symm

section
variable {body : Bytes} {e : Endpoint} {c : Call} {reply : Reply} {v : Value} {d : Json}

theorem Makes.not_available (h : Makes body e c) (he : e ≠ .available) : c ≠ .available := by
  rintro rfl
  cases h
  exact he rfl

theorem Makes.answers (h : Makes body e c) (he : e ≠ .available)
    (hvalue : c.interpret reply = .ok v) : Answers body e reply (e.data v) := by
  cases h with
  | available => exact absurd rfl he
  | features =>
      cases reply with
      | features f =>
          cases hvalue
          exact .features (f.restores 0).take
      | _ => cases hvalue
  | generateAddresses =>
      cases reply with
      | addresses l =>
          cases hvalue
          exact .addresses l
      | _ => cases hvalue
  | signMessage =>
      cases reply with
      | signatures l =>
          obtain _ | ⟨s, _ | ⟨more, l⟩⟩ := l
          · cases hvalue
          · cases hvalue
            exact .signature s
          · cases hvalue
      | _ => cases hvalue
  | checkMessageSignature =>
      cases reply with
      | success message =>
          obtain _ | s := message
          · cases hvalue
          · cases hvalue
            exact .signer s
      | _ => cases hvalue
  | transactionSign accepted hgiven hlength =>
      cases reply with
      | signatures l =>
          simp only [Call.interpret, beq_iff_eq] at hvalue
          split at hvalue
          · rename_i hl
            cases hvalue
            exact .signatures accepted hgiven (hl.trans hlength)
          · cases hvalue
      | _ => cases hvalue
  | wipe =>
      cases reply with
      | success message =>
          cases hvalue
          exact .wiped message
      | _ => cases hvalue
  | cancel =>
      cases reply with
      | success message =>
          cases hvalue
          exact .cancelled message
      | _ => cases hvalue

/-- A reply that the endpoint waits for is no failure, and its call makes something of it. -/
theorem Makes.interpret_answers (h : Makes body e c) (ha : Answers body e reply d) :
    (∃ v, c.interpret reply = .ok v) ∧ ∀ code message, reply ≠ .failure code message := by
  cases ha with
  | @signatures _ _ l accepted hgiven hlength =>
      cases h with
      | transactionSign accepted' hgiven' hlength' =>
          -- Both lengths are those of the list in the one value that the body is read as.
          obtain rfl := Except.ok.inj (accepted.read.symm.trans accepted'.read)
          obtain rfl := Option.some.inj (hgiven.symm.trans hgiven')
          exact ⟨⟨.texts l, by simp [Call.interpret, hlength, hlength']⟩, by simp⟩
  | _ =>
      cases h
      exact ⟨⟨_, rfl⟩, by simp⟩

end

/-! ## From the outcome to the answer -/

theorem toJson_fits (v : Value) (depth : Nat) : Fits (depth + 2) v.toJson := by
  cases v with
  | features f => exact (f.restores depth).fits
  | texts l => exact (Reply.texts_restores l depth).fits
  | _ => trivial

theorem data_fits (e : Endpoint) (v : Value) (depth : Nat) : Fits (depth + 3) (e.data v) := by
  have hmember : ∀ {name : String} {w : Json}, Fits (depth + 2) w →
      Fits (depth + 3) (.object [(name, w)]) := by
    intro name w hw
    exact ⟨by simp, by simpa using hw⟩
  cases e with
  | cancel | wipe => exact hmember trivial
  | features | csrf | version => exact toJson_fits v (depth + 1)
  | _ => exact hmember (toJson_fits v depth)

theorem decode_successBody (e : Endpoint) (v : Value) :
    decode anything (Text.utf8 (successBody (e.data v)).compact) =
      .ok (.object [("data", e.data v)]) :=
  decode_compact ⟨by simp, by simpa using data_fits e v 124⟩

def ofResult (e : Endpoint) : Except Device.Error Value → Response
  | .ok v => .ofJson 200 (successBody (e.data v))
  | .error error => .ofFailure (.device error)

section
variable {site : Site} {link : Link σ} {s : State σ} {a : Arrival} {e : Endpoint} {c : Call}
  {outcome : Except Device.Error Reply}

theorem answerCall_heard (hasks : c ≠ .available ∨ link.asks = true)
    (h : Heard site link s c outcome) :
    (answerCall site link e c s).1 = ofResult e (c.conclude outcome) := by
  obtain ⟨answer, hanswer, htime, rfl⟩ := h
  have hsent : (c == .available && !link.asks) = false := by
    rcases hasks with hc | hon
    · simp [hc]
    · simp [hon]
  simp only [answerCall, Call.perform, hsent, Bool.false_eq_true, if_false, hanswer]
  simp only [Option.map_some, Option.filter_some, htime, decide_true, if_true]
  cases c.conclude answer.result <;> rfl

/-- Nobody is asked whether a device is there that never is. -/
theorem answerCall_unasked (hasks : link.asks = false) (htime : site.settings.requestTimeout ≠ 0) :
    (answerCall site link e .available s).1 = ofResult e (.ok (.truth false)) := by
  have hpositive : 0 < site.settings.requestTimeout := Nat.pos_of_ne_zero htime
  have hunasked : (Call.available == .available && !false) = true := rfl
  simp only [answerCall, Call.perform, hasks, hunasked, if_true]
  simp only [Option.filter_some, hpositive, decide_true, if_true]
  rfl

theorem response_of_admitted (h : Admitted site s a e (.call c)) :
    (turn site link s a).response =
      dress a.reading (some e) a.request (answerCall site link e c s).1 := by
  rw [turn_of_admitted h]
  rfl

theorem response_heard (h : Admitted site s a e (.call c)) (he : e ≠ .available)
    (hheard : Heard site link s c outcome) :
    (turn site link s a).response =
      dress a.reading (some e) a.request (ofResult e (c.conclude outcome)) := by
  have hc := (Endpoint.job_makes h.job).not_available he
  rw [response_of_admitted h, answerCall_heard (.inl hc) hheard]

/-- The status tells of a success only when there is a value. -/
theorem ofResult_status {result : Except Device.Error Value} :
    (ofResult e result).status = 200 ↔ ∃ v, result = .ok v := by
  cases result with
  | ok v => exact ⟨fun _ => ⟨v, rfl⟩, fun _ => rfl⟩
  | error error =>
      cases error <;> simp [ofResult, Response.ofFailure, Response.ofJson, Failure.status]

theorem truthful_turn (h : Admitted site s a e (.call c)) (he : e ≠ .available)
    (hheard : Heard site link s c outcome) : (turn site link s a).Truthful e outcome := by
  have hmakes := Endpoint.job_makes h.job
  have hc := hmakes.not_available he
  -- All that a client is told stands in the status and the body of this one answer.
  have hstatus : (turn site link s a).response.status =
      (ofResult e (c.conclude outcome)).status := by
    rw [response_heard h he hheard, dress_status]
  have hbody : (turn site link s a).response.body =
      if a.request.method = "HEAD" then "" else (ofResult e (c.conclude outcome)).body := by
    rw [response_heard h he hheard, dress_body]
  have htold : ∀ {v}, c.conclude outcome = .ok v →
      ∃ reply, outcome = .ok reply ∧ Answers a.request.body e reply (e.data v) := by
    intro v hv
    obtain ⟨reply, hreply, hinterpret⟩ := conclude_eq_ok hc hv
    exact ⟨reply, hreply, hmakes.answers he hinterpret⟩
  refine ⟨?success, ?data, ?bare, ?failure, ?unexpected, ?error, ?undecodable⟩
  case success =>
    rw [hstatus, ofResult_status]
    constructor
    · rintro ⟨v, hv⟩
      obtain ⟨reply, hreply, hanswers⟩ := htold hv
      exact ⟨reply, _, hreply, hanswers⟩
    · rintro ⟨reply, d, rfl, hanswers⟩
      obtain ⟨⟨v, hv⟩, hno⟩ := hmakes.interpret_answers hanswers
      exact ⟨v, (conclude_ok hc hno).trans hv⟩
  case data =>
    intro hsuccess (hmethod : a.request.method ≠ "HEAD")
    rw [hstatus, ofResult_status] at hsuccess
    obtain ⟨v, hv⟩ := hsuccess
    obtain ⟨reply, hreply, hanswers⟩ := htold hv
    refine ⟨reply, e.data v, hreply, hanswers, ?_⟩
    rw [hbody, if_neg hmethod, hv]
    exact decode_successBody e v
  case bare =>
    intro (hmethod : a.request.method = "HEAD")
    rw [hbody]
    exact if_pos hmethod
  case failure =>
    rintro code message rfl
    rw [hstatus, conclude_failure hc]
    cases code <;> rfl
  case unexpected =>
    rintro reply rfl hno hnot
    rw [hstatus, conclude_ok hc hno]
    cases hinterpret : c.interpret reply with
    | ok v => exact absurd (hmakes.answers he hinterpret) (hnot _)
    | error error =>
        obtain rfl := interpret_eq_error hinterpret
        rfl
  case error =>
    rintro error rfl
    rw [hstatus, conclude_error hc]
    cases error <;> rfl
  case undecodable =>
    intro bytes fault hfault houtcome
    rw [Reply.decode, hfault] at houtcome
    rw [hstatus, houtcome, conclude_error hc]
    rfl

theorem tellsAvailable_turn (h : Admitted site s a .available (.call c))
    (hheard : Heard site link s c outcome) :
    (turn site link s a).TellsAvailable
      (link.asks = true ∧ ∃ message, outcome = .ok (.success message)) := by
  obtain rfl : c = .available := by
    cases Endpoint.job_makes h.job
    rfl
  obtain ⟨b, hb, hiff⟩ : ∃ b, (answerCall site link .available .available s).1 =
      ofResult .available (.ok (.truth b)) ∧
      (b = true ↔ link.asks = true ∧ ∃ message, outcome = .ok (.success message)) := by
    -- A way to the device that is never there answers without an exchange, whatever was heard.
    cases hasks : link.asks with
    | false => exact ⟨false, answerCall_unasked hasks h.time, by simp⟩
    | true =>
        refine ⟨_, answerCall_heard (.inr hasks) hheard, ?_⟩
        cases outcome with
        | error error => simp
        | ok reply => cases reply <;> simp
  have hresponse := (response_of_admitted h).trans (congrArg _ hb)
  refine ⟨?status, ?data, ?bare⟩
  case status =>
    rw [hresponse, dress_status]
    rfl
  case data =>
    intro (hmethod : a.request.method ≠ "HEAD")
    refine ⟨b, hiff, ?_⟩
    rw [hresponse, dress_body, if_neg hmethod]
    exact decode_successBody .available (.truth b)
  case bare =>
    intro (hmethod : a.request.method = "HEAD")
    rw [hresponse, dress_body]
    exact if_pos hmethod

end

/-- In every run, whatever comes back from the device in time is told as it was. -/
theorem run_truthful (site : Site) (link : Link σ) (s : State σ) {arrivals : List Arrival}
    {earlier later : List (Turn σ)} {t : Turn σ} {e : Endpoint} {c : Call}
    {outcome : Except Device.Error Reply} (hrun : run site link s arrivals = earlier ++ t :: later)
    (hadmitted : Admitted site t.before t.toArrival e (.call c))
    (hheard : Heard site link t.before c outcome) :
    (e ≠ .available → t.Truthful e outcome) ∧
    (e = .available → t.TellsAvailable
      (link.asks = true ∧ ∃ message, outcome = .ok (.success message))) := by
  rw [run_turn hrun]
  refine ⟨fun he => truthful_turn hadmitted he hheard, ?_⟩
  rintro rfl
  exact tellsAvailable_turn hadmitted hheard

/-- One signature for one input is passed on. -/
theorem run_truthful_signed :
    let site := Site.make ⟨.v4 127 0 0 1, 9510⟩ { disableHeaderCheck := true, enableCsrf := false }
    let body := Text.utf8 ("\x7b\"transaction_inputs\":[\x7b\"hash\":\"a\",\"index\":7\x7d],"
      ++ "\"transaction_outputs\":[\x7b\"address\":\"b\",\"coins\":\"12\","
      ++ "\"hours\":\"+03\"\x7d]\x7d")
    let reply : Answer := { after := 59999, result := .ok (.signatures ["s"]) }
    let s : State Script := { link := ⟨[some reply], []⟩ }
    let a : Arrival := ⟨⟨0, "", ""⟩,
      ⟨"POST", "/api/v1/transaction_sign", [("Content-Type", Text.utf8 "application/json")], body⟩⟩
    let c : Call := .transactionSign [⟨"a", 7⟩] [⟨"b", 12, 3, none⟩]
    let t := turn site Script.link s a
    Admitted site s a .transactionSign (.call c) ∧
      Heard site Script.link s c (.ok (.signatures ["s"])) ∧
      t.Truthful .transactionSign (.ok (.signatures ["s"])) ∧ t.response.status = 200 := by
  intro site body reply s a c t
  have hadmitted : Admitted site s a .transactionSign (.call c) :=
    ⟨by decide, rfl, by decide, by decide, by decide +kernel⟩
  have hheard : Heard site Script.link s c (.ok (.signatures ["s"])) :=
    ⟨_, rfl, by decide +kernel, rfl⟩
  have hrun : run site Script.link s [a] = [] ++ t :: [] := rfl
  have hbefore : t.before = s := turn_before
  have harrival : t.toArrival = a := turn_arrival
  have hadmitted' : Admitted site t.before t.toArrival .transactionSign (.call c) := by
    rw [hbefore, harrival]
    exact hadmitted
  have hheard' : Heard site Script.link t.before c (.ok (.signatures ["s"])) := by
    rw [hbefore]
    exact hheard
  have htruthful := (run_truthful site Script.link s hrun hadmitted' hheard').1 (by decide)
  exact ⟨hadmitted, hheard, htruthful, by decide +kernel⟩

/-- A description of the device is asked for with `HEAD`: it comes, the status says so, and there is
no data that tells of it. -/
theorem head_without_data :
    let site := Site.make ⟨.v4 127 0 0 1, 9510⟩ { disableHeaderCheck := true }
    let f : Features := default
    let s : State Script := { link := ⟨[some { result := .ok (.features f) }], []⟩ }
    let a : Arrival := ⟨⟨0, "", ""⟩, ⟨"HEAD", "/api/v1/features", [], []⟩⟩
    let t := turn site Script.link s a
    Admitted site s a .features (.call .features) ∧
      Heard site Script.link s .features (.ok (.features f)) ∧ t.response.status = 200 ∧
      ∀ d, decode anything (Text.utf8 t.response.body) ≠ .ok (.object [("data", d)]) := by
  intro site f s a t
  have hadmitted : Admitted site s a .features (.call .features) :=
    ⟨by decide, rfl, by decide, by decide, rfl⟩
  have hheard : Heard site Script.link s .features (.ok (.features f)) := ⟨_, rfl, by decide, rfl⟩
  have hbody : t.response.body = "" := by decide +kernel
  refine ⟨hadmitted, hheard, by decide +kernel, fun d hd => ?_⟩
  rw [hbody] at hd
  cases hd

end WalletBridge.Http
