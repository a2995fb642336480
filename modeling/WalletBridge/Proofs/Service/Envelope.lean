import WalletBridge.Proofs.Request.Rules
import WalletBridge.Proofs.Service.Outcome

/-! # Every answer is an envelope

An answer is an object with the member `data`, or one with the member `error`
that holds the status and the text of what went wrong, or it is empty. What can
go wrong is told by `Fails`, from the request, the checks and the device's reply,
without the functions that answer, and the words for it by `Failure.Says`. The
text is read back from the body whatever characters it has.
-/

namespace WalletBridge.Http

open Device Json Request

/-! ## What can go wrong -/

/-- The body of a request cannot be used as a value of a type, and this is why. -/
inductive Unusable (α : Type) [Body α] (breaks : α → String → Problem → Prop) (r : HttpRequest) :
    Failure → Prop where
  | notJson (h : declaresJson r.headers = false) :
      Unusable α breaks r (.rejected 415 "Expected request with `Content-Type: application/json`")
  | tooLarge (hjson : declaresJson r.headers = true) (h : largestBody < r.body.length) :
      Unusable α breaks r
        (.rejected 413 "Failed to buffer the request body: length limit exceeded")
  | mismatched {fault : Fault} (hjson : declaresJson r.headers = true)
      (hsize : r.body.length ≤ largestBody)
      (h : Json.decode (Body.shape : Shape α).codec r.body = .error fault)
      (hcause : fault.cause.category = .mismatch) :
      Unusable α breaks r
        (.rejected 422 ("Failed to deserialize the JSON body into the target type: " ++
          fault.describeWithPath r.body))
  | malformed {fault : Fault} (hjson : declaresJson r.headers = true)
      (hsize : r.body.length ≤ largestBody)
      (h : Json.decode (Body.shape : Shape α).codec r.body = .error fault)
      (hcause : fault.cause.category ≠ .mismatch) :
      Unusable α breaks r
        (.rejected 400 ("Failed to parse the request body as JSON: " ++
          fault.describeWithPath r.body))
  | invalid {b : α} (hjson : declaresJson r.headers = true) (hsize : r.body.length ≤ largestBody)
      (hread : Json.decode (Body.shape : Shape α).codec r.body = .ok b)
      (h : Body.errors b ≠ []) (htells : Tells (Body.errors b) (breaks b)) :
      Unusable α breaks r (.validation (Body.errors b))

/-- The body of a request is not what an endpoint needs. -/
def Endpoint.Refuses (r : HttpRequest) (f : Failure) : Endpoint → Prop
  | .generateAddresses => Unusable GenerateAddresses GenerateAddresses.Breaks r f
  | .signMessage => Unusable Request.SignMessage SignMessage.Breaks r f
  | .checkMessageSignature =>
      Unusable Request.CheckMessageSignature CheckMessageSignature.Breaks r f
  | .transactionSign => Unusable Request.TransactionSign TransactionSign.Violates r f
  | _ => False

/-- What an endpoint has to say of the outcome of its exchange with the device. -/
inductive Complains (body : Bytes) (e : Endpoint) :
    Except Device.Error Reply → Device.Error → Prop where
  | lost (error : Device.Error) : Complains body e (.error error) error
  | cancelled (message : String) :
      Complains body e (.ok (.failure .actionCancelled message)) .cancelled
  | refused (message : String) :
      Complains body e (.ok (.failure .dataError message)) (.invalidArgument message)
  | failed (message : String) :
      Complains body e (.ok (.failure .other message)) (.failure message)
  | unexpected {reply : Reply} (hno : ∀ code message, reply ≠ .failure code message)
      (h : ∀ d, ¬ Answers body e reply d) :
      Complains body e (.ok reply)
        (.protocol ("unexpected response to " ++ e.name ++ ": " ++ reply.inspect))

/-- The request of an arrival fails in a state, and this is why. -/
inductive Fails (site : Site) (link : Link σ) (s : State σ) (a : Arrival) : Failure → Prop where
  | wrongHost {allowed : AllowedHosts} {reason : String} (hallowed : site.allowed = some allowed)
      (h : allowed.check a.request.headers = .error reason) :
      Fails site link s a (.forbidden reason)
  | noToken (hhosts : ∀ allowed ∈ site.allowed, allowed.check a.request.headers = .ok ())
      (hon : site.settings.enableCsrf = true)
      (hchanges : a.request.method ∉ ["GET", "HEAD", "OPTIONS"])
      (h : hasToken s.tokens a.reading.now a.request = false) :
      Fails site link s a (.forbidden "invalid CSRF token")
  | noBody {e : Endpoint} {f : Failure} (hpath : Endpoint.ofPath? a.request.path = some e)
      (hgate : gate site s.tokens a.reading.now a.request = .ok ())
      (hmethod : a.request.method ∈ e.methods) (h : e.Refuses a.request f) :
      Fails site link s a f
  | noCsrf (hadmitted : Admitted site s a .csrf .token) (h : site.settings.enableCsrf = false) :
      Fails site link s a (.notFound "csrf disabled")
  | noReply {e : Endpoint} {c : Call} {outcome : Except Device.Error Reply} {error : Device.Error}
      (he : e ≠ .available) (hadmitted : Admitted site s a e (.call c))
      (hheard : Heard site link s c outcome) (h : Complains a.request.body e outcome error) :
      Fails site link s a (.device error)

/-- The status and the words for what went wrong. -/
inductive Failure.Says : Failure → Nat → String → Prop where
  | rejected (status : Nat) (message : String) : Says (.rejected status message) status message
  | validation {errors : Errors} {text : String} (hsay : Errors.Say errors text) :
      Says (.validation errors) 422 text
  | notConnected (message : String) :
      Says (.device (.notConnected message)) 503 ("device not connected: " ++ message)
  | cancelled : Says (.device .cancelled) 409 "operation cancelled on device"
  | invalidArgument (message : String) :
      Says (.device (.invalidArgument message)) 400 ("invalid argument: " ++ message)
  | failure (message : String) :
      Says (.device (.failure message)) 500 ("device failure: " ++ message)
  | transport (error : Os.Error) :
      Says (.device (.transport error)) 500 ("transport error: " ++ error.describe)
  | protocol (message : String) :
      Says (.device (.protocol message)) 500 ("malformed device response: " ++ message)
  | forbidden (message : String) : Says (.forbidden message) 403 message
  | notFound (message : String) : Says (.notFound message) 404 message

/-- There is no time for the request, or none in which the device answers. -/
def Late (site : Site) (link : Link σ) (s : State σ) (a : Arrival) : Prop :=
  site.settings.requestTimeout = 0 ∨
    ∃ e c, Admitted site s a e (.call c) ∧ ∀ outcome, ¬ Heard site link s c outcome

/-- The body of the answer is an envelope, or it is empty for one of four reasons. -/
structure Turn.Enveloped (site : Site) (link : Link σ) (t : Turn σ) : Prop where
  success : t.response.body ≠ "" → t.response.status = 200 →
    ∃ d, decode anything (Text.utf8 t.response.body) = .ok (.object [("data", d)])
  failure : t.response.body ≠ "" → t.response.status ≠ 200 →
    ∃ f message, Fails site link t.before t.toArrival f ∧ f.Says t.response.status message ∧
      decode anything (Text.utf8 t.response.body) = .ok (.object [("error",
        .object [("code", .natural t.response.status), ("message", .text message)])])
  empty : t.response.body = "" → t.request.method = "HEAD" ∨
    (t.response.status = 404 ∧ Endpoint.ofPath? t.request.path = none) ∨
    (t.response.status = 405 ∧
      ∃ e, Endpoint.ofPath? t.request.path = some e ∧ t.request.method ∉ e.methods) ∨
    (t.response.status = 408 ∧ Late site link t.before t.toArrival)

/-! ## From the checks to the failure -/

section
variable {r : HttpRequest} {f : Failure}

theorem readBody_eq_ok {α : Type} [Body α] {b : α} (h : readBody α r = .ok b) :
    declaresJson r.headers = true ∧ r.body.length ≤ largestBody ∧
      Json.decode (Body.shape : Shape α).codec r.body = .ok b := by
  unfold readBody at h
  split at h
  · cases h
  rename_i hjson
  simp only [Bool.not_eq_true, Bool.not_eq_false'] at hjson
  split at h
  · cases h
  rename_i hsize
  split at h
  · rename_i c hread
    cases h
    exact ⟨hjson, by omega, hread⟩
  · cases h

variable {α : Type} [Body α] {breaks : α → String → Problem → Prop}

theorem readBody_eq_error (h : readBody α r = .error f) : Unusable α breaks r f := by
  unfold readBody at h
  split at h
  · rename_i hjson
    cases h
    exact .notJson (by simpa using hjson)
  rename_i hjson
  simp only [Bool.not_eq_true, Bool.not_eq_false'] at hjson
  split at h
  · rename_i hsize
    cases h
    exact .tooLarge hjson hsize
  rename_i hsize
  split at h
  · cases h
  · rename_i fault hfault
    cases h
    have hfits : r.body.length ≤ largestBody := by omega
    by_cases hcause : fault.cause.category = .mismatch
    · simp only [bodyFailure, hcause]
      exact .mismatched hjson hfits hfault hcause
    · simp only [bodyFailure]
      exact .malformed hjson hfits hfault hcause

theorem checkedBody_eq_error (htells : ∀ b : α, Tells (Body.errors b) (breaks b))
    (h : checkedBody α r = .error f) : Unusable α breaks r f := by
  unfold checkedBody at h
  cases hbody : readBody α r with
  | error failure =>
      rw [hbody] at h
      cases h
      exact readBody_eq_error hbody
  | ok b =>
      obtain ⟨hjson, hsize, hread⟩ := readBody_eq_ok hbody
      rw [hbody] at h
      cases herrors : Body.errors b with
      | nil =>
          have hvalid : validate b = .ok () := (Errors.toResult_ok_iff _).mpr herrors
          simp only [bind, Except.bind, hvalid] at h
          cases h
      | cons x errors =>
          have hinvalid : validate b = .error (x :: errors) := by rw [validate, herrors]; rfl
          simp only [bind, Except.bind, hinvalid] at h
          cases h
          rw [← herrors]
          exact .invalid hjson hsize hread (by simp [herrors]) (htells b)

theorem transactionSign_eq_error :
    Endpoint.transactionSign.bodyCall r = .error f ↔
      checkedBody Request.TransactionSign r = .error f := by
  refine bind_eq_error_iff ?_
  intro b hb
  obtain ⟨inputs, outputs, hinputs, houtputs⟩ := b.converts (checkedBody_eq_ok hb).valid
  refine ⟨.transactionSign inputs outputs, ?_⟩
  rw [hinputs, houtputs]
  rfl

theorem Endpoint.job_eq_error {e : Endpoint} (h : e.job r = .error f) : e.Refuses r f := by
  have hcall : e.bodyCall r = .error f := by
    cases hcall : e.bodyCall r with
    | error failure => cases e <;> simp_all [Endpoint.job, Except.map]
    | ok c => cases e <;> simp_all [Endpoint.job, Except.map]
  cases e with
  | generateAddresses =>
      exact checkedBody_eq_error GenerateAddresses.tells
        ((bind_eq_error_iff fun _ _ => ⟨_, rfl⟩).mp hcall)
  | signMessage =>
      exact checkedBody_eq_error SignMessage.tells
        ((bind_eq_error_iff fun _ _ => ⟨_, rfl⟩).mp hcall)
  | checkMessageSignature =>
      exact checkedBody_eq_error CheckMessageSignature.tells
        ((bind_eq_error_iff fun _ _ => ⟨_, rfl⟩).mp hcall)
  | transactionSign =>
      exact checkedBody_eq_error TransactionSign.tells (transactionSign_eq_error.mp hcall)
  | _ => cases hcall

end

section
variable {site : Site} {link : Link σ} {s : State σ} {a : Arrival} {e : Endpoint} {c : Call}
  {f : Failure} {outcome : Except Device.Error Reply} {error : Device.Error}

theorem fails_of_gate (h : gate site s.tokens a.reading.now a.request = .error f) :
    Fails site link s a f := by
  have hlast : (∀ allowed ∈ site.allowed, allowed.check a.request.headers = .ok ()) →
      (if site.settings.enableCsrf && !isSafe a.request.method &&
        !hasToken s.tokens a.reading.now a.request then
          (throw (.forbidden "invalid CSRF token") : Except Failure Unit)
        else pure ()) = .error f → Fails site link s a f := by
    intro hhosts hend
    split at hend
    · rename_i hbad
      simp only [Bool.and_eq_true, Bool.not_eq_true', ← Bool.not_eq_true, isSafe_iff] at hbad
      obtain ⟨⟨hon, hchanges⟩, hno⟩ := hbad
      cases hend
      exact .noToken hhosts hon hchanges (by simpa using hno)
    · cases hend
  cases hallowed : site.allowed with
  | none =>
      simp only [gate, hallowed] at h
      exact hlast (by simp [hallowed]) h
  | some allowed =>
      cases hcheck : allowed.check a.request.headers with
      | error reason =>
          simp only [gate, hallowed, hcheck] at h
          cases h
          exact .wrongHost hallowed hcheck
      | ok u =>
          simp only [gate, hallowed, hcheck] at h
          exact hlast (by simpa [hallowed] using hcheck) h

theorem Makes.name {body : Bytes} (h : Makes body e c) : c.name = e.name := by
  cases h <;> rfl

theorem complains_of_conclude {body : Bytes} (hmakes : Makes body e c) (he : e ≠ .available)
    (h : c.conclude outcome = .error error) : Complains body e outcome error := by
  have hc := hmakes.not_available he
  cases outcome with
  | error lost =>
      rw [conclude_error hc] at h
      cases h
      exact .lost error
  | ok reply =>
      by_cases hfailure : ∃ code message, reply = .failure code message
      · obtain ⟨code, message, rfl⟩ := hfailure
        rw [conclude_failure hc] at h
        cases code <;> cases h
        · exact .cancelled message
        · exact .refused message
        · exact .failed message
      · simp only [not_exists] at hfailure
        rw [conclude_ok hc hfailure] at h
        have herror := interpret_eq_error h
        rw [Call.unexpected, hmakes.name] at herror
        rw [herror]
        refine .unexpected hfailure ?_
        intro d hanswers
        obtain ⟨⟨v, hv⟩, -⟩ := hmakes.interpret_answers hanswers
        rw [hv] at h
        cases h

end

/-! ## From the failure to the answer -/

theorem Unusable.status {α : Type} [Body α] {breaks : α → String → Problem → Prop}
    {r : HttpRequest} {f : Failure} (h : Unusable α breaks r f) :
    400 ≤ f.status ∧ f.status < 600 := by
  cases h <;> simp [Failure.status]

theorem Fails.status {site : Site} {link : Link σ} {s : State σ} {a : Arrival} {f : Failure}
    (h : Fails site link s a f) : 400 ≤ f.status ∧ f.status < 600 := by
  cases h with
  | @noBody e f hpath hgate hmethod hrefuses =>
      cases e with
      | generateAddresses | signMessage | checkMessageSignature | transactionSign =>
          exact hrefuses.status
      | _ => exact hrefuses.elim
  | @noReply e c outcome error he hadmitted hheard hcomplains =>
      cases error <;> simp [Failure.status]
  | _ => simp [Failure.status]

theorem Failure.says_device (error : Device.Error) :
    (Failure.device error).Says (Failure.device error).status error.describe := by
  cases error with
  | notConnected message => exact .notConnected message
  | cancelled => exact .cancelled
  | invalidArgument message => exact .invalidArgument message
  | failure message => exact .failure message
  | transport error => exact .transport error
  | protocol message => exact .protocol message

theorem Unusable.says {α : Type} [Body α] {breaks : α → String → Problem → Prop}
    {r : HttpRequest} {f : Failure} (h : Unusable α breaks r f) : f.Says f.status f.describe := by
  cases h with
  | invalid hjson hsize hread h htells => exact .validation (Errors.say_describe h)
  | _ => exact .rejected _ _

theorem Fails.says {site : Site} {link : Link σ} {s : State σ} {a : Arrival} {f : Failure}
    (h : Fails site link s a f) : f.Says f.status f.describe := by
  cases h with
  | wrongHost | noToken => exact .forbidden _
  | noCsrf => exact .notFound _
  | @noBody e f hpath hgate hmethod hrefuses =>
      cases e with
      | generateAddresses | signMessage | checkMessageSignature | transactionSign =>
          exact hrefuses.says
      | _ => exact hrefuses.elim
  | @noReply e c outcome error he hadmitted hheard hcomplains => exact Failure.says_device error

/-- What an endpoint gives out, before it is dressed. -/
inductive Gives (site : Site) (link : Link σ) (s : State σ) (a : Arrival) : Response → Prop where
  | data {d : Json} (h : Fits 127 d) : Gives site link s a (.ofJson 200 (successBody d))
  | failure {f : Failure} (h : Fails site link s a f) : Gives site link s a (.ofFailure f)
  | noEndpoint (h : Endpoint.ofPath? a.request.path = none) : Gives site link s a { status := 404 }
  | noMethod {e : Endpoint} (hpath : Endpoint.ofPath? a.request.path = some e)
      (h : a.request.method ∉ e.methods) : Gives site link s a { status := 405 }
  | late (h : Late site link s a) : Gives site link s a { status := 408 }

section
variable {site : Site} {link : Link σ} {s : State σ} {a : Arrival} {e : Endpoint} {c : Call}

theorem gives_ofResult {result : Except Device.Error Value}
    (h : ∀ error, result = .error error → Fails site link s a (.device error)) :
    Gives site link s a (ofResult e result) := by
  cases result with
  | ok v => exact .data (data_fits e v 124)
  | error error => exact .failure (h error rfl)

/-- A device that is asked and does not answer in time leaves the answer empty. -/
theorem answerCall_unheard (hasks : c ≠ .available ∨ link.asks = true)
    (h : ∀ outcome, ¬ Heard site link s c outcome) :
    (answerCall site link e c s).1 = { status := 408 } := by
  have hsent : (c == .available && !link.asks) = false := by
    rcases hasks with hc | hon
    · simp [hc]
    · simp [hon]
  simp only [answerCall, Call.perform, hsent, Bool.false_eq_true, if_false]
  cases hanswer : (link.exchange c.request s.link).1 with
  | none => rfl
  | some answer =>
      have hlate : ¬ answer.after < site.settings.requestTimeout := fun htime =>
        h answer.result ⟨answer, hanswer, htime, rfl⟩
      simp only [Option.map_some, Option.filter_some, hlate, decide_false, Bool.false_eq_true,
        if_false]

theorem gives_call (h : Admitted site s a e (.call c)) :
    Gives site link s a (answerCall site link e c s).1 := by
  have hmakes := Endpoint.job_makes h.job
  by_cases hasks : c ≠ .available ∨ link.asks = true
  · by_cases hheard : ∃ outcome, Heard site link s c outcome
    · obtain ⟨outcome, hheard⟩ := hheard
      rw [answerCall_heard hasks hheard]
      refine gives_ofResult ?_
      intro error herror
      by_cases he : e = .available
      · subst he
        cases hmakes
        cases herror
      · exact .noReply he h hheard (complains_of_conclude hmakes he herror)
    · simp only [not_exists] at hheard
      rw [answerCall_unheard hasks hheard]
      exact .late (.inr ⟨e, c, h, hheard⟩)
  · simp only [ne_eq, not_or, not_not, Bool.not_eq_true] at hasks
    obtain ⟨rfl, hoff⟩ := hasks
    rw [answerCall_unasked hoff h.time]
    exact gives_ofResult (by simp)

theorem gives_job {job : Job} (h : Admitted site s a e job) :
    Gives site link s a (answerJob site link a.reading e job s).1 := by
  cases job with
  | token =>
      obtain rfl := Endpoint.job_token h.job
      by_cases hon : site.settings.enableCsrf = true
      · simp only [answerJob, hon, if_true]
        exact .data ⟨by simp, by simp [Fits]⟩
      · simp only [answerJob, hon, Bool.false_eq_true, if_false]
        exact .failure (.noCsrf h (by simpa using hon))
  | build =>
      refine .data ⟨by simp, ?_⟩
      simp [Config.Build.fields, Config.Slot.write, Fits]
  | call c => exact gives_call h

theorem gives_answerAt (hpath : Endpoint.ofPath? a.request.path = some e) :
    Gives site link s a (answerAt site link a.reading e a.request s).1 := by
  cases hgate : gate site s.tokens a.reading.now a.request with
  | error f =>
      have hanswer : answerAt site link a.reading e a.request s = (.ofFailure f, s) := by
        simp [answerAt, hgate]
      rw [hanswer]
      exact .failure (fails_of_gate hgate)
  | ok u =>
      by_cases htime : site.settings.requestTimeout = 0
      · have hanswer : answerAt site link a.reading e a.request s = ({ status := 408 }, s) := by
          simp [answerAt, hgate, htime]
        rw [hanswer]
        exact .late (.inl htime)
      by_cases hmethod : a.request.method ∈ e.methods
      · cases hjob : e.job a.request with
        | error f =>
            have hanswer : answerAt site link a.reading e a.request s = (.ofFailure f, s) := by
              simp [answerAt, hgate, htime, hmethod, hjob]
            rw [hanswer]
            exact .failure (.noBody hpath hgate hmethod (Endpoint.job_eq_error hjob))
        | ok job =>
            have hadmitted : Admitted site s a e job := ⟨hpath, hgate, htime, hmethod, hjob⟩
            rw [answerAt_of_admitted hadmitted]
            exact gives_job hadmitted
      · have hanswer : answerAt site link a.reading e a.request s = ({ status := 405 }, s) := by
          simp [answerAt, hgate, htime, hmethod]
        rw [hanswer]
        exact .noMethod hpath hmethod

theorem turn_gives (site : Site) (link : Link σ) (s : State σ) (a : Arrival) :
    ∃ given, Gives site link s a given ∧ (turn site link s a).response.status = given.status ∧
      (turn site link s a).response.body =
        if a.request.method = "HEAD" then "" else given.body := by
  have hturn := congrArg Prod.fst (turn_answer site link s a)
  simp only at hturn
  rw [← hturn]
  cases hpath : Endpoint.ofPath? a.request.path with
  | none =>
      exact ⟨{ status := 404 }, .noEndpoint hpath, by simp [answer, hpath], by simp [answer, hpath]⟩
  | some e =>
      exact ⟨_, gives_answerAt hpath, by simp [answer, hpath], by simp [answer, hpath]⟩

/-! ## From the answer to the envelope -/

theorem ofJson_body_ne (status : Nat) (members : List (String × Json)) :
    (Response.ofJson status (.object members)).body ≠ "" := by
  intro h
  have hchars := congrArg String.toList h
  simp [Response.ofJson, Json.compact, Json.compactChars] at hchars

theorem decode_failureBody {f : Failure} (h : f.status < 600) :
    decode anything (Text.utf8 f.body.compact) = .ok (.object [("error",
      .object [("code", .natural f.status), ("message", .text f.describe)])]) := by
  refine decode_compact ⟨by simp, ?_⟩
  simp only [List.mem_singleton, forall_eq]
  refine ⟨by simp, ?_⟩
  simp only [List.mem_cons, List.not_mem_nil, or_false, forall_eq_or_imp, forall_eq]
  refine ⟨?_, trivial⟩
  show -2 ^ 63 ≤ (f.status : Int) ∧ (f.status : Int) ≤ 2 ^ 64 - 1
  omega

theorem enveloped_turn (site : Site) (link : Link σ) (s : State σ) (a : Arrival) :
    (turn site link s a).Enveloped site link := by
  obtain ⟨given, hgiven, hstatus, hbody⟩ := turn_gives site link s a
  by_cases hhead : a.request.method = "HEAD"
  · rw [if_pos hhead] at hbody
    exact ⟨fun h => absurd hbody h, fun h => absurd hbody h, fun _ => .inl hhead⟩
  rw [if_neg hhead] at hbody
  cases hgiven with
  | @data d hfits =>
      have hsome : (turn site link s a).response.body ≠ "" := by
        rw [hbody]
        exact ofJson_body_ne 200 _
      refine ⟨fun _ _ => ⟨d, ?_⟩, fun _ hother => absurd hstatus hother, fun h => absurd h hsome⟩
      rw [hbody]
      exact decode_compact ⟨by simp, by simpa using hfits⟩
  | @failure f hfails =>
      have hrange := hfails.status
      have hcode : (turn site link s a).response.status = f.status := hstatus
      have hsome : (turn site link s a).response.body ≠ "" := by
        rw [hbody]
        exact ofJson_body_ne f.status _
      refine ⟨fun _ h200 => ?_, fun _ _ => ⟨f, f.describe, hfails, ?_, ?_⟩,
        fun h => absurd h hsome⟩
      · omega
      · rw [hcode]
        exact hfails.says
      · rw [hbody, hcode]
        exact decode_failureBody hrange.2
  | noEndpoint hpath =>
      exact ⟨fun h => absurd hbody h, fun h => absurd hbody h,
        fun _ => .inr (.inl ⟨hstatus, hpath⟩)⟩
  | noMethod hpath hmethod =>
      exact ⟨fun h => absurd hbody h, fun h => absurd hbody h,
        fun _ => .inr (.inr (.inl ⟨hstatus, _, hpath, hmethod⟩))⟩
  | late hlate =>
      exact ⟨fun h => absurd hbody h, fun h => absurd hbody h,
        fun _ => .inr (.inr (.inr ⟨hstatus, hlate⟩))⟩

end

/-- In every run, every answer is an envelope, or empty for one of four reasons. -/
theorem run_enveloped (site : Site) (link : Link σ) (s : State σ) {arrivals : List Arrival}
    {earlier later : List (Turn σ)} {t : Turn σ}
    (hrun : run site link s arrivals = earlier ++ t :: later) : t.Enveloped site link := by
  rw [run_turn hrun]
  exact enveloped_turn site link t.before t.toArrival

/-- The device complains in a text that has to be escaped, and a body lacks both of its fields. -/
theorem run_enveloped_escaped :
    let site := Site.make ⟨.v4 127 0 0 1, 9510⟩ { disableHeaderCheck := true, enableCsrf := false }
    let reply : Reply := .failure .other "\"\\\n"
    let s : State Script := { link := ⟨[some { result := .ok reply }], []⟩ }
    let features : Arrival := ⟨⟨0, "", ""⟩, ⟨"GET", "/api/v1/features", [], []⟩⟩
    let sign : Arrival := ⟨⟨1, "", ""⟩, ⟨"POST", "/api/v1/sign_message",
      [("Content-Type", Text.utf8 "application/json")], Text.utf8 "\x7b\x7d"⟩⟩
    let t := turn site Script.link s features
    let u := turn site Script.link t.after sign
    run site Script.link s [features, sign] = [t, u] ∧ t.Enveloped site Script.link ∧
      u.Enveloped site Script.link ∧ t.response.status = 500 ∧ t.response.body =
        "\x7b\"error\":\x7b\"code\":500,\"message\":\"device failure: \\\"\\\\\\n\"\x7d\x7d" ∧
      u.response.status = 422 ∧ u.response.body =
        "\x7b\"error\":\x7b\"code\":422,\"message\":\"validation failure list:\\n" ++
          "address_index in body is required\\nmessage in body is required\"\x7d\x7d" := by
  intro site reply s features sign t u
  have hfirst : run site Script.link s [features, sign] = [] ++ t :: [u] := rfl
  have hsecond : run site Script.link s [features, sign] = [t] ++ u :: [] := rfl
  exact ⟨rfl, run_enveloped site Script.link s hfirst, run_enveloped site Script.link s hsecond,
    by decide +kernel, by decide +kernel, by decide +kernel, by decide +kernel⟩

end WalletBridge.Http
