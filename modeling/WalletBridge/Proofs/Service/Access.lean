import WalletBridge.Proofs.Service.Turn

/-! # Who reaches the device

In every run the device hears only of requests whose hosts are allowed, and of
those that change something only with a token which an earlier request of the
same run was given and which has not expired. The tokens in the state are
accounted for by the history: each was given out by a turn, and expires as long
after it as a token lives.
-/

namespace WalletBridge.Http

open Config Device Net

/-- The hosts of a request are not checked, or they pass the check. -/
def HostsPass (bound : SocketAddress) (settings : Api) (r : HttpRequest) : Prop :=
  settings.disableHeaderCheck = true ∨
    (AllowedHosts.make bound settings.hostWhitelist).check r.headers = .ok ()

/-- How long a token counts, in milliseconds. -/
def tokenLifetime : Nat := 30000

/-- The turn gave out this token. A `HEAD` request is given one too, but is not told. -/
structure Turn.GivesOut (bound : SocketAddress) (settings : Api) (t : Turn σ) (token : String) :
    Prop where
  path : t.request.path = "/api/v1/csrf"
  method : t.request.method ∈ ["GET", "HEAD"]
  hosts : HostsPass bound settings t.request
  issued : t.reading.token = token
  status : t.response.status = 200
  body : t.request.method = "GET" →
    t.response.body = (successBody (.object [("csrf_token", .text token)])).compact

/-- The first token header is a token that an earlier turn gave out and that still counts. -/
def Turn.HoldsToken (bound : SocketAddress) (settings : Api) (earlier : List (Turn σ))
    (t : Turn σ) : Prop :=
  ∃ y ∈ earlier, ∃ token, y.GivesOut bound settings token ∧
    t.request.headers.text? "x-csrf-token" = some token ∧
    t.reading.now < y.reading.now + tokenLifetime

/-- The turn was answered with the reason, and nothing else came of it. -/
structure Turn.Refused (t : Turn σ) (reason : String) : Prop where
  status : t.response.status = 403
  body : t.response.body = if t.request.method = "HEAD" then "" else
    (Json.object [("error",
      .object [("code", .natural 403), ("message", .text reason)])]).compact
  idle : t.Idle

/-- What the checks owe the device at a turn, given the earlier ones. -/
structure Guarded (bound : SocketAddress) (settings : Api) (earlier : List (Turn σ))
    (t : Turn σ) : Prop where
  hosts : ∀ m ∈ t.sent, HostsPass bound settings t.request
  token : ∀ m ∈ t.sent, settings.enableCsrf = false ∨
    (t.request.method ∈ ["GET", "HEAD"] ∧ m ∈ [.ping, .getFeatures]) ∨
    t.HoldsToken bound settings earlier
  safe : t.request.method ∈ ["GET", "HEAD", "OPTIONS"] →
    ∀ m ∈ t.sent, m ∈ [.ping, .getFeatures]
  wrongHost : ∀ (e : Endpoint) (reason : String), t.request.path = e.path →
    settings.disableHeaderCheck = false →
    (AllowedHosts.make bound settings.hostWhitelist).check t.request.headers = .error reason →
    t.Refused reason
  noToken : ∀ e : Endpoint, t.request.path = e.path → HostsPass bound settings t.request →
    settings.enableCsrf = true → t.request.method ∉ ["GET", "HEAD", "OPTIONS"] →
    ¬ t.HoldsToken bound settings earlier → t.Refused "invalid CSRF token"

/-! ## Paths and methods -/

@[simp] theorem Endpoint.ofPath?_path (e : Endpoint) : Endpoint.ofPath? e.path = some e := by
  cases e <;> decide

theorem Endpoint.path_of_ofPath? {path : String} {e : Endpoint}
    (h : Endpoint.ofPath? path = some e) : path = e.path := by
  have hfound := List.find?_some h
  exact (beq_iff_eq.mp hfound).symm

theorem isSafe_iff (method : String) :
    isSafe method = true ↔ method ∈ ["GET", "HEAD", "OPTIONS"] := by
  simp [isSafe, or_assoc]

/-- A method that changes nothing leads to no call but the two that ask about the device. -/
theorem Endpoint.safe_call {e : Endpoint} {r : HttpRequest} {c : Call}
    (hm : r.method ∈ e.methods) (hsafe : r.method ∈ ["GET", "HEAD", "OPTIONS"])
    (hj : e.job r = .ok (.call c)) :
    r.method ∈ ["GET", "HEAD"] ∧ c.request ∈ [.ping, .getFeatures] := by
  have hget : r.method ∈ ["GET", "HEAD"] ∧ (e = .csrf ∨ e = .version ∨ e = .available ∨
      e = .features) := by
    cases e <;> simp_all [Endpoint.methods]
  refine ⟨hget.1, ?_⟩
  rcases hget.2 with rfl | rfl | rfl | rfl
  · cases hj
  · cases hj
  · cases hj
    simp [Call.request]
  · cases hj
    simp [Call.request]

/-! ## The two checks before an endpoint -/

section
variable {bound : SocketAddress} {settings : Api} {tokens : TokenStore} {now : Nat}
  {r : HttpRequest}

theorem gate_of_wrongHost {reason : String} (hon : settings.disableHeaderCheck = false)
    (h : (AllowedHosts.make bound settings.hostWhitelist).check r.headers = .error reason) :
    gate (Site.make bound settings) tokens now r = .error (.forbidden reason) := by
  simp [gate, Site.make, hon, h]
  rfl

/-- Once the hosts pass, only the token is left to check. -/
theorem gate_of_hostsPass (h : HostsPass bound settings r) :
    gate (Site.make bound settings) tokens now r =
      if settings.enableCsrf && !isSafe r.method && !hasToken tokens now r then
        .error (.forbidden "invalid CSRF token")
      else .ok () := by
  have hhosts : (Site.make bound settings).allowed = none ∨
      (Site.make bound settings).allowed =
        some (AllowedHosts.make bound settings.hostWhitelist) ∧
      (AllowedHosts.make bound settings.hostWhitelist).check r.headers = .ok () := by
    rcases h with hoff | hok
    · exact .inl (by simp [Site.make, hoff])
    · cases hd : settings.disableHeaderCheck with
      | true => exact .inl (by simp [Site.make, hd])
      | false => exact .inr ⟨by simp [Site.make, hd], hok⟩
  rcases hhosts with hnone | ⟨hsome, hok⟩
  · simp only [gate, hnone]
    rfl
  · simp only [gate, hsome, hok]
    rfl

theorem hostsPass_of_gate (h : gate (Site.make bound settings) tokens now r = .ok ()) :
    HostsPass bound settings r := by
  cases hd : settings.disableHeaderCheck with
  | true => exact .inl hd
  | false =>
      cases hc : (AllowedHosts.make bound settings.hostWhitelist).check r.headers with
      | ok u => exact .inr hc
      | error reason => simp [gate_of_wrongHost hd hc] at h

/-- A request that passes both checks and needs a token has one that the state holds. -/
theorem hasToken_of_gate (h : gate (Site.make bound settings) tokens now r = .ok ())
    (hon : settings.enableCsrf = true) (hm : r.method ∉ ["GET", "HEAD", "OPTIONS"]) :
    hasToken tokens now r = true := by
  rw [gate_of_hostsPass (hostsPass_of_gate h)] at h
  have hunsafe : isSafe r.method = false := by
    rw [← isSafe_iff] at hm
    simpa using hm
  simpa [hon, hunsafe] using h

theorem gate_of_noToken (h : HostsPass bound settings r) (hon : settings.enableCsrf = true)
    (hm : r.method ∉ ["GET", "HEAD", "OPTIONS"]) (hno : hasToken tokens now r = false) :
    gate (Site.make bound settings) tokens now r = .error (.forbidden "invalid CSRF token") := by
  have hunsafe : isSafe r.method = false := by
    rw [← isSafe_iff] at hm
    simpa using hm
  rw [gate_of_hostsPass h]
  simp [hon, hunsafe, hno]

end

/-! ## Answers -/

@[simp] theorem Response.withHeader_status (r : Response) (name value : String) :
    (r.withHeader name value).status = r.status := by
  unfold Response.withHeader
  split <;> rfl

@[simp] theorem Response.withHeader_body (r : Response) (name value : String) :
    (r.withHeader name value).body = r.body := by
  unfold Response.withHeader
  split <;> rfl

@[simp] theorem dress_status (reading : Reading) (e : Option Endpoint) (r : HttpRequest)
    (response : Response) : (dress reading e r response).status = response.status := by
  unfold dress
  cases e <;> dsimp only <;> split <;> (try split) <;> simp

@[simp] theorem dress_body (reading : Reading) (e : Option Endpoint) (r : HttpRequest)
    (response : Response) :
    (dress reading e r response).body = if r.method = "HEAD" then "" else response.body := by
  unfold dress
  by_cases hhead : r.method = "HEAD"
  · simp [hhead]
  · cases e with
    | none => simp [hhead]
    | some e =>
        simp only [hhead, beq_iff_eq, if_false]
        split <;> simp

section
variable {bound : SocketAddress} {settings : Api} {link : Link σ} {s : State σ} {a : Arrival}

theorem turn_refused {e : Endpoint} {reason : String} (hp : a.request.path = e.path)
    (hg : gate (Site.make bound settings) s.tokens a.reading.now a.request =
      .error (.forbidden reason)) :
    (turn (Site.make bound settings) link s a).Refused reason := by
  have hpath : Endpoint.ofPath? a.request.path = some e := by simp [hp]
  have hanswer : answerAt (Site.make bound settings) link.recorded a.reading e a.request
      (s.keep []) = (.ofFailure (.forbidden reason), s.keep []) := by
    simp [answerAt, hg]
  rw [turn_of_answered hpath hanswer]
  refine ⟨?_, ?_, rfl, rfl, rfl⟩
  · simp [Response.ofFailure, Response.ofJson, Failure.status]
  · simp [Response.ofFailure, Response.ofJson, Failure.body, Failure.status, Failure.describe]

theorem answerCall_tokens (site : Site) (e : Endpoint) (c : Call) :
    (answerCall site link e c s).2.tokens = s.tokens := by
  unfold answerCall
  dsimp only
  split <;> rfl

theorem Endpoint.job_token {e : Endpoint} {r : HttpRequest} (h : e.job r = .ok .token) :
    e = .csrf := by
  cases e with
  | csrf => rfl
  | version => cases h
  | _ =>
      simp only [Endpoint.job, Except.map] at h
      split at h <;> cases h

theorem turn_tokens (bound : SocketAddress) (settings : Api) (link : Link σ) (s : State σ)
    (a : Arrival) :
    let t := turn (Site.make bound settings) link s a
    t.after.tokens = s.tokens ∨
      t.after.tokens = s.tokens.issue a.reading.now a.reading.token ∧
        t.GivesOut bound settings a.reading.token := by
  intro t
  by_cases h : ∃ e job, Admitted (Site.make bound settings) s a e job
  · obtain ⟨e, job, h⟩ := h
    have ht : t = _ := turn_of_admitted h
    cases job with
    | call c => exact .inl (by simp [ht, State.counted, answerJob, answerCall_tokens])
    | build => exact .inl (by simp [ht, State.counted, answerJob])
    | token =>
        cases hon : settings.enableCsrf with
        | false => exact .inl (by simp [ht, State.counted, answerJob, Site.make, hon])
        | true =>
            have he := Endpoint.job_token h.job
            have hpath := Endpoint.path_of_ofPath? h.path
            subst he
            have hm : a.request.method ∈ ["GET", "HEAD"] := h.method
            refine .inr ⟨by simp [ht, State.counted, answerJob, Site.make, hon], ?_⟩
            rw [ht]
            refine ⟨hpath, hm, hostsPass_of_gate h.gate, rfl, ?_, ?_⟩
            · simp [answerJob, Site.make, hon, Response.ofJson]
            · intro hget
              have hget' : a.request.method = "GET" := hget
              simp [answerJob, Site.make, hon, Response.ofJson, hget']
  · have hidle : t.Idle := turn_idle (fun e job hj => h ⟨e, job, hj⟩)
    exact .inl hidle.tokens

/-! ## Tokens are accounted for -/

/-- Every token of the state was given out by a turn of the history. -/
structure Accounted (bound : SocketAddress) (settings : Api) (history : List (Turn σ))
    (s : State σ) : Prop where
  lifetime : s.tokens.lifetime = tokenLifetime
  given : ∀ k ∈ s.tokens.tokens, ∃ y ∈ history, y.GivesOut bound settings k.text ∧
    k.expires = y.reading.now + tokenLifetime

theorem accounted_start (l : σ) :
    Accounted bound settings ([] : List (Turn σ)) { link := l } :=
  ⟨rfl, by simp⟩

theorem accounted_turn {history : List (Turn σ)} (h : Accounted bound settings history s) :
    Accounted bound settings (history ++ [turn (Site.make bound settings) link s a])
      (turn (Site.make bound settings) link s a).after := by
  have hold : ∀ k ∈ s.tokens.tokens,
      ∃ y ∈ history ++ [turn (Site.make bound settings) link s a],
        y.GivesOut bound settings k.text ∧ k.expires = y.reading.now + tokenLifetime := by
    intro k hk
    obtain ⟨y, hy, hgiven⟩ := h.given k hk
    exact ⟨y, List.mem_append_left _ hy, hgiven⟩
  rcases turn_tokens bound settings link s a with hsame | ⟨hissue, hgives⟩
  · exact ⟨by rw [hsame, h.lifetime], by rw [hsame]; exact hold⟩
  · refine ⟨by rw [hissue]; exact h.lifetime, ?_⟩
    intro k hk
    simp only [hissue, TokenStore.issue, List.mem_cons, List.mem_filter] at hk
    rcases hk with rfl | ⟨hk, -⟩
    · exact ⟨_, List.mem_append_right _ (List.mem_singleton.mpr rfl), hgives,
        congrArg (a.reading.now + ·) h.lifetime⟩
    · exact hold k hk

/-- A token that the state holds is one that the history gave out and that still counts. -/
theorem holdsToken_of_hasToken {history : List (Turn σ)}
    (h : Accounted bound settings history s)
    (hhas : hasToken s.tokens a.reading.now a.request = true) :
    (turn (Site.make bound settings) link s a).HoldsToken bound settings history := by
  unfold hasToken at hhas
  split at hhas
  · rename_i token htoken
    simp only [TokenStore.verify, List.any_eq_true, Bool.and_eq_true, beq_iff_eq,
      decide_eq_true_eq] at hhas
    obtain ⟨k, hk, rfl, hlive⟩ := hhas
    obtain ⟨y, hy, hgives, hexpires⟩ := h.given k hk
    exact ⟨y, hy, k.text, hgives, htoken, by rw [← hexpires]; exact hlive⟩
  · cases hhas

theorem guarded_turn {history : List (Turn σ)} (h : Accounted bound settings history s) :
    Guarded bound settings history (turn (Site.make bound settings) link s a) where
  hosts m hm := by
    obtain ⟨e, c, hadm, -⟩ := mem_turn_sent hm
    exact hostsPass_of_gate hadm.gate
  token m hm := by
    obtain ⟨e, c, hadm, rfl⟩ := mem_turn_sent hm
    cases hon : settings.enableCsrf with
    | false => exact .inl rfl
    | true =>
        by_cases hsafe : a.request.method ∈ ["GET", "HEAD", "OPTIONS"]
        · exact .inr (.inl (Endpoint.safe_call hadm.method hsafe hadm.job))
        · exact .inr (.inr (holdsToken_of_hasToken h (hasToken_of_gate hadm.gate hon hsafe)))
  safe hsafe m hm := by
    obtain ⟨e, c, hadm, rfl⟩ := mem_turn_sent hm
    exact (Endpoint.safe_call hadm.method hsafe hadm.job).2
  wrongHost e reason hp hon hc := turn_refused hp (gate_of_wrongHost hon hc)
  noToken e hp hhosts hon hm hno := by
    refine turn_refused hp (gate_of_noToken hhosts hon hm ?_)
    cases hhas : hasToken s.tokens a.reading.now a.request with
    | false => rfl
    | true => exact (hno (holdsToken_of_hasToken h hhas)).elim

end

/-! ## Whole runs -/

/-- In every run, the device hears only of requests that pass the checks, and a request that a
check turns away leaves nothing behind. -/
theorem run_guarded (bound : SocketAddress) (settings : Api) (link : Link σ) (l : σ)
    {arrivals : List Arrival} {earlier later : List (Turn σ)} {t : Turn σ}
    (hrun : run (Site.make bound settings) link { link := l } arrivals = earlier ++ t :: later) :
    Guarded bound settings earlier t := by
  obtain ⟨ht, haccounted⟩ := run_induction (P := Accounted bound settings)
    (fun _ _ _ h => accounted_turn h) (accounted_start l) hrun
  rw [ht]
  exact guarded_turn haccounted

/-- A token that was given out less than half a minute ago lets a request reach the device. -/
theorem run_guarded_wipe :
    let bound : SocketAddress := ⟨.v4 127 0 0 1, 9510⟩
    let host : String × Bytes := ("Host", Text.utf8 "localhost:9510")
    let token : String × Bytes := ("X-CSRF-Token", Text.utf8 "a")
    let site := Site.make bound {}
    let first := turn site Script.link { link := ⟨[some { result := .ok (.success none) }], []⟩ }
      ⟨⟨0, "a", ""⟩, ⟨"GET", "/api/v1/csrf", [host], []⟩⟩
    let second := turn site Script.link first.after
      ⟨⟨29999, "b", ""⟩, ⟨"DELETE", "/api/v1/wipe", [host, token], []⟩⟩
    second.sent = [.wipe] ∧ Guarded bound {} [first] second := by
  intro bound host token site first second
  refine ⟨by decide +kernel, ?_⟩
  have hrun : run site Script.link first.before [first.toArrival, second.toArrival] =
      [first] ++ second :: [] := rfl
  exact run_guarded bound {} Script.link _ hrun

end WalletBridge.Http
