import Mathlib.Data.List.Forall2
import WalletBridge.Proofs.Service.Access

/-! # Requests that leave no trace

A request that sent nothing and gave out no token can be taken out of a run, and
nobody notices. The run without it is another run, for which other random texts
were drawn: `Arrival.Renamed` says how its requests and texts correspond to those
of the first. Two states correspond when one token stands for another and the
device is in the same state; the counters do not matter. Corresponding requests
keep that, are answered alike and send the same, and a request that touches
nothing leaves the state as it was.
-/

namespace WalletBridge.Http

open Config Device Json Net Request

def tokenHeader : String := "x-csrf-token"

/-- The same request at the same time in another run. What was drawn for it may be another text;
`rename` tells which token of that run stands for one of this. -/
structure Arrival.Renamed (rename : String → String) (a b : Arrival) : Prop where
  now : b.reading.now = a.reading.now
  issued : b.reading.token = rename a.reading.token
  method : b.request.method = a.request.method
  path : b.request.path = a.request.path
  body : b.request.body = a.request.body
  headers : ∀ name, name ≠ tokenHeader →
    b.request.headers.first? name = a.request.headers.first? name
  offered : b.request.headers.text? tokenHeader =
    (a.request.headers.text? tokenHeader).map rename

/-- The id of a request: the one that it names, or else the one that was drawn for it. -/
def Arrival.requestId (a : Arrival) : String :=
  match a.request.headers.first? requestIdHeader with
  | some value => Text.ofUtf8Lossy value
  | none => a.reading.requestId

def tokenBody (token : String) : String :=
  (successBody (.object [("csrf_token", .text token)])).compact

/-- Two turns that differ in the texts that were drawn for them and in nothing else. -/
structure Turn.Alike (t u : Turn σ) : Prop where
  status : u.response.status = t.response.status
  body : u.response.body = t.response.body ∨
    t.response.body = tokenBody t.reading.token ∧ u.response.body = tokenBody u.reading.token
  headers : ∃ headers, t.response.headers = headers ++ [(requestIdHeader, t.requestId)] ∧
    u.response.headers = headers ++ [(requestIdHeader, u.requestId)]
  sent : u.sent = t.sent

/-- With the same texts there is no difference left. -/
theorem Turn.Alike.response_eq {t u : Turn σ} (h : t.Alike u) (hsame : u.toArrival = t.toArrival) :
    u.response = t.response := by
  obtain ⟨headers, ht, hu⟩ := h.headers
  have hheaders : u.response.headers = t.response.headers := by rw [ht, hu, hsame]
  have hbody : u.response.body = t.response.body := by
    rcases h.body with hbody | ⟨htoken, hutoken⟩
    · exact hbody
    · rw [htoken, hutoken, hsame]
  have hstatus := h.status
  generalize u.response = x at *
  generalize t.response = y at *
  cases x
  cases y
  simp_all

theorem Turn.responses_eq {ts us : List (Turn σ)} (h : List.Forall₂ Turn.Alike ts us)
    (hsame : us.map (·.toArrival) = ts.map (·.toArrival)) :
    us.map (·.response) = ts.map (·.response) := by
  induction h with
  | nil => rfl
  | cons halike _ ih =>
      simp only [List.map_cons, List.cons.injEq] at hsame ⊢
      exact ⟨halike.response_eq hsame.1, ih hsame.2⟩

/-! ## Stores of renamed tokens -/

namespace TokenStore

def renamed (rename : String → String) (store : TokenStore) : TokenStore :=
  { store with tokens := store.tokens.map fun t => { t with text := rename t.text } }

variable {rename : String → String}

theorem verify_renamed (hinj : Function.Injective rename) (store : TokenStore) (now : Nat)
    (text : String) :
    (store.renamed rename).verify now (rename text) = store.verify now text := by
  have htext : ∀ t : Token, (rename t.text == rename text) = (t.text == text) := by
    intro t
    rw [Bool.eq_iff_iff, beq_iff_eq, beq_iff_eq]
    exact hinj.eq_iff
  simp only [verify, renamed, List.any_map, Function.comp_def, htext]

theorem issue_renamed (hinj : Function.Injective rename) (store : TokenStore) (now : Nat)
    (text : String) :
    (store.renamed rename).issue now (rename text) = (store.issue now text).renamed rename := by
  have htext : ∀ t : Token, (rename t.text != rename text) = (t.text != text) := by
    intro t
    rw [Bool.eq_iff_iff, bne_iff_ne, bne_iff_ne]
    exact hinj.ne_iff
  simp only [issue, renamed, List.filter_map, Function.comp_def, htext, List.map_cons]

end TokenStore

/-! ## Corresponding requests -/

section
variable {rename : String → String} {a b : Arrival}

theorem Arrival.Renamed.text (h : a.Renamed rename b) (name : String) (hname : name ≠ tokenHeader) :
    b.request.headers.text? name = a.request.headers.text? name := by
  simp only [Headers.text?, h.headers name hname]

theorem Arrival.Renamed.requestId (h : a.Renamed rename b) :
    b.request.headers.first? requestIdHeader = a.request.headers.first? requestIdHeader :=
  h.headers requestIdHeader (by decide)

theorem check_renamed (h : a.Renamed rename b) (allowed : AllowedHosts) :
    allowed.check b.request.headers = allowed.check a.request.headers := by
  have hhost := h.text "host" (by decide)
  have horigin := h.headers "origin" (by decide)
  have hreferer := h.headers "referer" (by decide)
  simp only [AllowedHosts.check, AllowedHosts.checkSource, hhost, horigin, hreferer]

theorem hasToken_renamed (hinj : Function.Injective rename) (h : a.Renamed rename b)
    (tokens : TokenStore) :
    hasToken (tokens.renamed rename) b.reading.now b.request =
      hasToken tokens a.reading.now a.request := by
  have hoffered := h.offered
  unfold tokenHeader at hoffered
  unfold hasToken
  rw [hoffered, h.now]
  cases a.request.headers.text? "x-csrf-token" with
  | none => rfl
  | some text => exact TokenStore.verify_renamed hinj tokens a.reading.now text

theorem gate_renamed (hinj : Function.Injective rename) (h : a.Renamed rename b) (site : Site)
    (tokens : TokenStore) :
    gate site (tokens.renamed rename) b.reading.now b.request =
      gate site tokens a.reading.now a.request := by
  simp only [gate, check_renamed h, hasToken_renamed hinj h, h.method]

theorem readBody_renamed (h : a.Renamed rename b) (α : Type) [Body α] :
    readBody α b.request = readBody α a.request := by
  have htype := h.text "content-type" (by decide)
  unfold readBody declaresJson
  rw [htype, h.body]

theorem job_renamed (h : a.Renamed rename b) (e : Endpoint) :
    e.job b.request = e.job a.request := by
  cases e <;> simp only [Endpoint.job, Endpoint.bodyCall, checkedBody, readBody_renamed h]

end

/-! ## Corresponding states -/

/-- One token stands for another, and the device is in the same state. -/
structure State.Renamed (rename : String → String) (s s' : State σ) : Prop where
  tokens : s'.tokens = s.tokens.renamed rename
  link : s'.link = s.link

/-- Two answers, before they are dressed, that differ only in the token that they tell. -/
structure Response.Alike (a b : Arrival) (r r' : Response) : Prop where
  status : r'.status = r.status
  headers : r'.headers = r.headers
  named : ∀ h ∈ r.headers, h.1 = "content-type"
  body : r'.body = r.body ∨ r.body = tokenBody a.reading.token ∧ r'.body = tokenBody b.reading.token

theorem Response.Alike.refl {r : Response} (a b : Arrival)
    (h : ∀ x ∈ r.headers, x.1 = "content-type") : Response.Alike a b r r :=
  ⟨rfl, rfl, h, .inl rfl⟩

theorem Response.ofFailure_alike (f : Failure) (a b : Arrival) :
    Response.Alike a b (.ofFailure f) (.ofFailure f) :=
  .refl a b (by simp [Response.ofFailure, Response.ofJson])

section
variable {rename : String → String} {s s' : State σ} {a b : Arrival} (site : Site) (link : Link σ)

theorem answerCall_renamed (hs : s.Renamed rename s') (e : Endpoint) (call : Call) :
    Response.Alike a b (answerCall site link e call s).1 (answerCall site link e call s').1 ∧
      (answerCall site link e call s).2.Renamed rename (answerCall site link e call s').2 := by
  unfold answerCall
  dsimp only
  rw [hs.link]
  split
  · exact ⟨.refl a b (by simp), hs.tokens, rfl⟩
  · refine ⟨?_, hs.tokens, rfl⟩
    split
    · exact .refl a b (by simp [Response.ofJson])
    · exact Response.ofFailure_alike _ a b

theorem answerJob_renamed (hinj : Function.Injective rename) (hs : s.Renamed rename s')
    (ha : a.Renamed rename b) (e : Endpoint) (job : Job) :
    Response.Alike a b (answerJob site link a.reading e job s).1
        (answerJob site link b.reading e job s').1 ∧
      (answerJob site link a.reading e job s).2.Renamed rename
        (answerJob site link b.reading e job s').2 := by
  cases job with
  | token =>
      simp only [answerJob]
      split
      · refine ⟨⟨rfl, rfl, by simp [Response.ofJson], .inr ⟨rfl, rfl⟩⟩, ?_, hs.link⟩
        show s'.tokens.issue b.reading.now b.reading.token = _
        rw [hs.tokens, ha.now, ha.issued]
        exact TokenStore.issue_renamed hinj s.tokens a.reading.now a.reading.token
      · exact ⟨Response.ofFailure_alike _ a b, hs⟩
  | build => exact ⟨.refl a b (by simp [answerJob, Response.ofJson]), hs⟩
  | call call => exact answerCall_renamed site link hs e call

theorem answerAt_renamed (hinj : Function.Injective rename) (hs : s.Renamed rename s')
    (ha : a.Renamed rename b) (e : Endpoint) :
    Response.Alike a b (answerAt site link a.reading e a.request s).1
        (answerAt site link b.reading e b.request s').1 ∧
      (answerAt site link a.reading e a.request s).2.Renamed rename
        (answerAt site link b.reading e b.request s').2 := by
  have hgate : gate site s'.tokens b.reading.now b.request =
      gate site s.tokens a.reading.now a.request := by
    rw [hs.tokens]
    exact gate_renamed hinj ha site s.tokens
  simp only [answerAt, hgate, ha.method, job_renamed ha e]
  split
  · exact ⟨Response.ofFailure_alike _ a b, hs⟩
  · split
    · exact ⟨.refl a b (by simp), hs⟩
    · split
      · exact ⟨.refl a b (by simp), hs⟩
      · split
        · exact ⟨Response.ofFailure_alike _ a b, hs⟩
        · exact answerJob_renamed site link hinj hs ha e _

/-! ## Turns -/

theorem Response.withHeader_headers {r : Response} {name : String} (value : String)
    (h : ∀ x ∈ r.headers, x.1 ≠ name) :
    (r.withHeader name value).headers = r.headers ++ [(name, value)] := by
  have hnone : (r.headers.any (·.1 == name)) = false := by simpa using h
  simp [Response.withHeader, hnone]

def allowHeader (endpoint : Option Endpoint) (method : String) : List (String × String) :=
  match endpoint with
  | some e =>
      if e.methods.contains method then [] else [("allow", String.intercalate "," e.methods)]
  | none => []

/-- An answer is dressed with the methods of its endpoint, if they matter, and its id. -/
theorem dress_headers {r : Response} (h : ∀ x ∈ r.headers, x.1 = "content-type") (a : Arrival)
    (endpoint : Option Endpoint) :
    (dress a.reading endpoint a.request r).headers =
      r.headers ++ allowHeader endpoint a.request.method ++ [(requestIdHeader, a.requestId)] := by
  have hid : ∀ x ∈ r.headers, x.1 ≠ requestIdHeader := by
    intro x hx
    rw [h x hx]
    decide
  have hallow :
      ∀ value, (r.withHeader "allow" value).headers = r.headers ++ [("allow", value)] := by
    intro value
    refine Response.withHeader_headers value fun x hx => ?_
    rw [h x hx]
    decide
  have hallowed : ∀ value, ∀ x ∈ (r.withHeader "allow" value).headers, x.1 ≠ requestIdHeader := by
    intro value x hx
    rw [hallow, List.mem_append, List.mem_singleton] at hx
    rcases hx with hx | rfl
    · exact hid x hx
    · show "allow" ≠ requestIdHeader
      decide
  unfold dress Arrival.requestId
  cases a.request.headers.first? requestIdHeader <;>
    by_cases hhead : a.request.method == "HEAD"
  all_goals
    cases endpoint with
    | none =>
        simp only [hhead, allowHeader, Response.withHeader_headers _ hid, if_true, List.append_nil,
          Bool.false_eq_true, if_false]
    | some e =>
        by_cases hmethod : e.methods.contains a.request.method
        · simp only [hhead, hmethod, allowHeader, Response.withHeader_headers _ hid, if_true,
            List.append_nil, Bool.false_eq_true, if_false]
        · simp only [hhead, hmethod, allowHeader, Response.withHeader_headers _ (hallowed _),
            hallow, if_true, Bool.false_eq_true, if_false]

theorem dress_alike {r r' : Response} (h : Response.Alike a b r r') (ha : a.Renamed rename b)
    (endpoint : Option Endpoint) :
    ∃ headers,
      (dress a.reading endpoint a.request r).headers =
        headers ++ [(requestIdHeader, a.requestId)] ∧
      (dress b.reading endpoint b.request r').headers =
        headers ++ [(requestIdHeader, b.requestId)] := by
  refine ⟨r.headers ++ allowHeader endpoint a.request.method, dress_headers h.named a endpoint, ?_⟩
  have hnamed : ∀ x ∈ r'.headers, x.1 = "content-type" := by
    rw [h.headers]
    exact h.named
  rw [dress_headers hnamed b endpoint, h.headers, ha.method]

theorem answer_renamed (hinj : Function.Injective rename) (hs : s.Renamed rename s')
    (ha : a.Renamed rename b) :
    ∃ r r' endpoint, Response.Alike a b r r' ∧
      (answer site link a.reading a.request s).1 = dress a.reading endpoint a.request r ∧
      (answer site link b.reading b.request s').1 = dress b.reading endpoint b.request r' ∧
      (answer site link a.reading a.request s).2.Renamed rename
        (answer site link b.reading b.request s').2 := by
  simp only [answer, ha.path]
  cases Endpoint.ofPath? a.request.path with
  | none => exact ⟨_, _, none, .refl a b (by simp), rfl, rfl, hs.tokens, hs.link⟩
  | some e =>
      obtain ⟨halike, hafter⟩ := answerAt_renamed site link hinj hs ha e
      exact ⟨_, _, some e, halike, rfl, rfl, hafter.tokens, hafter.link⟩

/-- Corresponding requests are answered alike in corresponding states, and leave such states. -/
theorem turn_renamed (hinj : Function.Injective rename) (hs : s.Renamed rename s')
    (ha : a.Renamed rename b) :
    (turn site link s a).Alike (turn site link s' b) ∧
      (turn site link s a).after.Renamed rename (turn site link s' b).after := by
  have hkept : (s.keep []).Renamed rename (s'.keep []) :=
    ⟨hs.tokens, by rw [State.keep_link, State.keep_link, hs.link]⟩
  obtain ⟨r, r', endpoint, halike, hr, hr', hafter⟩ :=
    answer_renamed site link.recorded hinj hkept ha
  have hinner : (turn site link s' b).after.link = (turn site link s a).after.link :=
    congrArg Recorded.inner hafter.link
  refine ⟨⟨?_, ?_, ?_, congrArg (fun l => l.sent.reverse) hafter.link⟩, hafter.tokens, hinner⟩
  · show (answer site link.recorded b.reading b.request (s'.keep [])).1.status =
      (answer site link.recorded a.reading a.request (s.keep [])).1.status
    rw [hr, hr', dress_status, dress_status, halike.status]
  · show (answer site link.recorded b.reading b.request (s'.keep [])).1.body =
      (answer site link.recorded a.reading a.request (s.keep [])).1.body ∨
      (answer site link.recorded a.reading a.request (s.keep [])).1.body = _ ∧
        (answer site link.recorded b.reading b.request (s'.keep [])).1.body = _
    rw [hr, hr', dress_body, dress_body, ha.method]
    by_cases hhead : a.request.method = "HEAD"
    · simp [hhead]
    · simpa [hhead] using halike.body
  · show ∃ headers, (answer site link.recorded a.reading a.request (s.keep [])).1.headers = _ ∧
      (answer site link.recorded b.reading b.request (s'.keep [])).1.headers = _
    rw [hr, hr']
    exact dress_alike halike ha endpoint

theorem turn_link_of_silent (h : (turn site link s a).sent = []) :
    (turn site link s a).after.link = s.link := by
  by_cases hadm : ∃ e job, Admitted site s a e job
  · obtain ⟨e, job, hadm⟩ := hadm
    rw [turn_of_admitted hadm] at h ⊢
    cases job with
    | token =>
        simp only [answerJob, State.counted]
        split <;> rfl
    | build => rfl
    | call call =>
        have hasked : (call == .available && !link.asks) = true := by
          cases hcase : call == .available && !link.asks with
          | true => rfl
          | false => simp [Job.messages, Call.messages, hcase] at h
        simp only [answerJob, answerCall, State.counted, Call.perform, hasked, if_true]
        split <;> rfl
  · exact (turn_idle fun e job hj => hadm ⟨e, job, hj⟩).link

/-! ## Runs -/

theorem run_arrivals (site : Site) (link : Link σ) (s : State σ) (arrivals : List Arrival) :
    (run site link s arrivals).map (·.toArrival) = arrivals := by
  induction arrivals generalizing s with
  | nil => rfl
  | cons a rest ih => rw [run, List.map_cons, ih, turn_arrival]

theorem run_renamed (hinj : Function.Injective rename) {arrivals others : List Arrival}
    (harrivals : List.Forall₂ (Arrival.Renamed rename) arrivals others)
    (hs : s.Renamed rename s') :
    List.Forall₂ Turn.Alike (run site link s arrivals) (run site link s' others) := by
  induction harrivals generalizing s s' with
  | nil => exact .nil
  | cons ha _ ih =>
      obtain ⟨halike, hafter⟩ := turn_renamed _ link hinj hs ha
      exact .cons halike (ih hafter)

end

theorem State.Renamed.of_idle {rename : String → String} {s s' : State σ} {t : Turn σ}
    (h : s.Renamed rename s') (hbefore : t.before = s) (hidle : t.Idle) :
    t.after.Renamed rename s' := by
  refine ⟨?_, ?_⟩
  · rw [hidle.tokens, hbefore, h.tokens]
  · rw [hidle.link, hbefore, h.link]

section
variable {bound : SocketAddress} {settings : Api} {link : Link σ}

/-- A turn that sent nothing and gave out no token changed neither the tokens nor the device. -/
theorem turn_idle_of_silent {s : State σ} {a : Arrival}
    (hsent : (turn (Site.make bound settings) link s a).sent = [])
    (htoken : ∀ token, ¬ (turn (Site.make bound settings) link s a).GivesOut bound settings token) :
    (turn (Site.make bound settings) link s a).Idle := by
  refine ⟨hsent, ?_, turn_link_of_silent _ link hsent⟩
  rcases turn_tokens bound settings link s a with hsame | ⟨-, hgives⟩
  · exact hsame
  · exact absurd hgives (htoken _)

theorem run_without {rename : String → String} (hinj : Function.Injective rename)
    {s s' : State σ} (hs : s.Renamed rename s') {arrivals others : List Arrival}
    {earlier later : List (Turn σ)} {t : Turn σ}
    (hrun : run (Site.make bound settings) link s arrivals = earlier ++ t :: later)
    (hsent : t.sent = []) (htoken : ∀ token, ¬ t.GivesOut bound settings token)
    (hothers : List.Forall₂ (Arrival.Renamed rename)
      ((earlier ++ later).map (·.toArrival)) others) :
    List.Forall₂ Turn.Alike (earlier ++ later)
      (run (Site.make bound settings) link s' others) := by
  induction earlier generalizing s s' arrivals others with
  | nil =>
      cases arrivals with
      | nil => simp [run] at hrun
      | cons a rest =>
          simp only [run, List.nil_append, List.cons.injEq] at hrun
          obtain ⟨rfl, rfl⟩ := hrun
          have hidle := turn_idle_of_silent hsent htoken
          rw [List.nil_append, run_arrivals] at hothers
          exact run_renamed _ link hinj hothers (hs.of_idle rfl hidle)
  | cons first earlier ih =>
      cases arrivals with
      | nil => simp [run] at hrun
      | cons a rest =>
          simp only [run, List.cons_append, List.cons.injEq] at hrun
          obtain ⟨rfl, hrest⟩ := hrun
          cases hothers with
          | cons ha hothers =>
              obtain ⟨halike, hafter⟩ := turn_renamed _ link hinj hs ha
              exact .cons halike (ih hafter hrest hothers)

/-- Without a request that sent nothing and gave out no token, all others are answered as they
were and send what they sent, up to the texts that are drawn anew; when the same texts are drawn,
their answers are the same. -/
theorem run_without_idle (bound : SocketAddress) (settings : Api) (link : Link σ) (l : σ)
    {rename : String → String} (hinj : Function.Injective rename)
    {arrivals others : List Arrival} {earlier later : List (Turn σ)} {t : Turn σ}
    (hrun : run (Site.make bound settings) link { link := l } arrivals = earlier ++ t :: later)
    (hsent : t.sent = []) (htoken : ∀ token, ¬ t.GivesOut bound settings token)
    (hothers : List.Forall₂ (Arrival.Renamed rename)
      ((earlier ++ later).map (·.toArrival)) others) :
    let without := run (Site.make bound settings) link { link := l } others
    List.Forall₂ Turn.Alike (earlier ++ later) without ∧
      (others = (earlier ++ later).map (·.toArrival) →
        without.map (·.response) = (earlier ++ later).map (·.response)) := by
  intro without
  have hstart : State.Renamed rename ({ link := l } : State σ) { link := l } := ⟨rfl, rfl⟩
  have halike : List.Forall₂ Turn.Alike (earlier ++ later) without :=
    run_without hinj hstart hrun hsent htoken hothers
  refine ⟨halike, fun hsame => Turn.responses_eq halike ?_⟩
  rw [← hsame]
  exact run_arrivals _ link _ others

/-- A request for a path that leads nowhere is taken out from between a token and its use, and
other tokens are drawn. -/
theorem run_without_idle_wipe :
    let bound : SocketAddress := ⟨.v4 127 0 0 1, 9510⟩
    let settings : Api := { disableHeaderCheck := true }
    let site := Site.make bound settings
    let start : State Script := { link := ⟨[some { result := .ok (.success none) }], []⟩ }
    let ask (token id : String) : Arrival := ⟨⟨0, token, id⟩, "GET", "/api/v1/csrf", [], []⟩
    let wipe (token drawn id : String) : Arrival :=
      ⟨⟨2, drawn, id⟩, "DELETE", "/api/v1/wipe", [("x-csrf-token", Text.utf8 token)], []⟩
    let first := turn site Script.link start (ask "a" "i")
    let lost := turn site Script.link first.after ⟨⟨1, "b", "j"⟩, "GET", "/", [], []⟩
    let last := turn site Script.link lost.after (wipe "a" "c" "k")
    lost.sent = [] ∧ last.sent = [.wipe] ∧
      List.Forall₂ Turn.Alike [first, last]
        (run site Script.link start [ask "+a" "l", wipe "+a" "+c" "m"]) := by
  intro bound settings site start ask wipe first lost last
  have hlost : lost.sent = [] := by decide +kernel
  have htoken : ∀ token, ¬ lost.GivesOut bound settings token :=
    fun token h => absurd h.path (by decide)
  have hrun : run site Script.link start [first.toArrival, lost.toArrival, last.toArrival] =
      [first] ++ lost :: [last] := rfl
  have hinj : Function.Injective fun text : String => "+" ++ text := by
    intro x y h
    simpa using h
  have hask : (ask "a" "i").Renamed (fun text => "+" ++ text) (ask "+a" "l") :=
    ⟨rfl, rfl, rfl, rfl, rfl, fun _ _ => rfl, rfl⟩
  have hwipe : (wipe "a" "c" "k").Renamed (fun text => "+" ++ text) (wipe "+a" "+c" "m") := by
    refine ⟨rfl, rfl, rfl, rfl, rfl, fun name hname => ?_, by decide +kernel⟩
    have hlower : (lower "x-csrf-token" == name) = false := by
      rw [beq_eq_false_iff_ne]
      exact fun h => hname (h.symm.trans (by decide))
    simp [wipe, Headers.first?, hlower]
  exact ⟨hlost, by decide +kernel,
    (run_without_idle bound settings Script.link _ hinj hrun hlost htoken
      (.cons hask (.cons hwipe .nil))).1⟩

end

end WalletBridge.Http
