import WalletBridge.Http.Service

/-! # Runs of requests

A `Turn` is one request of a run with everything it led to. The messages that
went to the device are seen through a link that keeps what it carries; the
keeping changes no answer, so every statement about turns is one about
`answer`. Only a request that passes all checks, `Admitted`, gives out a token
or reaches the device; every other one is `Idle`.
-/

namespace WalletBridge.Device

/-- What lies behind a link, and the messages that went over it, last first. -/
structure Recorded (σ : Type) where
  inner : σ
  sent : List Request := []

/-- The same link; the messages that it carries are kept. -/
def Link.recorded (link : Link σ) : Link (Recorded σ) where
  exchange request s :=
    let (answer, inner) := link.exchange request s.inner
    (answer, { inner, sent := request :: s.sent })
  asks := link.asks

namespace Call

/-- The messages that a call sends: one, or none where nobody asks for the device. -/
def messages (link : Link σ) (call : Call) : List Request :=
  if call == .available && !link.asks then [] else [call.request]

theorem perform_recorded (link : Link σ) (call : Call) (s : σ) (sent : List Request) :
    call.perform link.recorded ⟨s, sent⟩ =
      ((call.perform link s).1, ⟨(call.perform link s).2, call.messages link ++ sent⟩) := by
  have hasks : link.recorded.asks = link.asks := rfl
  unfold perform messages
  rw [hasks]
  split
  · rfl
  · rfl

theorem mem_messages {link : Link σ} {call : Call} {m : Request}
    (h : m ∈ call.messages link) : m = call.request := by
  unfold messages at h
  split at h
  · simp at h
  · simpa using h

theorem messages_length_le (link : Link σ) (call : Call) : (call.messages link).length ≤ 1 := by
  unfold messages
  split <;> simp

@[simp] theorem messages_reverse (link : Link σ) (call : Call) :
    (call.messages link).reverse = call.messages link := by
  unfold messages
  split <;> rfl

end Call

end WalletBridge.Device

namespace WalletBridge.Http

open Device

def State.keep (s : State σ) (sent : List Device.Request) : State (Recorded σ) where
  tokens := s.tokens
  counters := s.counters
  link := { inner := s.link, sent }

def State.plain (s : State (Recorded σ)) : State σ where
  tokens := s.tokens
  counters := s.counters
  link := s.link.inner

@[simp] theorem State.keep_tokens (s : State σ) (sent : List Device.Request) :
    (s.keep sent).tokens = s.tokens := rfl

@[simp] theorem State.keep_counters (s : State σ) (sent : List Device.Request) :
    (s.keep sent).counters = s.counters := rfl

@[simp] theorem State.keep_link (s : State σ) (sent : List Device.Request) :
    (s.keep sent).link = ⟨s.link, sent⟩ := rfl

/-- A request, the time at which it is answered, and the random texts there are for it. -/
structure Arrival where
  reading : Reading
  request : HttpRequest

/-- One request of a run, and what it led to. -/
structure Turn (σ : Type) extends Arrival where
  before : State σ
  response : Response
  /-- The messages that went to the device, in order. -/
  sent : List Device.Request
  after : State σ

def turn (site : Site) (link : Link σ) (s : State σ) (a : Arrival) : Turn σ :=
  let (response, after) := answer site link.recorded a.reading a.request (s.keep [])
  { a with before := s, response, sent := after.link.sent.reverse, after := after.plain }

def run (site : Site) (link : Link σ) : State σ → List Arrival → List (Turn σ)
  | _, [] => []
  | s, a :: rest => turn site link s a :: run site link (turn site link s a).after rest

/-- The request passes all checks at its endpoint, and this is what is to be done for it. -/
structure Admitted (site : Site) (s : State σ) (a : Arrival) (e : Endpoint) (job : Job) :
    Prop where
  path : Endpoint.ofPath? a.request.path = some e
  gate : gate site s.tokens a.reading.now a.request = .ok ()
  time : site.settings.requestTimeout ≠ 0
  method : a.request.method ∈ e.methods
  job : e.job a.request = .ok job

/-- The request gave out no token and sent nothing. -/
structure Turn.Idle (t : Turn σ) : Prop where
  sent : t.sent = []
  tokens : t.after.tokens = t.before.tokens
  link : t.after.link = t.before.link

def Job.messages (link : Link σ) : Job → List Device.Request
  | .call c => c.messages link
  | _ => []

@[simp] theorem Job.messages_reverse (link : Link σ) (job : Job) :
    (job.messages link).reverse = job.messages link := by
  cases job with
  | call c => exact c.messages_reverse link
  | _ => rfl

def State.counted (s : State σ) (r : HttpRequest) (e : Endpoint) (response : Response) : State σ :=
  { s with counters := s.counters.recordRequest r.method e.path response.status }

section
variable {site : Site} {link : Link σ} {s : State σ} {a : Arrival} {e : Endpoint} {job : Job}

/-! ## Keeping the messages changes nothing -/

theorem answerCall_keep (call : Call) (sent : List Device.Request) :
    answerCall site link.recorded e call (s.keep sent) =
      ((answerCall site link e call s).1,
        (answerCall site link e call s).2.keep (call.messages link ++ sent)) := by
  simp only [answerCall, State.keep, Call.perform_recorded]
  split <;> rfl

theorem answerJob_keep (reading : Reading) (sent : List Device.Request) :
    answerJob site link.recorded reading e job (s.keep sent) =
      ((answerJob site link reading e job s).1,
        (answerJob site link reading e job s).2.keep (job.messages link ++ sent)) := by
  cases job with
  | token =>
      simp only [answerJob]
      split <;> rfl
  | build => rfl
  | call call => exact answerCall_keep call sent

/-! ## What one request does -/

theorem answerAt_of_admitted (h : Admitted site s a e job) :
    answerAt site link a.reading e a.request s = answerJob site link a.reading e job s := by
  simp [answerAt, h.gate, h.time, h.method, h.job]

theorem answerAt_of_not_admitted (hp : Endpoint.ofPath? a.request.path = some e)
    (h : ∀ job, ¬ Admitted site s a e job) :
    ∃ response, ∀ {τ : Type} (link : Link τ) (t : State τ), t.tokens = s.tokens →
      answerAt site link a.reading e a.request t = (response, t) := by
  cases hg : gate site s.tokens a.reading.now a.request with
  | error f => exact ⟨.ofFailure f, fun link t ht => by simp [answerAt, ht, hg]⟩
  | ok u =>
      by_cases htime : site.settings.requestTimeout = 0
      · exact ⟨{ status := 408 }, fun link t ht => by simp [answerAt, ht, hg, htime]⟩
      by_cases hmethod : a.request.method ∈ e.methods
      · cases hj : e.job a.request with
        | error f =>
            exact ⟨.ofFailure f, fun link t ht => by
              simp [answerAt, ht, hg, htime, hmethod, hj]⟩
        | ok job => exact (h job ⟨hp, hg, htime, hmethod, hj⟩).elim
      · exact ⟨{ status := 405 }, fun link t ht => by
          simp [answerAt, ht, hg, htime, hmethod]⟩

/-- A request that passes all checks: its job is done, and nothing else. -/
theorem turn_of_admitted (h : Admitted site s a e job) :
    let answered := answerJob site link a.reading e job s
    turn site link s a =
      { a with
        before := s
        response := dress a.reading (some e) a.request answered.1
        sent := job.messages link
        after := answered.2.counted a.request e answered.1 } := by
  have hkept : answerAt site link.recorded a.reading e a.request (s.keep []) =
      answerJob site link.recorded a.reading e job (s.keep []) :=
    answerAt_of_admitted ⟨h.path, h.gate, h.time, h.method, h.job⟩
  simp only [turn, answer, h.path, hkept, answerJob_keep]
  simp [State.plain, State.counted]

theorem turn_of_answered {response : Response} (hp : Endpoint.ofPath? a.request.path = some e)
    (h : answerAt site link.recorded a.reading e a.request (s.keep []) = (response, s.keep [])) :
    turn site link s a =
      { a with
        before := s
        response := dress a.reading (some e) a.request response
        sent := []
        after := s.counted a.request e response } := by
  simp only [turn, answer, hp, h]
  simp [State.plain, State.counted]

/-- A request that does not pass all checks gets an answer, and that is all. -/
theorem turn_idle (h : ∀ e job, ¬ Admitted site s a e job) : (turn site link s a).Idle := by
  cases hp : Endpoint.ofPath? a.request.path with
  | none => constructor <;> simp [turn, answer, hp, State.plain]
  | some e =>
      obtain ⟨response, hr⟩ := answerAt_of_not_admitted hp (h e)
      rw [turn_of_answered hp (hr link.recorded (s.keep []) rfl)]
      exact ⟨rfl, rfl, rfl⟩

/-- Whatever goes to the device is the message of a call that passed all checks. -/
theorem mem_turn_sent {m : Device.Request} (h : m ∈ (turn site link s a).sent) :
    ∃ e c, Admitted site s a e (.call c) ∧ m = c.request := by
  by_cases hadm : ∃ e job, Admitted site s a e job
  · obtain ⟨e, job, hadm⟩ := hadm
    rw [turn_of_admitted hadm] at h
    cases job with
    | call c => exact ⟨e, c, hadm, Call.mem_messages h⟩
    | token => simp [Job.messages] at h
    | build => simp [Job.messages] at h
  · have hidle : (turn site link s a).Idle := turn_idle (fun e job hj => hadm ⟨e, job, hj⟩)
    rw [hidle.sent] at h
    cases h

/-- One request sends one message at most. -/
theorem turn_sent_length_le : (turn site link s a).sent.length ≤ 1 := by
  by_cases hadm : ∃ e job, Admitted site s a e job
  · obtain ⟨e, job, hadm⟩ := hadm
    rw [turn_of_admitted hadm]
    cases job with
    | call c => exact Call.messages_length_le link c
    | token | build => simp [Job.messages]
  · have hidle : (turn site link s a).Idle := turn_idle (fun e job hj => hadm ⟨e, job, hj⟩)
    simp [hidle.sent]

theorem turn_answer (site : Site) (link : Link σ) (s : State σ) (a : Arrival) :
    answer site link a.reading a.request s =
      ((turn site link s a).response, (turn site link s a).after) := by
  cases hp : Endpoint.ofPath? a.request.path with
  | none => simp [turn, answer, hp, State.plain]
  | some e =>
      by_cases h : ∃ job, Admitted site s a e job
      · obtain ⟨job, h⟩ := h
        rw [turn_of_admitted h]
        simp [answer, hp, answerAt_of_admitted h, State.counted]
      · obtain ⟨response, hr⟩ := answerAt_of_not_admitted hp (fun job hj => h ⟨job, hj⟩)
        rw [turn_of_answered hp (hr link.recorded (s.keep []) rfl)]
        simp [answer, hp, hr link s rfl, State.counted]

/-! ## Runs -/

@[simp] theorem turn_before : (turn site link s a).before = s := rfl

@[simp] theorem turn_arrival : (turn site link s a).toArrival = a := rfl

private theorem run_induction_from {P : List (Turn σ) → State σ → Prop} {arrivals : List Arrival}
    {before earlier later : List (Turn σ)} {t : Turn σ}
    (hstep : ∀ h s a, P h s → P (h ++ [turn site link s a]) (turn site link s a).after)
    (hstart : P before s) (hrun : run site link s arrivals = earlier ++ t :: later) :
    t = turn site link t.before t.toArrival ∧ P (before ++ earlier) t.before := by
  induction arrivals generalizing s before earlier with
  | nil => simp [run] at hrun
  | cons a rest ih =>
      rw [run] at hrun
      cases earlier with
      | nil =>
          simp only [List.nil_append, List.cons.injEq] at hrun
          obtain ⟨rfl, -⟩ := hrun
          exact ⟨rfl, by simpa using hstart⟩
      | cons first earlier =>
          simp only [List.cons_append, List.cons.injEq] at hrun
          obtain ⟨rfl, hrest⟩ := hrun
          simpa using ih (hstep before s a hstart) hrest

/-- What every request of a run finds: it is answered in the state that the earlier ones left,
and a law of histories that one request keeps holds of the history up to it. -/
theorem run_induction {P : List (Turn σ) → State σ → Prop} {arrivals : List Arrival}
    {earlier later : List (Turn σ)} {t : Turn σ}
    (hstep : ∀ h s a, P h s → P (h ++ [turn site link s a]) (turn site link s a).after)
    (hstart : P [] s) (hrun : run site link s arrivals = earlier ++ t :: later) :
    t = turn site link t.before t.toArrival ∧ P earlier t.before :=
  run_induction_from hstep hstart hrun

theorem run_turn {arrivals : List Arrival} {earlier later : List (Turn σ)} {t : Turn σ}
    (hrun : run site link s arrivals = earlier ++ t :: later) :
    t = turn site link t.before t.toArrival :=
  (run_induction (P := fun _ _ => True) (fun _ _ _ h => h) trivial hrun).1

end

end WalletBridge.Http
