import WalletBridge.Proofs.Service.Access

/-! # What the counters show

Adding to a counter adds one to every sum that the counter is part of and to no
other, so a sum over a run is the number of times that one of its counters was
added to. Every answer adds once to the counter of its method, route and status
and once to the durations of its method and route; a call on the device adds to
neither. The counters of a run are therefore accounted for by its turns.
-/

namespace WalletBridge.Observe

/-- Whether a series has this name and these labels; it may have further ones. -/
def Series.has (name : String) (labels : List (String × String)) (s : Series) : Bool :=
  s.name == name && labels.all s.labels.contains

namespace Counters

def sumOf : Counters → (Series → Bool) → Nat
  | [], _ => 0
  | (s, n) :: rest, picks => (if picks s then n else 0) + sumOf rest picks

variable {c : Counters} {s t : Series}

theorem sumOf_add (picks : Series → Bool) :
    (c.add s).sumOf picks = c.sumOf picks + if picks s then 1 else 0 := by
  induction c with
  | nil => by_cases hs : picks s <;> simp [add, sumOf, hs]
  | cons entry rest ih =>
      obtain ⟨t, n⟩ := entry
      by_cases hts : t = s
      · subst hts
        by_cases ht : picks t
        · simp [add, sumOf, ht]
          omega
        · simp [add, sumOf, ht]
      · simp only [add, beq_iff_eq, hts, if_false, sumOf, ih]
        omega

theorem count_add : (c.add s).count t = c.count t + if s = t then 1 else 0 := by
  induction c with
  | nil => by_cases hst : s = t <;> simp [add, count, hst]
  | cons entry rest ih =>
      obtain ⟨u, n⟩ := entry
      unfold count at ih ⊢
      by_cases hus : u = s
      · subst hus
        by_cases hut : u = t <;> simp [add, hut]
      · simp only [add, beq_iff_eq, hus, if_false]
        by_cases hut : u = t
        · have hst : s ≠ t := fun h => hus (hut.trans h.symm)
          simp [hut, hst]
        · simpa [hut] using ih

theorem mem_names_add {u : Series} :
    u ∈ (c.add s).map (·.1) ↔ u ∈ c.map (·.1) ∨ u = s := by
  induction c with
  | nil => simp [add]
  | cons entry rest ih =>
      obtain ⟨t, n⟩ := entry
      by_cases hts : t = s
      · simp [add, hts, or_comm]
      · simp only [add, beq_iff_eq, hts, if_false, List.map_cons, List.mem_cons, ih, or_assoc]

theorem names_add (h : (c.map (·.1)).Nodup) : ((c.add s).map (·.1)).Nodup := by
  induction c with
  | nil => simp [add]
  | cons entry rest ih =>
      obtain ⟨t, n⟩ := entry
      have hnew : t ∉ rest.map (·.1) := (List.nodup_cons.mp h).1
      have hrest : (rest.map (·.1)).Nodup := (List.nodup_cons.mp h).2
      by_cases hts : t = s
      · simpa [add, hts] using h
      · simp only [add, beq_iff_eq, hts, if_false, List.map_cons, List.nodup_cons]
        refine ⟨fun hmem => ?_, ih hrest⟩
        rcases mem_names_add.mp hmem with hold | hsame
        · exact hnew hold
        · exact hts hsame

end Counters

/-! ## The series of requests -/

section
variable {method path method' path' op outcome : String} {status status' : Nat}

theorem requests_eq_iff : requests method path status = requests method' path' status' ↔
    method = method' ∧ path = path' ∧ status = status' := by
  refine ⟨fun h => ?_, fun ⟨hm, hp, hs⟩ => by rw [hm, hp, hs]⟩
  simp only [requests, Series.mk.injEq, List.cons.injEq, Prod.mk.injEq, true_and, and_true] at h
  exact ⟨h.1, h.2.1, Text.decimal_injective h.2.2⟩

theorem durations_eq_iff : durations method path = durations method' path' ↔
    method = method' ∧ path = path' := by
  simp [durations]

theorem durations_ne_requests : durations method path ≠ requests method' path' status := by
  simp [durations, requests]

theorem deviceCalls_ne_requests : deviceCalls op outcome ≠ requests method path status := by
  simp [deviceCalls, requests]

theorem deviceCalls_ne_durations : deviceCalls op outcome ≠ durations method path := by
  simp [deviceCalls, durations]

def ofRoute (method path : String) : Series → Bool :=
  Series.has "hwd_requests_total" [("method", method), ("path", path)]

def ofRequests : Series → Bool := Series.has "hwd_requests_total" []

@[simp] theorem ofRoute_requests :
    ofRoute method path (requests method' path' status) = true ↔
      method = method' ∧ path = path' := by
  simp [ofRoute, Series.has, requests]

@[simp] theorem ofRoute_durations :
    ofRoute method path (durations method' path') = false := by
  simp [ofRoute, Series.has, durations]

@[simp] theorem ofRoute_deviceCalls : ofRoute method path (deviceCalls op outcome) = false := by
  simp [ofRoute, Series.has, deviceCalls]

@[simp] theorem ofRequests_requests : ofRequests (requests method path status) = true := by
  simp [ofRequests, Series.has, requests]

@[simp] theorem ofRequests_durations : ofRequests (durations method path) = false := by
  simp [ofRequests, Series.has, durations]

@[simp] theorem ofRequests_deviceCalls : ofRequests (deviceCalls op outcome) = false := by
  simp [ofRequests, Series.has, deviceCalls]

end

end WalletBridge.Observe

namespace WalletBridge.Http

open Device Observe

def HttpRequest.route (r : HttpRequest) : String :=
  match Endpoint.ofPath? r.path with
  | none => "unmatched"
  | some e => e.path

structure Tallied (turns : List (Turn σ)) (c : Counters) : Prop where
  once : (c.map (·.1)).Nodup
  requests : ∀ method path status, c.count (requests method path status) =
    turns.countP fun t => t.request.method = method ∧ t.request.route = path ∧
      t.response.status = status
  durations : ∀ method path,
    c.count (durations method path) = c.sumOf (ofRoute method path)
  total : c.sumOf ofRequests = turns.length

theorem tallied_nil : Tallied ([] : List (Turn σ)) [] where
  once := .nil
  requests _ _ _ := rfl
  durations _ _ := rfl
  total := rfl

theorem Tallied.recordCall {turns : List (Turn σ)} {c : Counters} (h : Tallied turns c)
    (op : String) (success : Bool) : Tallied turns (c.recordCall op success) where
  once := Counters.names_add h.once
  requests method path status := by
    rw [Counters.recordCall, Counters.count_add, if_neg deviceCalls_ne_requests]
    exact h.requests method path status
  durations method path := by
    rw [Counters.recordCall, Counters.count_add, if_neg deviceCalls_ne_durations,
      Counters.sumOf_add]
    simpa using h.durations method path
  total := by
    rw [Counters.recordCall, Counters.sumOf_add]
    simpa using h.total

/-- An answer that is counted under its method, route and status keeps the tally. -/
theorem Tallied.recordRequest {turns : List (Turn σ)} {c : Counters} (h : Tallied turns c)
    (t : Turn σ) : Tallied (turns ++ [t])
      (c.recordRequest t.request.method t.request.route t.response.status) where
  once := Counters.names_add (Counters.names_add h.once)
  requests method path status := by
    rw [Counters.recordRequest, Counters.count_add, if_neg durations_ne_requests,
      Counters.count_add, h.requests method path status, List.countP_append]
    simp [requests_eq_iff]
  durations method path := by
    have hother : Observe.requests t.request.method t.request.route t.response.status ≠
        Observe.durations method path := fun h => durations_ne_requests h.symm
    simp only [Counters.recordRequest, Counters.count_add, Counters.sumOf_add, if_neg hother,
      h.durations method path, durations_eq_iff, ofRoute_requests, ofRoute_durations]
    simp [eq_comm]
  total := by
    simp [Counters.recordRequest, Counters.sumOf_add, h.total]

section
variable {site : Site} {link : Link σ} {s : State σ} {a : Arrival}

theorem answerCall_counters (site : Site) (link : Link σ) (e : Endpoint) (call : Call)
    (s : State σ) : (answerCall site link e call s).2.counters = s.counters ∨
      ∃ success, (answerCall site link e call s).2.counters =
        s.counters.recordCall call.name success := by
  unfold answerCall
  dsimp only
  split
  · exact .inl rfl
  · next f _ =>
      cases f.counted with
      | none => exact .inl rfl
      | some success => exact .inr ⟨success, rfl⟩

/-- A turn counts its call, if it made one that counts, and then its answer. -/
theorem turn_counters (site : Site) (link : Link σ) (s : State σ) (a : Arrival) :
    let t := turn site link s a
    ∃ c, (c = s.counters ∨ ∃ op success, c = s.counters.recordCall op success) ∧
      t.after.counters = c.recordRequest t.request.method t.request.route t.response.status := by
  intro t
  cases hp : Endpoint.ofPath? a.request.path with
  | none =>
      refine ⟨s.counters, .inl rfl, ?_⟩
      simp [t, turn, answer, hp, State.plain, HttpRequest.route]
  | some e =>
      have hroute : a.request.route = e.path := by simp [HttpRequest.route, hp]
      by_cases hadm : ∃ job, Admitted site s a e job
      · obtain ⟨job, hadm⟩ := hadm
        have ht : t = _ := turn_of_admitted hadm
        have hcounters : (answerJob site link a.reading e job s).2.counters = s.counters ∨
            ∃ op success, (answerJob site link a.reading e job s).2.counters =
              s.counters.recordCall op success := by
          cases job with
          | token =>
              left
              simp only [answerJob]
              split <;> rfl
          | build => exact .inl rfl
          | call call =>
              rcases answerCall_counters site link e call s with hsame | ⟨success, hcall⟩
              · exact .inl hsame
              · exact .inr ⟨call.name, success, hcall⟩
        refine ⟨_, hcounters, ?_⟩
        rw [ht]
        simp [State.counted, hroute]
      · obtain ⟨response, hr⟩ := answerAt_of_not_admitted hp (fun job hj => hadm ⟨job, hj⟩)
        have ht : t = _ := turn_of_answered hp (hr link.recorded (s.keep []) rfl)
        refine ⟨s.counters, .inl rfl, ?_⟩
        rw [ht]
        simp [State.counted, hroute]

theorem tallied_turn {turns : List (Turn σ)} (h : Tallied turns s.counters) :
    Tallied (turns ++ [turn site link s a]) (turn site link s a).after.counters := by
  obtain ⟨c, hc, hcounters⟩ := turn_counters site link s a
  rw [hcounters]
  rcases hc with rfl | ⟨op, success, rfl⟩
  · exact h.recordRequest _
  · exact (h.recordCall op success).recordRequest _

end

/-- In every run that starts with no counters, the counters after each turn are accounted for by
the turns up to it. -/
theorem run_tallied (site : Site) (link : Link σ) {start : State σ}
    (hstart : start.counters = []) {arrivals : List Arrival} {earlier later : List (Turn σ)}
    {t : Turn σ} (hrun : run site link start arrivals = earlier ++ t :: later) :
    Tallied (earlier ++ [t]) t.after.counters := by
  have hnone : Tallied ([] : List (Turn σ)) start.counters := by
    rw [hstart]
    exact tallied_nil
  obtain ⟨ht, htallied⟩ := run_induction (P := fun turns s => Tallied turns s.counters)
    (fun _ _ _ h => tallied_turn h) hnone hrun
  rw [ht]
  exact tallied_turn htallied

/-- A path that leads nowhere, and a request without a token that is turned away. -/
theorem run_tallied_forbidden :
    let bound : Net.SocketAddress := ⟨.v4 127 0 0 1, 9510⟩
    let site := Site.make bound { disableHeaderCheck := true }
    let first := turn site Script.link { link := ⟨[], []⟩ }
      ⟨⟨0, "a", "b"⟩, ⟨"GET", "/", [], []⟩⟩
    let second := turn site Script.link first.after
      ⟨⟨1, "c", "d"⟩, ⟨"DELETE", "/api/v1/wipe", [], []⟩⟩
    second.after.counters =
        [(requests "GET" "unmatched" 404, 1), (durations "GET" "unmatched", 1),
          (requests "DELETE" "/api/v1/wipe" 403, 1), (durations "DELETE" "/api/v1/wipe", 1)] ∧
      Tallied [first, second] second.after.counters := by
  intro bound site first second
  refine ⟨by decide +kernel, ?_⟩
  have hrun : run site Script.link first.before [first.toArrival, second.toArrival] =
      [first] ++ second :: [] := rfl
  exact run_tallied site Script.link rfl hrun

end WalletBridge.Http
