import WalletBridge.Proofs.Device.Replies
import WalletBridge.Proofs.Service.Counting

/-! # What the counters of device calls show

A session makes one call after another over a link and counts how each of them
ended. A call is counted by its reply alone: one that is no failure counts as a
success, also where it is not what the call waits for and the caller gets an error.
With these misread replies told apart, the counters account for every call that
ended.
-/

namespace WalletBridge.Device

open Observe

/-- A call, what came back for it, and what its caller got; `none` if nothing ever did. -/
structure Made where
  call : Call
  heard : Option (Except Error Reply)
  got : Option (Except Error Value)

namespace Made

def succeeded (m : Made) : Bool :=
  match m.got with
  | some (.ok _) => true
  | _ => false

def failed (m : Made) : Bool :=
  match m.got with
  | some (.error _) => true
  | _ => false

/-- The device reported no failure, and the caller got an error. -/
def misread (m : Made) : Bool :=
  match m.heard with
  | some (.ok (.failure ..)) => false
  | some (.ok _) => m.failed
  | _ => false

end Made

def make (link : Link σ) (s : σ) (call : Call) : Made where
  call
  heard := (link.exchange call.request s).1.map (·.result)
  got := (call.perform link s).1.map (·.result)

def countCall (counters : Counters) (op : String) (counted : Option Bool) : Counters :=
  match counted with
  | some success => counters.recordCall op success
  | none => counters

/-- Makes calls one after another: the calls made, and the counters after the last. -/
def session (link : Link σ) : σ → Counters → List Call → List Made × Counters
  | _, counters, [] => ([], counters)
  | s, counters, c :: rest =>
    let (ended, after) := c.perform link s
    let (made, counters) :=
      session link after (countCall counters c.name (ended.bind (·.counted))) rest
    (make link s c :: made, counters)

/-- How many calls of an operation were so. -/
def tally (made : List Made) (op : String) (picks : Made → Bool) : Nat :=
  made.countP fun m => m.call.name == op && picks m

/-- The counters account for the calls made. -/
structure Accounted (made : List Made) (counters : Counters) : Prop where
  ok : ∀ op, counters.count (deviceCalls op "ok") =
    tally made op Made.succeeded + tally made op Made.misread
  error : ∀ op, counters.count (deviceCalls op "error") + tally made op Made.misread =
    tally made op Made.failed

theorem accounted_nil : Accounted [] [] where
  ok _ := rfl
  error _ := rfl

/-! ## One call -/

/-- How a call is counted, whether its caller got a value, whether an error, and whether the reply
was misread. -/
inductive Ends : Option Bool → Bool → Bool → Bool → Prop where
  | unheard : Ends none false false false
  | value : Ends (some true) true false false
  | misread : Ends (some true) false true true
  | error : Ends (some false) false true false

section
variable {link : Link σ} {s : σ} {c : Call} {counters : Counters} {made : List Made}

theorem make_ends (link : Link σ) (s : σ) (hc : c ≠ .available) :
    Ends ((c.perform link s).1.bind (·.counted)) (make link s c).succeeded
      (make link s c).failed (make link s c).misread := by
  simp only [make, Made.succeeded, Made.failed, Made.misread, perform_asked link s hc]
  cases (link.exchange c.request s).1 with
  | none => exact .unheard
  | some answer =>
      have hcounted : c.counted answer.result = some (Call.settle answer.result).toBool := by
        cases c with
        | available => exact absurd rfl hc
        | _ => rfl
      simp only [Option.map_some, Option.bind_some, hcounted]
      cases answer.result with
      | error error =>
          rw [conclude_error hc]
          exact .error
      | ok reply =>
          cases reply with
          | failure code message =>
              rw [conclude_failure hc]
              cases code <;> exact .error
          | _ =>
              -- no failure was reported, so only the call decides what its caller gets
              rw [conclude_ok hc (by simp)]
              cases c.interpret _ with
              | ok v => exact .value
              | error error => exact .misread

theorem count_countCall (counters : Counters) (name op : String) (counted : Option Bool)
    (success : Bool) :
    (countCall counters name counted).count (deviceCalls op (Counters.outcomeName success)) =
      counters.count (deviceCalls op (Counters.outcomeName success)) +
        if name = op ∧ counted = some success then 1 else 0 := by
  cases counted with
  | none => simp [countCall]
  | some counted =>
      have hsame : deviceCalls name (Counters.outcomeName counted) =
          deviceCalls op (Counters.outcomeName success) ↔ name = op ∧ counted = success := by
        cases counted <;> cases success <;> simp [deviceCalls, Counters.outcomeName]
      simp only [countCall, Counters.recordCall, Counters.count_add, hsame, Option.some.injEq]

theorem tally_concat (m : Made) (op : String) (picks : Made → Bool) :
    tally (made ++ [m]) op picks =
      tally made op picks + if m.call.name = op ∧ picks m = true then 1 else 0 := by
  simp [tally, List.countP_append, List.countP_singleton]

theorem Accounted.concat (h : Accounted made counters) {m : Made} {counted : Option Bool}
    (hends : Ends counted m.succeeded m.failed m.misread) :
    Accounted (made ++ [m]) (countCall counters m.call.name counted) := by
  generalize hs : m.succeeded = succeeded at hends
  generalize hf : m.failed = failed at hends
  generalize hm : m.misread = misread at hends
  constructor
  · intro op
    have hbefore := h.ok op
    have hcount := count_countCall counters m.call.name op counted true
    simp only [Counters.outcomeName, if_true] at hcount
    rw [hcount, tally_concat, tally_concat, hs, hm]
    by_cases hop : m.call.name = op
    · cases hends <;> simp [hop] <;> omega
    · simpa [hop] using hbefore
  · intro op
    have hbefore := h.error op
    have hcount := count_countCall counters m.call.name op counted false
    simp only [Counters.outcomeName, Bool.false_eq_true, if_false] at hcount
    rw [hcount, tally_concat, tally_concat, hf, hm]
    by_cases hop : m.call.name = op
    · cases hends <;> simp [hop] <;> omega
    · simpa [hop] using hbefore

end

/-! ## A session -/

section
variable {link : Link σ} {s : σ} {calls : List Call} {counters : Counters} {earlier : List Made}

theorem session_calls : (session link s counters calls).1.map (·.call) = calls := by
  induction calls generalizing s counters with
  | nil => rfl
  | cons c rest ih => simp [session, make, ih]

theorem accounted_session (link : Link σ) (s : σ) (h : Accounted earlier counters)
    (hcalls : ∀ c ∈ calls, c ≠ .available) :
    Accounted (earlier ++ (session link s counters calls).1) (session link s counters calls).2 := by
  induction calls generalizing s counters earlier with
  | nil => simpa [session] using h
  | cons c rest ih =>
      have hends := make_ends link s (hcalls c (by simp))
      have hname : (make link s c).call.name = c.name := rfl
      have hnext := ih (c.perform link s).2 (h.concat hends) fun c hc => hcalls c (by simp [hc])
      simpa [session, hname] using hnext

/-- Successes and errors are as many as were counted exactly when no reply was misread. -/
theorem Accounted.exact (h : Accounted earlier counters) (op : String) :
    (counters.count (deviceCalls op "ok") = tally earlier op Made.succeeded ∧
      counters.count (deviceCalls op "error") = tally earlier op Made.failed) ↔
    ∀ m ∈ earlier, m.call.name = op → m.misread = false := by
  have hok := h.ok op
  have herror := h.error op
  have hnone : tally earlier op Made.misread = 0 ↔
      ∀ m ∈ earlier, m.call.name = op → m.misread = false := by
    simp [tally, List.countP_eq_zero]
  rw [← hnone]
  omega

end

/-- In every session of calls over any link that starts with no counters, the successes counted for
an operation are the calls whose caller got a value and those whose reply was misread, and the
errors are the other calls whose caller got an error. So the counters tell what the callers got
exactly for the operations of which no reply was misread. -/
theorem session_accounted (link : Link σ) (s : σ) {calls : List Call}
    (hcalls : ∀ c ∈ calls, c ≠ .available) :
    let (made, counters) := session link s [] calls
    made.map (·.call) = calls ∧ Accounted made counters ∧ ∀ op,
      (counters.count (deviceCalls op "ok") = tally made op Made.succeeded ∧
        counters.count (deviceCalls op "error") = tally made op Made.failed) ↔
      ∀ m ∈ made, m.call.name = op → m.misread = false := by
  have h := accounted_session link s accounted_nil hcalls
  exact ⟨session_calls, h, h.exact⟩

/-- A device that is wiped, and then a success in reply to the question for its features. -/
theorem session_accounted_misread :
    let s : Script := ⟨[some { result := .ok (.success none) },
      some { result := .ok (.success none) }], []⟩
    let (made, counters) := session Script.link s [] [.wipe, .features]
    counters = [(deviceCalls "wipe" "ok", 1), (deviceCalls "features" "ok", 1)] ∧
      made.map (·.misread) = [false, true] ∧ Accounted made counters := by
  intro s
  have hcalls : ∀ c ∈ [Call.wipe, .features], c ≠ .available := by decide
  exact ⟨by decide +kernel, by decide +kernel, (session_accounted Script.link s hcalls).2.1⟩

/-- A success in reply to the question for the features counts as one, and the caller gets an
error. -/
theorem misread_counted_ok :
    let s : Script := ⟨[some { result := .ok (.success none) }], []⟩
    let (made, counters) := session Script.link s [] [.features]
    counters.count (deviceCalls "features" "ok") = 1 ∧ tally made "features" Made.succeeded = 0 ∧
      counters.count (deviceCalls "features" "error") = 0 ∧
      tally made "features" Made.failed = 1 := by
  decide +kernel

end WalletBridge.Device
