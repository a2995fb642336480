import WalletBridge.Proofs.Device.Traffic
import WalletBridge.Proofs.Messages.RoundTrip

/-! # What an exchange makes of its socket

The result of an exchange hangs on the first thing that arrived at its socket.
Here that is told from the events since the socket was opened: the first datagram
of the emulator that came in time is the answer, and without one no device is
there.
-/

namespace WalletBridge.Device

open Text Traffic

variable {ι : Type}

/-- The first of some datagrams that arrived by a time. -/
def firstBy (deadline : Nat) (items : List (Nat × Bytes)) : Option Bytes :=
  (items.find? fun x => x.1 ≤ deadline).map (·.2)

theorem Log.datagrams_eq (log : Log ι) (port : Nat) :
    log.datagrams port = (log.heard port).filterMap fun x => x.2.toOption.map (x.1, ·) := by
  simp only [Log.datagrams, Log.heard, List.filterMap_filterMap]
  congr 1
  funext x
  rw [Event.datagram?_eq]
  cases x.2.heard? port <;> rfl

theorem Log.datagrams_sorted {log : Log ι} (h : log.Pairwise (·.1 ≤ ·.1)) (port : Nat) :
    (log.datagrams port).Pairwise (·.1 ≤ ·.1) := by
  refine List.Pairwise.filterMap _ ?_ h
  intro x y hle a ha b hb
  obtain ⟨_, -, rfl⟩ := Option.map_eq_some_iff.mp ha
  obtain ⟨_, -, rfl⟩ := Option.map_eq_some_iff.mp hb
  exact hle

theorem Log.mem_heard {log : Log ι} {port : Nat} {x : Nat × Except Os.Error Bytes}
    (h : x ∈ log.heard port) : ∃ e, (x.1, e) ∈ log ∧ e.heard? port = some x.2 := by
  obtain ⟨⟨time, e⟩, he, hx⟩ := List.mem_filterMap.mp h
  obtain ⟨item, hitem, rfl⟩ := Option.map_eq_some_iff.mp hx
  exact ⟨e, he, hitem⟩

/-- The result is the message that a datagram says, or tells why it says none. -/
structure Decoded (bytes : Bytes) (result : Except Error Reply) : Prop where
  reply : ∀ reply, Json.decode Reply.codec bytes = .ok reply → result = .ok reply
  fault : ∀ fault, Json.decode Reply.codec bytes = .error fault →
    result = .error (.protocol (fault.describe bytes))
  /-- Whatever message was written is the result. -/
  written : ∀ reply, bytes = Json.encode Reply.codec reply → result = .ok reply

theorem Reply.decoded (bytes : Bytes) : Decoded bytes (Reply.decode bytes) := by
  constructor
  · intro reply hreply
    simp only [Reply.decode, hreply]
  · intro fault hfault
    simp only [Reply.decode, hfault]
  · intro reply hwritten
    have hreply : Json.decode Reply.codec bytes = .ok reply := by
      rw [hwritten]
      exact Json.decode_written reply.codec_reads
    simp only [Reply.decode, hreply]

/-- What the exchange makes of the first thing that arrived. -/
theorem Socket.result_eq (emulator : Emulator) {s : Socket ι} {sent : Nat}
    (hsent : s.sent = some sent) :
    s.result emulator = match s.inbox.head? with
      | none => .error emulator.silent
      | some (time, item) =>
        if sent + emulator.patience < time then .error emulator.silent
        else match item with
          | .error error => .error (emulator.failed error)
          | .ok bytes => Reply.decode (bytes.take largestDatagram) := by
  have hlate : ∀ time, emulator.patience < time - sent ↔ sent + emulator.patience < time := by
    intro time
    omega
  cases hinbox : s.inbox with
  | nil => simp [Socket.result, Socket.wire, hsent, hinbox, Emulator.exchange]
  | cons x rest =>
      obtain ⟨time, item⟩ := x
      by_cases htime : sent + emulator.patience < time
      · simp [Socket.result, Socket.wire, hsent, hinbox, Emulator.exchange, hlate, htime]
      · cases item <;>
          simp [Socket.result, Socket.wire, hsent, hinbox, Emulator.exchange, hlate, htime]

theorem firstBy_cons (deadline : Nat) {x : Nat × Bytes} {rest : List (Nat × Bytes)}
    (hsorted : (x :: rest).Pairwise (·.1 ≤ ·.1)) :
    firstBy deadline (x :: rest) = if x.1 ≤ deadline then some x.2 else none := by
  by_cases hx : x.1 ≤ deadline
  · simp [firstBy, hx]
  · -- whatever comes after a late datagram is late as well
    have hnone : rest.find? (fun y => decide (y.1 ≤ deadline)) = none := by
      rw [List.find?_eq_none]
      intro y hy
      have hle := (List.pairwise_cons.mp hsorted).1 y hy
      have hlate : ¬ y.1 ≤ deadline := by omega
      simpa using hlate
    simp [firstBy, hx, hnone]

/-- Whatever arrives at the port during some events is for the exchange. -/
structure Own (log during : Log ι) (id : ι) (port : Nat) : Prop where
  letters : ∀ time letter other, (time, .arrive letter) ∈ during → letter.port = port →
    letter.replyTo = some other →
    other = id ∧ letter.bytes.length ≤ longestDatagram ∧ ∃ posted, (posted, .post letter) ∈ log
  refusals : ∀ time other, (time, .refuse other port) ∈ during → other = id

/-- The result of an exchange that heard no datagram in time, and why it heard none. -/
inductive Unheard (emulator : Emulator) (during : Log ι) (port sent ended : Nat) :
    Except Error Reply → Prop where
  | silent (hended : sent + emulator.patience ≤ ended) :
      Unheard emulator during port sent ended
        (.error (.notConnected ("no response from emulator at " ++ emulator.address ++ " within " ++
          durationText emulator.patience)))
  | refused {time : Nat} {id : ι} (hrefused : (time, .refuse id port) ∈ during) :
      Unheard emulator during port sent ended
        (.error (.notConnected ("emulator at " ++ emulator.address ++ " refused connection")))

/-- The result of an exchange, told from what happened while its socket was open. -/
structure Verdict (emulator : Emulator) (during : Log ι) (port sent ended : Nat)
    (result : Except Error Reply) : Prop where
  /-- The first datagram that came in time is the answer. -/
  heard : ∀ bytes, firstBy (sent + emulator.patience) (during.datagrams port) = some bytes →
    Decoded bytes result
  /-- None came in time; either the request was refused or the patience ended. -/
  unheard : firstBy (sent + emulator.patience) (during.datagrams port) = none →
    Unheard emulator during port sent ended result

/-- The result of an exchange that failed in a step. -/
inductive Breaks (emulator : Emulator) (error : Os.Error) : Step → Except Error Reply → Prop where
  | unopened {step : Step} (hopens : step.opens = true) :
      Breaks emulator error step (.error (.transport error))
  | refused {step : Step} (hopens : step.opens = false) (hrefused : error = .connectionRefused) :
      Breaks emulator error step
        (.error (.notConnected ("emulator at " ++ emulator.address ++ " refused connection")))
  | lost {step : Step} (hopens : step.opens = false) (hother : error ≠ .connectionRefused) :
      Breaks emulator error step (.error (.transport error))

theorem Emulator.failed_breaks (emulator : Emulator) (error : Os.Error) {step : Step}
    (hopens : step.opens = false) :
    Breaks emulator error step (.error (emulator.failed error)) := by
  by_cases hrefused : error = .connectionRefused
  · have hfailed : emulator.failed error =
        .notConnected ("emulator at " ++ emulator.address ++ " refused connection") := by
      simp [failed, hrefused]
    rw [hfailed]
    exact .refused hopens hrefused
  · have hfailed : emulator.failed error = .transport error := by
      simp [failed, hrefused]
    rw [hfailed]
    exact .lost hopens hrefused

theorem Step.breaks (emulator : Emulator) (error : Os.Error) (step : Step) :
    Breaks emulator error step (emulator.exchange (step.wire error)).result := by
  cases step with
  | bind | connect => exact .unopened rfl
  | send => exact emulator.failed_breaks error rfl
  | receive =>
      have hresult : (emulator.exchange (Step.wire error .receive)).result =
          .error (emulator.failed error) := by
        simp [Step.wire, Emulator.exchange]
      rw [hresult]
      exact emulator.failed_breaks error rfl

section
variable {emulator : Emulator} {s : Socket ι} {log during : Log ι} {sent ended : Nat}

theorem Own.heard_ok (hown : Own log during s.id s.port) {time : Nat} {bytes : Bytes}
    (h : (time, .ok bytes) ∈ during.heard s.port) : bytes.length ≤ longestDatagram := by
  obtain ⟨e, he, hheard⟩ := Log.mem_heard h
  rcases Event.heard?_eq_some hheard with ⟨letter, other, rfl, hother, hport, hitem⟩ | ⟨_, _, hitem⟩
  · cases hitem
    exact (hown.letters time letter other he hport hother).2.1
  · cases hitem

theorem Own.heard_error (hown : Own log during s.id s.port) {time : Nat} {error : Os.Error}
    (h : (time, .error error) ∈ during.heard s.port) : (time, .refuse s.id s.port) ∈ during := by
  obtain ⟨e, he, hheard⟩ := Log.mem_heard h
  rcases Event.heard?_eq_some hheard with ⟨_, _, _, _, _, hitem⟩ | ⟨other, rfl, -⟩
  · cases hitem
  · rw [← hown.refusals time other he]
    exact he

theorem Socket.verdict_nothing (emulator : Emulator) (hsent : s.sent = some sent)
    (hinbox : s.inbox = during.heard s.port) (hnothing : s.inbox = [])
    (hended : sent + emulator.patience ≤ ended) :
    Verdict emulator during s.port sent ended (s.result emulator) := by
  have hnone : during.datagrams s.port = [] := by
    rw [Log.datagrams_eq, ← hinbox, hnothing]
    rfl
  rw [Socket.result_eq emulator hsent, hnothing]
  constructor
  case heard => simp [hnone, firstBy]
  case unheard => exact fun _ => .silent hended

theorem Socket.verdict_refused (emulator : Emulator) (hsent : s.sent = some sent)
    (hinbox : s.inbox = during.heard s.port) (hown : Own log during s.id s.port)
    (hclock : ∀ x ∈ during, x.1 ≤ ended) {time : Nat}
    (hrefused : s.inbox = [(time, .error .connectionRefused)]) :
    Verdict emulator during s.port sent ended (s.result emulator) := by
  have hnone : during.datagrams s.port = [] := by
    rw [Log.datagrams_eq, ← hinbox, hrefused]
    rfl
  have hmem : (time, .error .connectionRefused) ∈ during.heard s.port := by
    simp [← hinbox, hrefused]
  have hrefuses := hown.heard_error hmem
  rw [Socket.result_eq emulator hsent, hrefused]
  constructor
  case heard => simp [hnone, firstBy]
  case unheard =>
    intro _
    by_cases htime : sent + emulator.patience < time
    · have hended : time ≤ ended := hclock _ hrefuses
      simp only [List.head?_cons, htime, if_true]
      exact .silent (by omega)
    · simp only [List.head?_cons, htime, if_false, Emulator.failed, beq_self_eq_true, if_true]
      exact .refused hrefuses

theorem Socket.verdict_datagram (emulator : Emulator) (hsent : s.sent = some sent)
    (hinbox : s.inbox = during.heard s.port) (hown : Own log during s.id s.port)
    (hsorted : during.Pairwise (·.1 ≤ ·.1)) (hclock : ∀ x ∈ during, x.1 ≤ ended) {time : Nat}
    {bytes : Bytes} {rest : List (Nat × Except Os.Error Bytes)}
    (hfirst : s.inbox = (time, .ok bytes) :: rest) :
    Verdict emulator during s.port sent ended (s.result emulator) := by
  have hmem : (time, .ok bytes) ∈ during.heard s.port := by simp [← hinbox, hfirst]
  have hlen : bytes.length ≤ 65527 := hown.heard_ok hmem
  have hwhole : bytes.take largestDatagram = bytes := by
    rw [List.take_of_length_le]
    unfold largestDatagram
    omega
  obtain ⟨later, hdatagrams⟩ : ∃ later, during.datagrams s.port = (time, bytes) :: later := by
    rw [Log.datagrams_eq, ← hinbox, hfirst]
    exact ⟨_, rfl⟩
  have hordered := Log.datagrams_sorted hsorted s.port
  rw [hdatagrams] at hordered
  have hcons := firstBy_cons (sent + emulator.patience) hordered
  rw [← hdatagrams] at hcons
  rw [Socket.result_eq emulator hsent, hfirst]
  by_cases htime : time ≤ sent + emulator.patience
  · have hnot : ¬ sent + emulator.patience < time := by omega
    constructor
    case heard =>
      intro first h
      have hsame : bytes = first := by simpa [hcons, htime] using h
      subst hsame
      simp only [List.head?_cons, hnot, if_false, hwhole]
      exact Reply.decoded bytes
    case unheard => simp [hcons, htime]
  · have hlate : sent + emulator.patience < time := by omega
    constructor
    case heard => simp [hcons, htime]
    case unheard =>
      intro _
      obtain ⟨e, he, -⟩ := Log.mem_heard hmem
      have hended : time ≤ ended := hclock _ he
      simp only [List.head?_cons, hlate, if_true]
      exact .silent (by omega)

/-- What a socket holds when its exchange ends decides the result as told. -/
theorem Socket.verdict (emulator : Emulator) (hsent : s.sent = some sent)
    (hinbox : s.inbox = during.heard s.port) (hown : Own log during s.id s.port)
    (hsorted : during.Pairwise (·.1 ≤ ·.1)) (hclock : ∀ x ∈ during, x.1 ≤ ended)
    (hrefused : ∀ time error, (time, .error error) ∈ s.inbox →
      s.inbox = [(time, .error .connectionRefused)])
    (hwaited : s.inbox ≠ [] ∨ sent + emulator.patience ≤ ended) :
    Verdict emulator during s.port sent ended (s.result emulator) := by
  cases hfirst : s.inbox with
  | nil =>
      have hended : sent + emulator.patience ≤ ended := hwaited.resolve_left (absurd hfirst)
      exact Socket.verdict_nothing emulator hsent hinbox hfirst hended
  | cons x rest =>
      obtain ⟨time, item⟩ := x
      cases item with
      | ok bytes => exact Socket.verdict_datagram emulator hsent hinbox hown hsorted hclock hfirst
      | error error =>
          have hmem : (time, .error error) ∈ s.inbox := by simp [hfirst]
          exact Socket.verdict_refused emulator hsent hinbox hown hclock
            (hrefused time error hmem)

end

end WalletBridge.Device
