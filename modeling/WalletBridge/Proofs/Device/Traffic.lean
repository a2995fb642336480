import Mathlib.Data.List.Nodup
import WalletBridge.Device.Emulator

/-! # Datagrams under way

Any number of exchanges with the emulator go on side by side, each over a socket
of its own, and their events come in any order. What the emulator answers may
arrive late, in another order, more than once or never; others may send to the
ports of this host as well. A connected socket takes only what the emulator sent
to its port. A port is given to a socket only when no other socket has it and
nothing that belongs to an earlier one is still under way. Each step of an
exchange may fail, and sending fails whenever the request does not fit into a
packet.
-/

namespace WalletBridge.Device

open Text

variable {ι : Type}

/-- A datagram to a port of this host. -/
structure Letter (ι : Type) where
  /-- The exchange that the emulator answers with it; `none` if it is from anyone else. -/
  replyTo : Option ι
  port : Nat
  bytes : Bytes
deriving DecidableEq

def longestDatagram : Nat := 65527

/-- The longest request that can be sent. A packet of the older protocol has its own header within
the same 65535 bytes. -/
def Emulator.longestRequest (e : Emulator) : Nat :=
  if e.address.toList.head? = some '[' then longestDatagram else 65507

/-- The socket of an exchange, bound and connected. -/
structure Socket (ι : Type) where
  id : ι
  request : Request
  port : Nat
  /-- When the request was sent. -/
  sent : Option Nat := none
  /-- What arrived, and when, the first one first. -/
  inbox : List (Nat × Except Os.Error Bytes) := []

structure Errand (ι : Type) where
  id : ι
  port : Nat
  /-- Whether it reached the emulator, which may then answer it. -/
  reached : Bool := false
deriving DecidableEq

/-- A request as it was sent. -/
structure Outgoing (ι : Type) where
  id : ι
  port : Nat
  bytes : Bytes
deriving DecidableEq

/-- The sockets of this host, and what is under way. -/
structure Traffic (ι : Type) where
  sockets : List (Socket ι) := []
  errands : List (Errand ι) := []
  letters : List (Letter ι) := []

namespace Traffic

/-- What an exchange does with the network, one after the other. -/
inductive Step where
  | bind
  | connect
  | send
  | receive
deriving DecidableEq

namespace Step

def opens : Step → Bool
  | .bind | .connect => true
  | .send | .receive => false

def wire (error : Os.Error) : Step → Wire
  | .bind => { bind := .error error }
  | .connect => { connect := .error error }
  | .send => { send := .error error }
  | .receive => { receive := some (0, .error error) }

end Step

/-- What can happen next. -/
inductive Event (ι : Type) where
  /-- An exchange opens its socket and connects it to the emulator. -/
  | connect (id : ι) (request : Request) (port : Nat)
  | send (id : ι)
  /-- The request of an exchange reaches the emulator. -/
  | reach (id : ι)
  /-- Nobody listens where the request arrives, and the port that it came from is told so. -/
  | refuse (id : ι) (port : Nat)
  /-- The request of an exchange gets lost, or no answer to it will follow. -/
  | forget (id : ι)
  | post (letter : Letter ι)
  /-- A datagram arrives. The same one may arrive again. -/
  | arrive (letter : Letter ι)
  | lose (letter : Letter ι)
  /-- An exchange ends with its result. -/
  | finish (id : ι)
  /-- A step of an exchange fails, and the exchange ends with that. -/
  | fail (id : ι) (step : Step) (error : Os.Error)
  | drop (id : ι)

namespace Event

def opened? : Event ι → Option (Socket ι)
  | .connect id request port => some { id, request, port }
  | _ => none

def begun? : Event ι → Option ι
  | .connect id _ _ => some id
  | .fail id step _ => if step.opens then some id else none
  | _ => none

def sent? : Event ι → Option ι
  | .send id => some id
  | _ => none

def reached? : Event ι → Option ι
  | .reach id => some id
  | _ => none

def settled? : Event ι → Option ι
  | .refuse id _ => some id
  | .forget id => some id
  | _ => none

def posted? : Event ι → Option (Letter ι)
  | .post letter => some letter
  | _ => none

def lost? : Event ι → Option (Letter ι)
  | .lose letter => some letter
  | _ => none

def finished? : Event ι → Option ι
  | .finish id => some id
  | .fail id _ _ => some id
  | _ => none

def ended? : Event ι → Option ι
  | .finish id => some id
  | .fail id _ _ => some id
  | .drop id => some id
  | _ => none

def datagram? (port : Nat) : Event ι → Option Bytes
  | .arrive letter =>
    if letter.replyTo.isSome && letter.port == port then some letter.bytes else none
  | _ => none

def heard? (port : Nat) : Event ι → Option (Except Os.Error Bytes)
  | .refuse _ sender => if sender == port then some (.error .connectionRefused) else none
  | e => (e.datagram? port).map .ok

end Event

end Traffic

open Traffic

abbrev Log (ι : Type) := List (Nat × Event ι)

/-- What a socket at that port takes in during some events. -/
def Log.heard (log : Log ι) (port : Nat) : List (Nat × Except Os.Error Bytes) :=
  log.filterMap fun x => (x.2.heard? port).map (x.1, ·)

/-- The datagrams of the emulator that arrive at a port during some events. -/
def Log.datagrams (log : Log ι) (port : Nat) : List (Nat × Bytes) :=
  log.filterMap fun x => (x.2.datagram? port).map (x.1, ·)

theorem Log.filterMap_concat {β : Type} (log : Log ι) (f : Nat × Event ι → Option β)
    (x : Nat × Event ι) : (log ++ [x]).filterMap f = log.filterMap f ++ (f x).toList := by
  rw [List.filterMap_append]
  cases hx : f x <;> simp [hx]

theorem Log.heard_concat (log : Log ι) (port : Nat) (x : Nat × Event ι) :
    Log.heard (log ++ [x]) port =
      Log.heard log port ++ (x.2.heard? port).toList.map (x.1, ·) := by
  simp only [Log.heard, Log.filterMap_concat]
  cases x.2.heard? port <;> rfl

/-! ## What one event is -/

namespace Traffic.Event

variable {e : Event ι} {port : Nat}

theorem heard?_eq_some {item : Except Os.Error Bytes} (h : e.heard? port = some item) :
    (∃ letter id, e = .arrive letter ∧ letter.replyTo = some id ∧ letter.port = port ∧
      item = .ok letter.bytes) ∨
    ∃ id, e = .refuse id port ∧ item = .error .connectionRefused := by
  cases e with
  | refuse id sender =>
      simp only [heard?, Option.ite_none_right_eq_some, beq_iff_eq, Option.some.injEq] at h
      obtain ⟨rfl, rfl⟩ := h
      exact .inr ⟨id, rfl, rfl⟩
  | arrive letter =>
      simp only [heard?, datagram?, Option.map_eq_some_iff, Option.ite_none_right_eq_some,
        Bool.and_eq_true, beq_iff_eq, Option.some.injEq, Option.isSome_iff_exists] at h
      obtain ⟨_, ⟨⟨⟨id, hid⟩, hport⟩, rfl⟩, rfl⟩ := h
      exact .inl ⟨letter, id, rfl, hid, hport, rfl⟩
  | _ => cases h

theorem datagram?_eq (e : Event ι) (port : Nat) :
    e.datagram? port = (e.heard? port).bind Except.toOption := by
  cases e with
  | refuse id sender =>
      simp only [heard?, datagram?]
      split <;> rfl
  | arrive letter =>
      simp only [heard?, datagram?]
      split <;> rfl
  | _ => rfl

theorem opened?_eq_some {s : Socket ι} (h : e.opened? = some s) :
    e = .connect s.id s.request s.port ∧ s.sent = none ∧ s.inbox = [] := by
  cases e with
  | connect id request port =>
      cases h
      exact ⟨rfl, rfl, rfl⟩
  | _ => cases h

theorem sent?_eq_some {id : ι} (h : e.sent? = some id) : e = .send id := by
  cases e with
  | send other =>
      cases h
      rfl
  | _ => cases h

theorem posted?_eq_some {letter : Letter ι} (h : e.posted? = some letter) : e = .post letter := by
  cases e with
  | post other =>
      cases h
      rfl
  | _ => cases h

theorem finished?_eq_some {id : ι} (h : e.finished? = some id) :
    e = .finish id ∨ ∃ step error, e = .fail id step error := by
  cases e with
  | finish other =>
      cases h
      exact .inl rfl
  | fail other step error =>
      cases h
      exact .inr ⟨step, error, rfl⟩
  | _ => cases h

theorem ended?_of_finished? {id : ι} (h : e.finished? = some id) : e.ended? = some id := by
  rcases finished?_eq_some h with rfl | ⟨step, error, rfl⟩ <;> rfl

theorem begun?_of_opened? {s : Socket ι} (h : e.opened? = some s) : e.begun? = some s.id := by
  obtain ⟨rfl, -, -⟩ := opened?_eq_some h
  rfl

theorem begun?_eq_some {id : ι} (h : e.begun? = some id) :
    (∃ request port, e = .connect id request port) ∨
      ∃ step error, step.opens = true ∧ e = .fail id step error := by
  cases e with
  | connect other request port =>
      cases h
      exact .inl ⟨request, port, rfl⟩
  | fail other step error =>
      obtain ⟨hopens, hid⟩ := Option.ite_none_right_eq_some.mp h
      cases hid
      exact .inr ⟨step, error, hopens, rfl⟩
  | _ => cases h

end Traffic.Event

/-! ## Histories -/

section
variable [DecidableEq ι]

/-- The socket after an event. -/
def Socket.next (time : Nat) (e : Event ι) (s : Socket ι) : Socket ι :=
  { s with
    sent := if e.sent? = some s.id then some time else s.sent
    inbox := s.inbox ++ (e.heard? s.port).toList.map (time, ·) }

/-- What the exchange had of the network: a socket, and the first thing that arrived there. -/
def Socket.wire (s : Socket ι) : Wire where
  receive := do
    let sent ← s.sent
    let (time, item) ← s.inbox.head?
    return (time - sent, item)

def Socket.result (emulator : Emulator) (s : Socket ι) : Except Error Reply :=
  (emulator.exchange s.wire).result

def Socket.outgoing (s : Socket ι) : Outgoing ι where
  id := s.id
  port := s.port
  bytes := Emulator.datagram s.request

def Errand.next (e : Event ι) (x : Errand ι) : Errand ι :=
  { x with reached := x.reached || e.reached? == some x.id }

namespace Traffic

def next (time : Nat) (e : Event ι) (n : Traffic ι) : Traffic ι where
  sockets := (n.sockets.filter fun s => e.ended? != some s.id).map (·.next time e) ++
    e.opened?.toList
  errands := (n.errands.filter fun x => e.settled? != some x.id).map (·.next e) ++
    (n.sockets.filter fun s => e.sent? == some s.id).map fun s => { id := s.id, port := s.port }
  letters := n.letters.filter (fun l => e.lost? != some l) ++ e.posted?.toList

/-- No socket has the port, and nothing of an earlier one is under way. -/
structure Free (n : Traffic ι) (port : Nat) : Prop where
  sockets : ∀ s ∈ n.sockets, s.port ≠ port
  errands : ∀ x ∈ n.errands, x.port ≠ port
  letters : ∀ l ∈ n.letters, l.replyTo.isSome → l.port ≠ port

end Traffic

/-- The events so far, and what they led to. -/
structure Exchanges (ι : Type) where
  log : Log ι := []
  traffic : Traffic ι := {}
  /-- The datagrams that were sent to the emulator. -/
  outgoing : List (Outgoing ι) := []
  done : List (ι × Except Error Reply) := []

namespace Exchanges

def names (h : Exchanges ι) : List ι := h.log.filterMap (·.2.begun?)

def results (emulator : Emulator) (h : Exchanges ι) : Event ι → List (ι × Except Error Reply)
  | .finish id =>
    (h.traffic.sockets.filter fun s => s.id == id).map fun s => (s.id, s.result emulator)
  | .fail id step error => [(id, (emulator.exchange (step.wire error)).result)]
  | _ => []

def next (emulator : Emulator) (time : Nat) (e : Event ι) (h : Exchanges ι) : Exchanges ι where
  log := h.log ++ [(time, e)]
  traffic := h.traffic.next time e
  outgoing := h.outgoing ++
    (h.traffic.sockets.filter fun s => e.sent? == some s.id).map Socket.outgoing
  done := h.done ++ h.results emulator e

/-- The exchange is about to take the step. -/
def Stands (h : Exchanges ι) (id : ι) : Step → Prop
  | .bind | .connect => id ∉ h.names
  | .send => ∃ s ∈ h.traffic.sockets, s.id = id ∧ s.sent = none
  | .receive => ∃ s ∈ h.traffic.sockets, s.id = id ∧ s.sent.isSome

/-- What can happen next. An exchange waits until something arrives or its patience ends. -/
def Allows (emulator : Emulator) (time : Nat) (h : Exchanges ι) : Event ι → Prop
  | .connect id _ port => id ∉ h.names ∧ h.traffic.Free port
  | .send id => ∃ s ∈ h.traffic.sockets, s.id = id ∧ s.sent = none ∧
    (Emulator.datagram s.request).length ≤ emulator.longestRequest
  | .refuse id port => ⟨id, port, false⟩ ∈ h.traffic.errands
  | .post letter => letter.bytes.length ≤ longestDatagram ∧
    ∀ id ∈ letter.replyTo, ⟨id, letter.port, true⟩ ∈ h.traffic.errands
  | .arrive letter => letter ∈ h.traffic.letters
  | .finish id => ∃ s ∈ h.traffic.sockets, s.id = id ∧
    ∃ sent ∈ s.sent, s.inbox ≠ [] ∨ sent + emulator.patience ≤ time
  | .fail id step _ => h.Stands id step
  | .drop id => ∃ s ∈ h.traffic.sockets, s.id = id
  | .reach _ | .forget _ | .lose _ => True

/-- The histories that can come about. -/
inductive Reached (emulator : Emulator) : Exchanges ι → Prop where
  | start : Reached emulator {}
  | next {h : Exchanges ι} {time : Nat} {e : Event ι} (before : Reached emulator h)
      (clock : ∀ x ∈ h.log, x.1 ≤ time) (allowed : h.Allows emulator time e) :
      Reached emulator (h.next emulator time e)

end Exchanges

/-! ## The lists of the next state -/

section
variable {n : Traffic ι} {time : Nat} {e : Event ι}

@[simp] theorem Socket.next_id (s : Socket ι) : (s.next time e).id = s.id := rfl

@[simp] theorem Socket.next_port (s : Socket ι) : (s.next time e).port = s.port := rfl

@[simp] theorem Socket.next_request (s : Socket ι) : (s.next time e).request = s.request := rfl

@[simp] theorem Errand.next_id (x : Errand ι) : (x.next e).id = x.id := rfl

theorem Traffic.mem_sockets_next {s : Socket ι} : s ∈ (n.next time e).sockets ↔
    (∃ old ∈ n.sockets, e.ended? ≠ some old.id ∧ old.next time e = s) ∨ e.opened? = some s := by
  simp [Traffic.next, and_assoc]

theorem Traffic.mem_errands_next {x : Errand ι} : x ∈ (n.next time e).errands ↔
    (∃ old ∈ n.errands, e.settled? ≠ some old.id ∧ old.next e = x) ∨
      ∃ s ∈ n.sockets, e.sent? = some s.id ∧ ⟨s.id, s.port, false⟩ = x := by
  simp [Traffic.next, and_assoc]

theorem Traffic.mem_letters_next {l : Letter ι} : l ∈ (n.next time e).letters ↔
    (l ∈ n.letters ∧ e.lost? ≠ some l) ∨ e.posted? = some l := by
  simp [Traffic.next]

theorem Exchanges.names_next (emulator : Emulator) (h : Exchanges ι) :
    (h.next emulator time e).names = h.names ++ e.begun?.toList :=
  Log.filterMap_concat h.log (·.2.begun?) (time, e)

end

end

end WalletBridge.Device
