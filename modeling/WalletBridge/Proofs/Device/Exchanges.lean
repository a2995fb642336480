import WalletBridge.Proofs.Device.Apart
import WalletBridge.Proofs.Device.Datagram
import WalletBridge.Proofs.Device.Verdict

/-! # Exchanges do not mix

In every history of exchanges with the emulator, each one sends one datagram and
ends with what its own socket heard in time, unless a step of it fails; then it
ends with that, and has sent nothing before the last step. The invariant ties what
the sockets hold, what was sent and what was answered to the events so far.
-/

namespace WalletBridge.Device

open Text Traffic

variable {ι : Type}

/-- The part of a history that belongs to an exchange. -/
structure Course (ι : Type) where
  before : Log ι
  opened : Nat
  request : Request
  port : Nat
  /-- What happened while its socket was open. -/
  during : Log ι
  sent : Nat
  ended : Nat
  after : Log ι

/-- The exchange took its course from the opening of its socket to that result. -/
structure Course.Of (c : Course ι) (emulator : Emulator) (log : Log ι) (id : ι)
    (result : Except Error Reply) : Prop where
  log_eq : log = c.before ++ (c.opened, .connect id c.request c.port) ::
    (c.during ++ (c.ended, .finish id) :: c.after)
  sent : (c.sent, .send id) ∈ c.during
  own : Own log c.during id c.port
  verdict : Verdict emulator c.during c.port c.sent c.ended result

/-- The events since the opening of a socket tell what it holds. -/
def Told (log : Log ι) (s : Socket ι) : Prop :=
  ∃ (before : Log ι) (opened : Nat) (during : Log ι),
    log = before ++ (opened, .connect s.id s.request s.port) :: during ∧
    s.inbox = during.heard s.port ∧ (∀ sent ∈ s.sent, (sent, .send s.id) ∈ during) ∧
    Own log during s.id s.port

/-- The exchange ended because a step failed. Only one that could not receive had sent. -/
structure Exchanges.Failed (emulator : Emulator) (h : Exchanges ι) (d : ι × Except Error Reply)
    (step : Step) (error : Os.Error) : Prop where
  log : ∃ time, (time, .fail d.1 step error) ∈ h.log
  breaks : Breaks emulator error step d.2
  sent : d.1 ∈ h.outgoing.map (·.id) ↔ step = .receive

def Exchanges.Concluded (emulator : Emulator) (h : Exchanges ι) (d : ι × Except Error Reply) :
    Prop :=
  (∃ c : Course ι, c.Of emulator h.log d.1 d.2) ∨ ∃ step error, h.Failed emulator d step error

/-- The history is as its events tell. -/
structure Sound (emulator : Emulator) (h : Exchanges ι) : Prop where
  clock : h.log.Pairwise (·.1 ≤ ·.1)
  names : h.names.Nodup
  apart : Apart h.names h.traffic
  letters : ∀ l ∈ h.traffic.letters, l.replyTo.isSome →
    l.bytes.length ≤ longestDatagram ∧ ∃ posted, (posted, .post l) ∈ h.log
  told : ∀ s ∈ h.traffic.sockets, Told h.log s
  sends : h.outgoing.map (·.id) = h.log.filterMap (·.2.sent?)
  once : (h.outgoing.map (·.id)).Nodup
  unsent : ∀ s ∈ h.traffic.sockets, s.sent = none → s.id ∉ h.outgoing.map (·.id)
  outgoing : ∀ d ∈ h.outgoing, ∃ opened request, (opened, .connect d.id request d.port) ∈ h.log ∧
    d.bytes = Emulator.datagram request ∧ d.bytes.length ≤ emulator.longestRequest
  doneNames : ∀ d ∈ h.done, d.1 ∈ h.names
  results : h.done.map (·.1) = h.log.filterMap (·.2.finished?)
  single : (h.done.map (·.1)).Nodup
  undone : ∀ s ∈ h.traffic.sockets, s.id ∉ h.done.map (·.1)
  answers : ∀ d ∈ h.done, h.Concluded emulator d
  running : ∀ sent id, (sent, .send id) ∈ h.log → id ∉ h.log.filterMap (·.2.ended?) →
    ∃ s ∈ h.traffic.sockets, s.id = id ∧ s.sent = some sent

section
variable {emulator : Emulator} {h : Exchanges ι} {time : Nat} {e : Event ι} {s : Socket ι}
  {log during : Log ι} {id : ι} {result : Except Error Reply}

/-! ## Longer logs -/

theorem Own.mono {port : Nat} (hown : Own log during id port) (x : Nat × Event ι) :
    Own (log ++ [x]) during id port where
  letters := by
    intro time letter other harrives hport hreply
    obtain ⟨hid, hlen, posted, hposted⟩ := hown.letters time letter other harrives hport hreply
    exact ⟨hid, hlen, posted, List.mem_append_left _ hposted⟩
  refusals := hown.refusals

theorem Course.Of.mono {c : Course ι} (hc : c.Of emulator log id result) (x : Nat × Event ι) :
    { c with after := c.after ++ [x] }.Of emulator (log ++ [x]) id result where
  log_eq := by simp [hc.log_eq]
  sent := hc.sent
  own := hc.own.mono x
  verdict := hc.verdict

theorem Log.mem_opened {opened port : Nat} {request : Request}
    (hopened : (opened, .connect id request port) ∈ log) :
    ({ id, request, port } : Socket ι) ∈ log.filterMap (·.2.opened?) :=
  List.mem_filterMap.mpr ⟨_, hopened, rfl⟩

theorem Exchanges.mem_names {opened port : Nat} {request : Request}
    (hopened : (opened, .connect id request port) ∈ h.log) : id ∈ h.names :=
  List.mem_filterMap.mpr ⟨_, hopened, rfl⟩

theorem Log.opened_sublist (log : Log ι) :
    ((log.filterMap (·.2.opened?)).map (·.id)).Sublist (log.filterMap (·.2.begun?)) := by
  induction log with
  | nil => exact List.nil_sublist _
  | cons x log ih =>
      cases hopens : x.2.opened? with
      | none =>
          cases hbegins : x.2.begun? with
          | none => simpa [List.filterMap_cons, hopens, hbegins] using ih
          | some id => simpa [List.filterMap_cons, hopens, hbegins] using ih.cons id
      | some s =>
          have hbegins := Event.begun?_of_opened? hopens
          simpa [List.filterMap_cons, hopens, hbegins] using ih.cons_cons s.id

theorem Exchanges.opened_once (hnames : h.names.Nodup) {opened again port other : Nat}
    {request second : Request} (hfirst : (opened, .connect id request port) ∈ h.log)
    (hsecond : (again, .connect id second other) ∈ h.log) : request = second ∧ port = other := by
  have hopened := h.log.opened_sublist.nodup hnames
  have hsame :=
    List.inj_on_of_nodup_map hopened (Log.mem_opened hfirst) (Log.mem_opened hsecond) rfl
  exact ⟨congrArg Socket.request hsame, congrArg Socket.port hsame⟩

theorem Course.Of.opened_mem {c : Course ι} (hc : c.Of emulator log id result) :
    (c.opened, .connect id c.request c.port) ∈ log := by simp [hc.log_eq]

theorem Told.opened_mem (hs : Told log s) :
    ∃ opened, (opened, .connect s.id s.request s.port) ∈ log := by
  obtain ⟨before, opened, during, rfl, -⟩ := hs
  exact ⟨opened, by simp⟩

/-- What a live socket takes in is its own, also by the log. -/
theorem Sound.own_next (hh : Sound emulator h) (hallowed : h.Allows emulator time e)
    (hs : s ∈ h.traffic.sockets) (hown : Own h.log during s.id s.port) :
    Own (h.log ++ [(time, e)]) (during ++ [(time, e)]) s.id s.port where
  letters := by
    intro arrived letter other harrives hport hreply
    rcases List.mem_append.mp harrives with hold | hnew
    · exact (hown.mono _).letters arrived letter other hold hport hreply
    · cases List.mem_singleton.mp hnew
      have hletter : letter ∈ h.traffic.letters := hallowed
      have hid := hh.apart.letterPorts letter hletter other hreply s hs hport.symm
      obtain ⟨hlen, posted, hposted⟩ := hh.letters letter hletter (by simp [hreply])
      exact ⟨hid.symm, hlen, posted, List.mem_append_left _ hposted⟩
  refusals := by
    intro refused other hrefuses
    rcases List.mem_append.mp hrefuses with hold | hnew
    · exact hown.refusals refused other hold
    · cases List.mem_singleton.mp hnew
      exact (hh.apart.errandPorts _ hallowed s hs rfl).symm

theorem Sound.course_of_finish (hh : Sound emulator h) (hclock : ∀ x ∈ h.log, x.1 ≤ time)
    (hs : s ∈ h.traffic.sockets)
    (hwaited : ∃ sent ∈ s.sent, s.inbox ≠ [] ∨ sent + emulator.patience ≤ time) :
    ∃ c : Course ι, c.Of emulator (h.log ++ [(time, .finish s.id)]) s.id (s.result emulator) := by
  obtain ⟨before, opened, during, hlog, hinbox, hsent, hown⟩ := hh.told s hs
  obtain ⟨sent, hmem, hwaited⟩ := hwaited
  have hsub : during.Sublist h.log := by
    rw [hlog]
    exact (List.sublist_cons_self _ _).trans (List.sublist_append_right _ _)
  have hended : ∀ x ∈ during, x.1 ≤ time := fun x hx => hclock x (hsub.subset hx)
  have hrefused : ∀ arrived error, (arrived, .error error) ∈ s.inbox →
      s.inbox = [(arrived, .error .connectionRefused)] :=
    fun arrived error herror => ((hh.apart.stages s hs).refused arrived error herror).2
  refine ⟨⟨before, opened, s.request, s.port, during, sent, time, []⟩, ?_⟩
  constructor
  case log_eq => simp [hlog]
  case sent => exact hsent sent hmem
  case own => exact hown.mono _
  case verdict =>
    exact Socket.verdict emulator hmem hinbox hown (hh.clock.sublist hsub) hended hrefused hwaited

theorem Sound.outgoing_named (hh : Sound emulator h) (hid : id ∈ h.outgoing.map (·.id)) :
    id ∈ h.names := by
  obtain ⟨d, hd, rfl⟩ := List.mem_map.mp hid
  obtain ⟨opened, request, hopened, -⟩ := hh.outgoing d hd
  exact Exchanges.mem_names hopened

theorem Sound.done_named (hh : Sound emulator h) (hid : id ∈ h.done.map (·.1)) : id ∈ h.names := by
  obtain ⟨d, hd, rfl⟩ := List.mem_map.mp hid
  exact hh.doneNames d hd

/-- An exchange that fails in a step has sent if that is the last one. -/
theorem Sound.sent_iff (hh : Sound emulator h) {step : Step} (hstands : h.Stands id step) :
    id ∈ h.names ∧ (id ∈ h.outgoing.map (·.id) ↔ step = .receive) ∨
      step.opens = true ∧ id ∉ h.names := by
  cases step with
  | bind | connect => exact .inr ⟨rfl, hstands⟩
  | send =>
      obtain ⟨s, hs, rfl, hunsent⟩ := hstands
      have hnot := hh.unsent s hs hunsent
      exact .inl ⟨hh.apart.socketNames s hs, by simp [hnot]⟩
  | receive =>
      obtain ⟨s, hs, rfl, hsent⟩ := hstands
      obtain ⟨sent, hsent⟩ := Option.isSome_iff_exists.mp hsent
      obtain ⟨before, opened, during, hlog, -, hsends, -⟩ := hh.told s hs
      have hout : s.id ∈ h.outgoing.map (·.id) := by
        rw [hh.sends]
        refine List.mem_filterMap.mpr ⟨(sent, .send s.id), ?_, rfl⟩
        rw [hlog]
        simp [hsends sent hsent]
      exact .inl ⟨hh.apart.socketNames s hs, by simp [hout]⟩

theorem Sound.undone_of_stands (hh : Sound emulator h) {step : Step} (hstands : h.Stands id step) :
    id ∉ h.done.map (·.1) := by
  cases step with
  | bind | connect => exact fun hid => hstands (hh.done_named hid)
  | send | receive =>
      obtain ⟨s, hs, rfl, -⟩ := hstands
      exact hh.undone s hs

theorem Sound.start : Sound emulator ({} : Exchanges ι) := by
  constructor <;> first | exact Apart.start | simp [Exchanges.names]

variable [DecidableEq ι]

/-! ## What one event adds -/

theorem filter_key_eq {α κ : Type} [DecidableEq κ] {l : List α} {key : α → κ}
    (hl : (l.map key).Nodup) {a : α} (ha : a ∈ l) : l.filter (fun x => key x == key a) = [a] := by
  induction l with
  | nil => cases ha
  | cons b rest ih =>
      obtain ⟨hnew, hrest⟩ := List.nodup_cons.mp hl
      cases ha with
      | head =>
          have hnone : rest.filter (fun x => key x == key a) = [] := by
            rw [List.filter_eq_nil_iff]
            intro x hx heq
            exact hnew (beq_iff_eq.mp heq ▸ List.mem_map_of_mem hx)
          rw [List.filter_cons_of_pos (by simp), hnone]
      | tail _ hmem =>
          have hne : key b ≠ key a := fun heq => hnew (heq ▸ List.mem_map_of_mem hmem)
          rw [List.filter_cons_of_neg (by simpa using hne), ih hrest hmem]

theorem Apart.filter_owner {names : List ι} {n : Traffic ι} (hn : Apart names n)
    (hs : s ∈ n.sockets) : n.sockets.filter (fun t => some s.id == some t.id) = [s] := by
  rw [← filter_key_eq hn.ids hs]
  refine List.filter_congr fun t _ => ?_
  rw [Option.some_beq_some, Bool.beq_eq_decide_eq, Bool.beq_eq_decide_eq]
  exact decide_eq_decide.mpr eq_comm

theorem Exchanges.outgoing_next (hn : Apart h.names h.traffic)
    (hallowed : h.Allows emulator time e) :
    (e.sent? = none ∧ (h.next emulator time e).outgoing = h.outgoing) ∨
    ∃ s ∈ h.traffic.sockets, s.sent = none ∧
      (Emulator.datagram s.request).length ≤ emulator.longestRequest ∧ e.sent? = some s.id ∧
      (h.next emulator time e).outgoing = h.outgoing ++ [s.outgoing] := by
  cases hsends : e.sent? with
  | none => exact .inl ⟨rfl, by simp [Exchanges.next, hsends]⟩
  | some id =>
      cases Event.sent?_eq_some hsends
      obtain ⟨s, hs, rfl, hunsent, hfits⟩ := hallowed
      refine .inr ⟨s, hs, hunsent, hfits, rfl, ?_⟩
      simp only [Exchanges.next, hsends, hn.filter_owner hs, List.map_cons, List.map_nil]

theorem Exchanges.results_eq (hn : Apart h.names h.traffic) (hallowed : h.Allows emulator time e) :
    (e.finished? = none ∧ h.results emulator e = []) ∨
    (∃ s ∈ h.traffic.sockets, e = .finish s.id ∧
      (∃ sent ∈ s.sent, s.inbox ≠ [] ∨ sent + emulator.patience ≤ time) ∧
      h.results emulator e = [(s.id, s.result emulator)]) ∨
    ∃ id step error, e = .fail id step error ∧ h.Stands id step ∧
      h.results emulator e = [(id, (emulator.exchange (step.wire error)).result)] := by
  cases e with
  | finish id =>
      obtain ⟨s, hs, rfl, hwaited⟩ := hallowed
      refine .inr (.inl ⟨s, hs, rfl, hwaited, ?_⟩)
      simp only [Exchanges.results, filter_key_eq hn.ids hs, List.map_cons, List.map_nil]
  | fail id step error => exact .inr (.inr ⟨id, step, error, rfl, hallowed, rfl⟩)
  | _ => exact .inl ⟨rfl, rfl⟩

/-! ## One step -/

namespace Sound

theorem told_next (hh : Sound emulator h) (hallowed : h.Allows emulator time e)
    (hs : s ∈ (h.traffic.next time e).sockets) : Told (h.log ++ [(time, e)]) s := by
  rcases mem_sockets_next.mp hs with ⟨old, hold, -, rfl⟩ | hopens
  · obtain ⟨before, opened, during, hlog, hinbox, hsent, hown⟩ := hh.told old hold
    refine ⟨before, opened, during ++ [(time, e)], by simp [hlog], ?_, ?_, ?_⟩
    · rw [Log.heard_concat]
      simp [Socket.next, hinbox]
    · intro sent hmem
      by_cases hsends : e.sent? = some old.id
      · have hnow : time = sent := by simpa [Socket.next, hsends] using hmem
        cases Event.sent?_eq_some hsends
        simp [hnow]
      · have hbefore : sent ∈ old.sent := by simpa [Socket.next, hsends] using hmem
        exact List.mem_append_left _ (hsent sent hbefore)
    · -- the socket of the next state has the name and the port of the one before
      have howned := hh.own_next hallowed hold hown
      exact howned
  · obtain ⟨rfl, hunsent, hinbox⟩ := Event.opened?_eq_some hopens
    refine ⟨h.log, time, [], rfl, hinbox, by simp [hunsent], ?_⟩
    constructor <;> simp

theorem letters_next (hh : Sound emulator h) (hallowed : h.Allows emulator time e)
    {l : Letter ι} (hl : l ∈ (h.traffic.next time e).letters) (hreply : l.replyTo.isSome) :
    l.bytes.length ≤ longestDatagram ∧ ∃ posted, (posted, .post l) ∈ h.log ++ [(time, e)] := by
  rcases mem_letters_next.mp hl with ⟨hold, -⟩ | hposts
  · obtain ⟨hlen, posted, hposted⟩ := hh.letters l hold hreply
    exact ⟨hlen, posted, List.mem_append_left _ hposted⟩
  · have hlen := (hallowed.posted hposts).1
    cases Event.posted?_eq_some hposts
    exact ⟨hlen, time, by simp⟩

theorem names_next (hh : Sound emulator h) (hallowed : h.Allows emulator time e) :
    (h.next emulator time e).names.Nodup := by
  rw [Exchanges.names_next]
  cases hbegins : e.begun? with
  | none => simpa using hh.names
  | some id => exact nodup_snoc hh.names (hallowed.begun hbegins)

/-- What an exchange ended with stays as it was, since only a live one sends. -/
theorem concluded_next (hh : Sound emulator h) (hallowed : h.Allows emulator time e)
    {d : ι × Except Error Reply} (hd : d ∈ h.done) :
    (h.next emulator time e).Concluded emulator d := by
  rcases hh.answers d hd with ⟨c, hc⟩ | ⟨step, error, hfailed⟩
  · exact .inl ⟨_, hc.mono _⟩
  · refine .inr ⟨step, error, ?_⟩
    obtain ⟨failed, hlog⟩ := hfailed.log
    constructor
    case log => exact ⟨failed, List.mem_append_left _ hlog⟩
    case breaks => exact hfailed.breaks
    case sent =>
      rw [← hfailed.sent]
      rcases Exchanges.outgoing_next hh.apart hallowed with ⟨-, hsame⟩ | ⟨s, hs, -, -, -, hsent⟩
      · rw [hsame]
      · have hother : d.1 ≠ s.id := by
          intro hid
          exact hh.undone s hs (hid ▸ List.mem_map_of_mem hd)
        simp [hsent, Socket.outgoing, hother]

theorem failed_next (hh : Sound emulator h) {step : Step} {error : Os.Error}
    (hstands : h.Stands id step) :
    (h.next emulator time (.fail id step error)).Failed emulator
      (id, (emulator.exchange (step.wire error)).result) step error := by
  have hsame : (h.next emulator time (.fail id step error)).outgoing = h.outgoing := by
    simp [Exchanges.next, Event.sent?]
  constructor
  case log => exact ⟨time, by simp [Exchanges.next]⟩
  case breaks => exact Step.breaks emulator error step
  case sent =>
    rw [hsame]
    rcases hh.sent_iff hstands with ⟨-, hsent⟩ | ⟨hopens, hnew⟩
    · exact hsent
    · have hnot : id ∉ h.outgoing.map (·.id) := fun hid => hnew (hh.outgoing_named hid)
      have hstep : step ≠ .receive := by
        intro hstep
        rw [hstep] at hopens
        cases hopens
      simp [hnot, hstep]

theorem named_of_stands (hh : Sound emulator h) {step : Step} {error : Os.Error}
    (hstands : h.Stands id step) : id ∈ (h.next emulator time (.fail id step error)).names := by
  rw [Exchanges.names_next, List.mem_append]
  cases step with
  | bind | connect => exact .inr (List.mem_singleton_self id)
  | send | receive =>
      obtain ⟨s, hs, rfl, -⟩ := hstands
      exact .inl (hh.apart.socketNames s hs)

theorem done_next (hh : Sound emulator h) (hclock : ∀ x ∈ h.log, x.1 ≤ time)
    (hallowed : h.Allows emulator time e) :
    (e.finished? = none ∧ (h.next emulator time e).done = h.done) ∨
    ∃ d, e.finished? = some d.1 ∧ d.1 ∉ h.done.map (·.1) ∧
      d.1 ∈ (h.next emulator time e).names ∧ (h.next emulator time e).Concluded emulator d ∧
      (h.next emulator time e).done = h.done ++ [d] := by
  rcases Exchanges.results_eq hh.apart hallowed with
    ⟨he, hresults⟩ | ⟨s, hs, rfl, hwaited, hresults⟩ | ⟨id, step, error, rfl, hstands, hresults⟩
  · exact .inl ⟨he, by simp [Exchanges.next, hresults]⟩
  · have hnamed : s.id ∈ (h.next emulator time (.finish s.id)).names := by
      rw [Exchanges.names_next]
      exact List.mem_append_left _ (hh.apart.socketNames s hs)
    have hends :
        (h.next emulator time (.finish s.id)).Concluded emulator (s.id, s.result emulator) :=
      .inl (hh.course_of_finish hclock hs hwaited)
    exact .inr ⟨_, rfl, hh.undone s hs, hnamed, hends, congrArg (h.done ++ ·) hresults⟩
  · exact .inr ⟨_, rfl, hh.undone_of_stands hstands, hh.named_of_stands hstands,
      .inr ⟨step, error, hh.failed_next hstands⟩, congrArg (h.done ++ ·) hresults⟩

/-- Whatever holds of the old results and of a new one holds of all of the next history. -/
theorem forall_done_next (hh : Sound emulator h) (hclock : ∀ x ∈ h.log, x.1 ≤ time)
    (hallowed : h.Allows emulator time e) {P : ι × Except Error Reply → Prop}
    (hold : ∀ d ∈ h.done, P d)
    (hnew : ∀ d, d.1 ∈ (h.next emulator time e).names →
      (h.next emulator time e).Concluded emulator d → P d) :
    ∀ d ∈ (h.next emulator time e).done, P d := by
  intro d hd
  rcases hh.done_next hclock hallowed with ⟨-, hsame⟩ | ⟨last, -, -, hnamed, hends, hdone⟩
  · rw [hsame] at hd
    exact hold d hd
  · rw [hdone, List.mem_append, List.mem_singleton] at hd
    rcases hd with hd | rfl
    · exact hold d hd
    · exact hnew d hnamed hends

theorem once_next (hh : Sound emulator h) (hallowed : h.Allows emulator time e) :
    ((h.next emulator time e).outgoing.map (·.id)).Nodup := by
  rcases Exchanges.outgoing_next hh.apart hallowed with ⟨-, hsame⟩ | ⟨s, hs, hunsent, -, -, hsent⟩
  · rw [hsame]
    exact hh.once
  · rw [hsent, List.map_append]
    exact nodup_snoc hh.once (hh.unsent s hs hunsent)

theorem unsent_next (hh : Sound emulator h) (hallowed : h.Allows emulator time e)
    (hs : s ∈ (h.traffic.next time e).sockets) (hunsent : s.sent = none) :
    s.id ∉ (h.next emulator time e).outgoing.map (·.id) := by
  have hother : s.id ∉ h.outgoing.map (·.id) ∧ e.sent? ≠ some s.id := by
    rcases mem_sockets_next.mp hs with ⟨old, hold, -, rfl⟩ | hopens
    · by_cases hsends : e.sent? = some old.id
      · simp [Socket.next, hsends] at hunsent
      · have hbefore : old.sent = none := by simpa [Socket.next, hsends] using hunsent
        exact ⟨hh.unsent old hold hbefore, hsends⟩
    · refine ⟨fun hid => (hallowed.opened hopens).1 (hh.outgoing_named hid), ?_⟩
      obtain ⟨he, -, -⟩ := Event.opened?_eq_some hopens
      simp [he, Event.sent?]
  rcases Exchanges.outgoing_next hh.apart hallowed with ⟨-, hsame⟩ | ⟨t, -, -, -, hsends, hsent⟩
  · rw [hsame]
    exact hother.1
  · intro hid
    rw [hsent, List.map_append, List.mem_append] at hid
    rcases hid with hid | hid
    · exact hother.1 hid
    · have hsame : s.id = t.id := by simpa [Socket.outgoing] using hid
      exact hother.2 (hsame ▸ hsends)

theorem outgoing_next (hh : Sound emulator h) (hallowed : h.Allows emulator time e) :
    ∀ d ∈ (h.next emulator time e).outgoing, ∃ opened request,
      (opened, .connect d.id request d.port) ∈ h.log ++ [(time, e)] ∧
        d.bytes = Emulator.datagram request ∧ d.bytes.length ≤ emulator.longestRequest := by
  have hold : ∀ d ∈ h.outgoing, ∃ opened request,
      (opened, .connect d.id request d.port) ∈ h.log ++ [(time, e)] ∧
        d.bytes = Emulator.datagram request ∧ d.bytes.length ≤ emulator.longestRequest := by
    intro d hd
    obtain ⟨opened, request, hopened, hbytes⟩ := hh.outgoing d hd
    exact ⟨opened, request, List.mem_append_left _ hopened, hbytes⟩
  rcases Exchanges.outgoing_next hh.apart hallowed with ⟨-, hsame⟩ | ⟨s, hs, -, hfits, -, hsent⟩
  · rw [hsame]
    exact hold
  · intro d hd
    rw [hsent, List.mem_append, List.mem_singleton] at hd
    rcases hd with hd | rfl
    · exact hold d hd
    · obtain ⟨opened, hopened⟩ := (hh.told s hs).opened_mem
      exact ⟨opened, s.request, List.mem_append_left _ hopened, rfl, hfits⟩

theorem single_next (hh : Sound emulator h) (hclock : ∀ x ∈ h.log, x.1 ≤ time)
    (hallowed : h.Allows emulator time e) : ((h.next emulator time e).done.map (·.1)).Nodup := by
  rcases hh.done_next hclock hallowed with ⟨-, hsame⟩ | ⟨d, -, hundone, -, -, hdone⟩
  · rw [hsame]
    exact hh.single
  · rw [hdone, List.map_append]
    exact nodup_snoc hh.single hundone

theorem undone_next (hh : Sound emulator h) (hclock : ∀ x ∈ h.log, x.1 ≤ time)
    (hallowed : h.Allows emulator time e) (hs : s ∈ (h.traffic.next time e).sockets) :
    s.id ∉ (h.next emulator time e).done.map (·.1) := by
  have hother : s.id ∉ h.done.map (·.1) ∧ e.ended? ≠ some s.id := by
    rcases mem_sockets_next.mp hs with ⟨old, hold, hended, rfl⟩ | hopens
    · exact ⟨hh.undone old hold, hended⟩
    · refine ⟨fun hid => (hallowed.opened hopens).1 (hh.done_named hid), ?_⟩
      obtain ⟨he, -, -⟩ := Event.opened?_eq_some hopens
      simp [he, Event.ended?]
  rcases hh.done_next hclock hallowed with ⟨-, hsame⟩ | ⟨d, he, -, -, -, hdone⟩
  · rw [hsame]
    exact hother.1
  · intro hid
    rw [hdone, List.map_append, List.mem_append] at hid
    rcases hid with hid | hid
    · exact hother.1 hid
    · have hsame : s.id = d.1 := by simpa using hid
      exact hother.2 (hsame ▸ Event.ended?_of_finished? he)

theorem running_next (hh : Sound emulator h) (hallowed : h.Allows emulator time e) {sent : Nat}
    (hsent : (sent, .send id) ∈ h.log ++ [(time, e)])
    (hended : id ∉ (h.log ++ [(time, e)]).filterMap (·.2.ended?)) :
    ∃ s ∈ (h.traffic.next time e).sockets, s.id = id ∧ s.sent = some sent := by
  rw [List.filterMap_append, List.mem_append, not_or] at hended
  have hstays : e.ended? ≠ some id := by
    intro he
    exact hended.2 (List.mem_filterMap.mpr ⟨_, List.mem_singleton_self _, he⟩)
  rcases List.mem_append.mp hsent with hold | hnew
  · obtain ⟨s, hs, rfl, hbefore⟩ := hh.running sent id hold hended.1
    have hsends : e.sent? ≠ some s.id := by
      intro hsends
      rw [hallowed.unsent hh.apart hs hsends] at hbefore
      cases hbefore
    refine ⟨s.next time e, mem_sockets_next.mpr (.inl ⟨s, hs, hstays, rfl⟩), rfl, ?_⟩
    simp [Socket.next, hsends, hbefore]
  · cases List.mem_singleton.mp hnew
    obtain ⟨s, hs, rfl, -⟩ := hallowed
    refine ⟨s.next time (.send s.id), mem_sockets_next.mpr (.inl ⟨s, hs, hstays, rfl⟩), rfl, ?_⟩
    simp [Socket.next, Event.sent?]

theorem next (hh : Sound emulator h) (hclock : ∀ x ∈ h.log, x.1 ≤ time)
    (hallowed : h.Allows emulator time e) : Sound emulator (h.next emulator time e) where
  clock := by
    have hlast : ∀ x ∈ h.log, ∀ y ∈ [(time, e)], x.1 ≤ y.1 := by
      intro x hx y hy
      rw [List.mem_singleton.mp hy]
      exact hclock x hx
    exact List.pairwise_append.mpr ⟨hh.clock, List.pairwise_singleton _ _, hlast⟩
  names := hh.names_next hallowed
  apart := hh.apart.next hallowed
  letters := fun _ hl hreply => hh.letters_next hallowed hl hreply
  told := fun _ hs => hh.told_next hallowed hs
  sends := by
    show _ = (h.log ++ [(time, e)]).filterMap (·.2.sent?)
    rw [Log.filterMap_concat, ← hh.sends]
    rcases Exchanges.outgoing_next hh.apart hallowed with ⟨he, hsame⟩ | ⟨s, -, -, -, he, hsent⟩
    · simp [hsame, he]
    · simp [hsent, he, Socket.outgoing]
  once := hh.once_next hallowed
  unsent := fun _ hs hunsent => hh.unsent_next hallowed hs hunsent
  outgoing := hh.outgoing_next hallowed
  doneNames := by
    refine hh.forall_done_next hclock hallowed ?_ fun _ hnamed _ => hnamed
    intro d hd
    rw [Exchanges.names_next]
    exact List.mem_append_left _ (hh.doneNames d hd)
  results := by
    show _ = (h.log ++ [(time, e)]).filterMap (·.2.finished?)
    rw [Log.filterMap_concat, ← hh.results]
    rcases hh.done_next hclock hallowed with ⟨he, hsame⟩ | ⟨d, he, -, -, -, hdone⟩
    · simp [hsame, he]
    · simp [hdone, he]
  single := hh.single_next hclock hallowed
  undone := fun _ hs => hh.undone_next hclock hallowed hs
  answers := by
    refine hh.forall_done_next hclock hallowed ?_ fun _ _ hends => hends
    exact fun _ hd => hh.concluded_next hallowed hd
  running := fun _ _ hsent hended => hh.running_next hallowed hsent hended

end Sound

theorem Exchanges.Reached.sound (hreached : h.Reached emulator) : Sound emulator h := by
  induction hreached with
  | start => exact Sound.start
  | next before clock allowed ih => exact ih.next clock allowed

/-! ## Whole histories -/

/-- Each exchange sends one datagram and ends with what its own socket heard in time, unless a step
of it fails. -/
structure Exchanges.Unmixed (emulator : Emulator) (h : Exchanges ι) : Prop where
  names : h.names.Nodup
  /-- Every sending is one datagram, the request as JSON, from the exchange's own port. -/
  sends : h.outgoing.map (·.id) = h.log.filterMap (·.2.sent?)
  once : (h.outgoing.map (·.id)).Nodup
  datagrams : ∀ d ∈ h.outgoing, ∃ opened request,
    (opened, .connect d.id request d.port) ∈ h.log ∧ d.bytes = Emulator.datagram request ∧
      d.bytes.length ≤ emulator.longestRequest ∧
      (request.Bounded → Json.decode Request.codec d.bytes = .ok request)
  /-- Every end gives one result, and no exchange has another. -/
  results : h.done.map (·.1) = h.log.filterMap (·.2.finished?)
  single : (h.done.map (·.1)).Nodup
  answers : ∀ d ∈ h.done,
    (∃ c : Course ι, c.Of emulator h.log d.1 d.2 ∧
      h.outgoing.filter (·.id == d.1) = [⟨d.1, c.port, Emulator.datagram c.request⟩]) ∨
    ∃ step error, h.Failed emulator d step error
  /-- An exchange that sent and has not ended can end when its patience does. -/
  ends : ∀ sent id, (sent, .send id) ∈ h.log → id ∉ h.log.filterMap (·.2.ended?) →
    ∀ time, sent + emulator.patience ≤ time → h.Allows emulator time (.finish id)

theorem Sound.outgoing_of_course (hh : Sound emulator h) {c : Course ι}
    (hc : c.Of emulator h.log id result) :
    h.outgoing.filter (·.id == id) = [⟨id, c.port, Emulator.datagram c.request⟩] := by
  have hsent : id ∈ h.outgoing.map (·.id) := by
    rw [hh.sends]
    refine List.mem_filterMap.mpr ⟨(c.sent, .send id), ?_, rfl⟩
    rw [hc.log_eq]
    simp [hc.sent]
  obtain ⟨out, hout, rfl⟩ := List.mem_map.mp hsent
  obtain ⟨opened, request, hopened, hbytes, -⟩ := hh.outgoing out hout
  obtain ⟨hrequest, hport⟩ := Exchanges.opened_once hh.names hopened hc.opened_mem
  have hout_eq : out = ⟨out.id, c.port, Emulator.datagram c.request⟩ := by
    rw [← hport, ← hrequest, ← hbytes]
  rw [filter_key_eq hh.once hout, ← hout_eq]

theorem Sound.unmixed (hh : Sound emulator h) : h.Unmixed emulator where
  names := hh.names
  sends := hh.sends
  once := hh.once
  datagrams := by
    intro d hd
    obtain ⟨opened, request, hopened, hbytes, hfits⟩ := hh.outgoing d hd
    refine ⟨opened, request, hopened, hbytes, hfits, fun hbounded => ?_⟩
    rw [hbytes]
    exact Request.decode_datagram hbounded
  results := hh.results
  single := hh.single
  answers := by
    intro d hd
    rcases hh.answers d hd with ⟨c, hc⟩ | hfailed
    · exact .inl ⟨c, hc, hh.outgoing_of_course hc⟩
    · exact .inr hfailed
  ends := by
    intro sent id hsent hended time htime
    obtain ⟨s, hs, hid, hlive⟩ := hh.running sent id hsent hended
    exact ⟨s, hs, hid, sent, hlive, .inr htime⟩

/-- However exchanges with the emulator overlap, whichever steps fail, and whatever becomes of
their datagrams, they do not mix. -/
theorem exchanges_unmixed (hreached : h.Reached emulator) : h.Unmixed emulator :=
  hreached.sound.unmixed

end

/-- A cancellation overlaps a signing whose answer comes after its patience ended; that answer
arrives while the cancellation still waits, and nobody takes it. The answer to a third request says
nothing, and a fourth is not sent because the network is gone. -/
theorem exchanges_unmixed_late :
    let late : Letter Nat := ⟨some 0, 50000, Json.encode Reply.codec (.signatures ["b"])⟩
    let reply : Letter Nat := ⟨some 1, 50001, Json.encode Reply.codec (.success none)⟩
    let empty : Letter Nat := ⟨some 2, 50002, utf8 "\x7b\x7d"⟩
    let h : Exchanges Nat :=
      ([(0, .connect 0 (.signMessage 0 "a") 50000), (0, .send 0), (1, .reach 0),
        (10, .connect 1 .cancel 50001), (10, .send 1), (11, .reach 1), (5000, .finish 0),
        (5001, .post late), (5002, .arrive late), (5003, .post reply), (5004, .arrive reply),
        (5005, .finish 1), (5006, .connect 2 .ping 50002), (5006, .send 2), (5007, .reach 2),
        (5008, .post empty), (5009, .arrive empty), (5009, .finish 2),
        (5010, .connect 3 .wipe 50003), (5010, .fail 3 .send .networkUnreachable)] :
        Log Nat).foldl (fun h x => h.next {} x.1 x.2) {}
    h.done = [(0, .error (Emulator.silent {})), (1, .ok (.success none)),
      (2, .error (.protocol "missing field `kind` at line 1 column 2")),
      (3, .error (.transport .networkUnreachable))] ∧ h.outgoing.map (·.id) = [0, 1, 2] ∧
      h.Unmixed {} := by
  intro late reply empty h
  refine ⟨by decide +kernel, by decide +kernel, exchanges_unmixed ?_⟩
  refine .next (.next (.next (.next (.next (.next (.next (.next (.next (.next (.next (.next (.next
    (.next (.next (.next (.next (.next (.next (.next .start
    ?_ ?_) ?_ ?_) ?_ ?_) ?_ ?_) ?_ ?_) ?_ ?_) ?_ ?_) ?_ ?_) ?_ ?_) ?_ ?_) ?_ ?_) ?_ ?_) ?_ ?_)
    ?_ ?_) ?_ ?_) ?_ ?_) ?_ ?_) ?_ ?_) ?_ ?_) ?_ ?_
  all_goals try decide
  all_goals simp only [Exchanges.Allows, Exchanges.Stands]
  all_goals try decide +kernel
  all_goals exact ⟨by decide, by decide, by decide, by decide⟩

/-- A request that is too long for a packet is not sent, and its exchange ends with that. -/
theorem oversized_request_unsent :
    let request : Request := .signMessage 0 (String.ofList (List.replicate 65508 'a'))
    let opened : Exchanges Nat := ({} : Exchanges Nat).next {} 0 (.connect 0 request 50000)
    let h : Exchanges Nat := opened.next {} 0 (.fail 0 .send (.code 90))
    h.Reached {} ∧ (∀ time, ¬ opened.Allows {} time (.send 0)) ∧
      h.outgoing = [] ∧ h.done = [(0, .error (.transport (.code 90)))] ∧
      ¬ ∀ d ∈ h.done, (h.outgoing.filter (·.id == d.1)).length = 1 ∧
        ((∃ bytes, Decoded bytes d.2) ∨ ∃ m, d.2 = .error (.notConnected m)) := by
  intro request opened h
  have hlong : ({} : Emulator).longestRequest < (Emulator.datagram request).length := by
    have hlongest : ({} : Emulator).longestRequest = 65507 := by decide +kernel
    have hmessage : (String.ofList (List.replicate 65508 'a')).length = 65508 := by
      rw [String.length_ofList, List.length_replicate]
    have hsent : (String.ofList (List.replicate 65508 'a')).length ≤
        (Emulator.datagram request).length := Request.length_le_datagram 0 _
    omega
  refine ⟨?_, ?_, rfl, rfl, ?_⟩
  · refine .next (.next .start (by simp) ?_) (by simp [opened, Exchanges.next]) ?_
    · exact ⟨by simp [Exchanges.names], ⟨by simp, by simp, by simp⟩⟩
    · exact ⟨_, List.mem_singleton_self _, rfl, rfl⟩
  · rintro time ⟨s, hs, -, -, hfits⟩
    rw [List.mem_singleton.mp hs] at hfits
    exact absurd hlong (Nat.not_lt.mpr hfits)
  · intro hall
    have hone := (hall _ (List.mem_singleton_self _)).1
    cases hone

end WalletBridge.Device
