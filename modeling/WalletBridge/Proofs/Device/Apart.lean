import WalletBridge.Proofs.Device.Traffic

/-! # Whose datagrams are under way

What is under way to a port belongs to whoever had it last, and a port is not
given away before that is gone. So whatever arrives at a live socket is of its
own exchange. The invariant also says how far the request of each exchange has
come, because a request that was refused is never answered.
-/

namespace WalletBridge.Device

open Text Traffic

variable {ι : Type}

/-- Nothing of the exchange is under way. -/
structure Traffic.Quiet (n : Traffic ι) (id : ι) : Prop where
  errands : ∀ x ∈ n.errands, x.id ≠ id
  letters : ∀ l ∈ n.letters, l.replyTo ≠ some id

/-- How far the request of a socket has come, and what the socket can hold by then. -/
structure Stage (n : Traffic ι) (s : Socket ι) : Prop where
  unsent : s.sent = none → n.Quiet s.id ∧ s.inbox = []
  away : ∀ x ∈ n.errands, x.id = s.id → x.reached = false →
    (∀ l ∈ n.letters, l.replyTo ≠ some s.id) ∧ s.inbox = []
  refused : ∀ time error, (time, .error error) ∈ s.inbox →
    n.Quiet s.id ∧ s.inbox = [(time, .error .connectionRefused)]

/-- Every name and every port has one owner, and what is under way to a port is its owner's. -/
structure Apart (names : List ι) (n : Traffic ι) : Prop where
  ids : (n.sockets.map (·.id)).Nodup
  ports : (n.sockets.map (·.port)).Nodup
  errandIds : (n.errands.map (·.id)).Nodup
  socketNames : ∀ s ∈ n.sockets, s.id ∈ names
  errandNames : ∀ x ∈ n.errands, x.id ∈ names
  letterNames : ∀ l ∈ n.letters, ∀ id ∈ l.replyTo, id ∈ names
  errandPorts : ∀ x ∈ n.errands, ∀ s ∈ n.sockets, s.port = x.port → s.id = x.id
  letterPorts : ∀ l ∈ n.letters, ∀ id ∈ l.replyTo, ∀ s ∈ n.sockets, s.port = l.port → s.id = id
  stages : ∀ s ∈ n.sockets, Stage n s

section
variable {emulator : Emulator} {h : Exchanges ι} {time : Nat} {e : Event ι} {s t : Socket ι}

namespace Apart

variable {names : List ι} {n : Traffic ι}

theorem start : Apart names ({} : Traffic ι) := by
  constructor <;> simp

theorem eq_of_id (hn : Apart names n) (hs : s ∈ n.sockets) (ht : t ∈ n.sockets)
    (h : s.id = t.id) : s = t := List.inj_on_of_nodup_map hn.ids hs ht h

theorem eq_of_port (hn : Apart names n) (hs : s ∈ n.sockets) (ht : t ∈ n.sockets)
    (h : s.port = t.port) : s = t := List.inj_on_of_nodup_map hn.ports hs ht h

end Apart

/-! ## What is allowed -/

/-- A socket that sends had not sent before. -/
theorem Exchanges.Allows.unsent (hn : Apart h.names h.traffic)
    (hallowed : h.Allows emulator time e) (hs : s ∈ h.traffic.sockets)
    (hsends : e.sent? = some s.id) : s.sent = none := by
  cases Event.sent?_eq_some hsends
  obtain ⟨t, ht, hid, hsent, -⟩ := hallowed
  rw [hn.eq_of_id hs ht hid.symm]
  exact hsent

theorem Exchanges.Allows.posted (hallowed : h.Allows emulator time e) {letter : Letter ι}
    (hposts : e.posted? = some letter) : letter.bytes.length ≤ longestDatagram ∧
      ∀ id ∈ letter.replyTo, ⟨id, letter.port, true⟩ ∈ h.traffic.errands := by
  cases Event.posted?_eq_some hposts
  exact hallowed

theorem Exchanges.Allows.opened (hallowed : h.Allows emulator time e)
    (hopens : e.opened? = some s) : s.id ∉ h.names ∧ h.traffic.Free s.port := by
  obtain ⟨rfl, -, -⟩ := Event.opened?_eq_some hopens
  exact hallowed

theorem Exchanges.Allows.begun (hallowed : h.Allows emulator time e) {id : ι}
    (hbegins : e.begun? = some id) : id ∉ h.names := by
  rcases Event.begun?_eq_some hbegins with ⟨request, port, rfl⟩ | ⟨step, error, hopens, rfl⟩
  · exact hallowed.1
  · cases step with
    | bind | connect => exact hallowed
    | send | receive => cases hopens

/-- Whatever a live socket takes in is of its own exchange. -/
theorem Exchanges.Allows.heard (hn : Apart h.names h.traffic)
    (hallowed : h.Allows emulator time e) (hs : s ∈ h.traffic.sockets)
    {item : Except Os.Error Bytes} (hheard : e.heard? s.port = some item) :
    (∃ letter ∈ h.traffic.letters, e = .arrive letter ∧ letter.replyTo = some s.id ∧
      item = .ok letter.bytes) ∨
    (e = .refuse s.id s.port ∧ ⟨s.id, s.port, false⟩ ∈ h.traffic.errands ∧
      item = .error .connectionRefused) := by
  rcases Event.heard?_eq_some hheard with ⟨letter, id, rfl, hid, hport, rfl⟩ | ⟨id, rfl, rfl⟩
  · have hletter : letter ∈ h.traffic.letters := hallowed
    have hown : s.id = id := hn.letterPorts letter hletter id hid s hs hport.symm
    exact .inl ⟨letter, hletter, rfl, hown ▸ hid, rfl⟩
  · have herrand : ⟨id, s.port, false⟩ ∈ h.traffic.errands := hallowed
    have hown : s.id = id := hn.errandPorts _ herrand s hs rfl
    subst hown
    exact .inr ⟨rfl, herrand, rfl⟩

theorem Apart.quiet (hn : Apart h.names h.traffic) {id : ι} (hnew : id ∉ h.names) :
    h.traffic.Quiet id where
  errands := by
    rintro x hx rfl
    exact hnew (hn.errandNames x hx)
  letters := fun l hl hreply => hnew (hn.letterNames l hl id hreply)

theorem Traffic.Quiet.heard (hn : Apart h.names h.traffic) (hallowed : h.Allows emulator time e)
    (hs : s ∈ h.traffic.sockets) (hquiet : h.traffic.Quiet s.id) : e.heard? s.port = none := by
  cases hheard : e.heard? s.port with
  | none => rfl
  | some item =>
      rcases hallowed.heard hn hs hheard with ⟨letter, hletter, -, hreply, -⟩ | ⟨-, herrand, -⟩
      · exact absurd hreply (hquiet.letters letter hletter)
      · exact absurd rfl (hquiet.errands _ herrand)

variable [DecidableEq ι]

/-- A quiet exchange stays quiet until it sends. -/
theorem Traffic.Quiet.next {id : ι} (hallowed : h.Allows emulator time e)
    (hquiet : h.traffic.Quiet id) (hsends : e.sent? ≠ some id) :
    (h.traffic.next time e).Quiet id := by
  constructor
  · intro x hx
    rcases mem_errands_next.mp hx with ⟨old, hold, -, rfl⟩ | ⟨s, hs, hsent, rfl⟩
    · exact hquiet.errands old hold
    · intro hid
      exact hsends (hid ▸ hsent)
  · intro l hl hreply
    rcases mem_letters_next.mp hl with ⟨hold, -⟩ | hposted
    · exact hquiet.letters l hold hreply
    · exact hquiet.errands _ ((hallowed.posted hposted).2 id hreply) rfl

theorem Socket.next_inbox_of_silent (time : Nat) (h : e.heard? s.port = none) :
    (s.next time e).inbox = s.inbox := by simp [Socket.next, h]

/-! ## One step of the traffic -/

/-- The request of an exchange that did not reach the emulator has no answer under way. -/
theorem Stage.next_away (hn : Apart h.names h.traffic) (hallowed : h.Allows emulator time e)
    (hs : s ∈ h.traffic.sockets) {x : Errand ι} (hx : x ∈ (h.traffic.next time e).errands)
    (hid : x.id = s.id) (hreached : x.reached = false) :
    (∀ l ∈ (h.traffic.next time e).letters, l.replyTo ≠ some s.id) ∧
      (s.next time e).inbox = [] := by
  rcases mem_errands_next.mp hx with ⟨old, hold, hsettled, rfl⟩ | ⟨other, hother, hsends, rfl⟩
  · have hbefore : old.reached = false := by
      simp only [Errand.next, Bool.or_eq_false_iff] at hreached
      exact hreached.1
    have hsame : old.id = s.id := hid
    obtain ⟨hletters, hinbox⟩ := (hn.stages s hs).away old hold hsame hbefore
    constructor
    · intro l hl hreply
      rcases mem_letters_next.mp hl with ⟨hl, -⟩ | hposts
      · exact hletters l hl hreply
      · -- only a request that reached the emulator is answered, and there is one of each name
        have hanswered := (hallowed.posted hposts).2 s.id hreply
        have heq := List.inj_on_of_nodup_map hn.errandIds hold hanswered hsame
        rw [heq] at hbefore
        cases hbefore
    · rw [Socket.next_inbox_of_silent, hinbox]
      cases hheard : e.heard? s.port with
      | none => rfl
      | some item =>
          rcases hallowed.heard hn hs hheard with ⟨letter, hletter, -, hreply, -⟩ | ⟨rfl, -, -⟩
          · exact absurd hreply (hletters letter hletter)
          · exact absurd (congrArg some hsame.symm) hsettled
  · obtain rfl : other = s := hn.eq_of_id hother hs hid
    obtain ⟨hquiet, hinbox⟩ := (hn.stages other hs).unsent (hallowed.unsent hn hs hsends)
    constructor
    · intro l hl
      cases Event.sent?_eq_some hsends
      rcases mem_letters_next.mp hl with ⟨hl, -⟩ | hposts
      · exact hquiet.letters l hl
      · cases hposts
    · rw [Socket.next_inbox_of_silent time (hquiet.heard hn hallowed hs), hinbox]

theorem Stage.next_refused (hn : Apart h.names h.traffic) (hallowed : h.Allows emulator time e)
    (hs : s ∈ h.traffic.sockets) {arrived : Nat} {error : Os.Error}
    (herror : (arrived, .error error) ∈ (s.next time e).inbox) :
    (h.traffic.next time e).Quiet s.id ∧
      (s.next time e).inbox = [(arrived, .error .connectionRefused)] := by
  rcases List.mem_append.mp herror with hold | hnew
  · obtain ⟨hquiet, hinbox⟩ := (hn.stages s hs).refused arrived error hold
    have hsends : e.sent? ≠ some s.id := by
      intro hsends
      have hempty := ((hn.stages s hs).unsent (hallowed.unsent hn hs hsends)).2
      rw [hempty] at hold
      cases hold
    refine ⟨hquiet.next hallowed hsends, ?_⟩
    rw [Socket.next_inbox_of_silent time (hquiet.heard hn hallowed hs), hinbox]
  · obtain ⟨item, hitem, heq⟩ := List.mem_map.mp hnew
    cases heq
    have hheard : e.heard? s.port = some (.error error) := by simpa using hitem
    rcases hallowed.heard hn hs hheard with ⟨letter, -, -, -, hok⟩ | ⟨rfl, herrand, herr⟩
    · cases hok
    · cases herr
      obtain ⟨hletters, hinbox⟩ := (hn.stages s hs).away _ herrand rfl rfl
      constructor
      · constructor
        · intro x hx hid
          rcases mem_errands_next.mp hx with ⟨old, -, hsettled, rfl⟩ | ⟨_, -, hsends, -⟩
          · exact hsettled (congrArg some hid.symm)
          · cases hsends
        · intro l hl
          rcases mem_letters_next.mp hl with ⟨hl, -⟩ | hposts
          · exact hletters l hl
          · cases hposts
      · simp [Socket.next, hinbox, hheard]

theorem Stage.next (hn : Apart h.names h.traffic) (hallowed : h.Allows emulator time e)
    (hs : s ∈ h.traffic.sockets) : Stage (h.traffic.next time e) (s.next time e) where
  unsent := by
    intro hunsent
    by_cases hsends : e.sent? = some s.id
    · simp [Socket.next, hsends] at hunsent
    · have hbefore : s.sent = none := by simpa [Socket.next, hsends] using hunsent
      obtain ⟨hquiet, hinbox⟩ := (hn.stages s hs).unsent hbefore
      refine ⟨hquiet.next hallowed hsends, ?_⟩
      rw [Socket.next_inbox_of_silent time (hquiet.heard hn hallowed hs), hinbox]
  away := fun _ hx hid hreached => Stage.next_away hn hallowed hs hx hid hreached
  refused := fun _ _ herror => Stage.next_refused hn hallowed hs herror

theorem Stage.opened (hn : Apart h.names h.traffic) (hallowed : h.Allows emulator time e)
    (hopens : e.opened? = some s) : Stage (h.traffic.next time e) s := by
  obtain ⟨he, hunsent, hinbox⟩ := Event.opened?_eq_some hopens
  have hbefore : h.traffic.Quiet s.id := hn.quiet (hallowed.opened hopens).1
  have hquiet : (h.traffic.next time e).Quiet s.id :=
    hbefore.next hallowed (by simp [he, Event.sent?])
  constructor
  case unsent => exact fun _ => ⟨hquiet, hinbox⟩
  case away => exact fun x hx hid _ => absurd hid (hquiet.errands x hx)
  case refused => simp [hinbox]

theorem nodup_snoc {α : Type} {l : List α} {a : α} (hl : l.Nodup) (ha : a ∉ l) :
    (l ++ [a]).Nodup := List.concat_eq_append ▸ hl.concat ha

theorem Traffic.nodup_sockets_next {κ : Type} {n : Traffic ι} (key : Socket ι → κ)
    (hkey : ∀ s, key (s.next time e) = key s) (hn : (n.sockets.map key).Nodup)
    (hnew : ∀ s, e.opened? = some s → ∀ old ∈ n.sockets, key old ≠ key s) :
    ((n.next time e).sockets.map key).Nodup := by
  have hmap : (n.next time e).sockets.map key =
      (n.sockets.filter fun s => e.ended? != some s.id).map key ++ e.opened?.toList.map key := by
    simp [Traffic.next, Function.comp_def, hkey]
  have hkept : ((n.sockets.filter fun s => e.ended? != some s.id).map key).Nodup :=
    (List.filter_sublist.map key).nodup hn
  rw [hmap]
  cases hopens : e.opened? with
  | none => simpa using hkept
  | some s =>
      have hfresh : key s ∉ (n.sockets.filter fun s => e.ended? != some s.id).map key := by
        intro hmem
        obtain ⟨old, hold, hsame⟩ := List.mem_map.mp hmem
        exact hnew s hopens old (List.mem_filter.mp hold).1 hsame
      exact nodup_snoc hkept hfresh

theorem Apart.nodup_errands_next (hn : Apart h.names h.traffic)
    (hallowed : h.Allows emulator time e) :
    ((h.traffic.next time e).errands.map (·.id)).Nodup := by
  have hmap : (h.traffic.next time e).errands.map (·.id) =
      (h.traffic.errands.filter fun x => e.settled? != some x.id).map (·.id) ++
        (h.traffic.sockets.filter fun s => e.sent? == some s.id).map (·.id) := by
    simp [Traffic.next, Function.comp_def]
  rw [hmap, List.nodup_append]
  refine ⟨(List.filter_sublist.map _).nodup hn.errandIds,
    (List.filter_sublist.map _).nodup hn.ids, ?_⟩
  intro a ha b hb hab
  obtain ⟨x, hx, rfl⟩ := List.mem_map.mp ha
  obtain ⟨s, hs, rfl⟩ := List.mem_map.mp hb
  obtain ⟨hs, hsends⟩ := List.mem_filter.mp hs
  have hunsent := hallowed.unsent hn hs (by simpa using hsends)
  exact ((hn.stages s hs).unsent hunsent).1.errands x (List.mem_filter.mp hx).1 hab

theorem Apart.errandPorts_next (hn : Apart h.names h.traffic)
    (hallowed : h.Allows emulator time e) {x : Errand ι}
    (hx : x ∈ (h.traffic.next time e).errands) (hs : s ∈ (h.traffic.next time e).sockets)
    (hport : s.port = x.port) : s.id = x.id := by
  rcases mem_sockets_next.mp hs with ⟨before, hbefore, -, rfl⟩ | hopens
  · rcases mem_errands_next.mp hx with ⟨old, hold, -, rfl⟩ | ⟨sender, hsender, -, rfl⟩
    · exact hn.errandPorts old hold before hbefore hport
    · have hsame : before = sender := hn.eq_of_port hbefore hsender hport
      rw [Socket.next_id, hsame]
  · rcases mem_errands_next.mp hx with ⟨old, hold, -, rfl⟩ | ⟨_, -, hsends, -⟩
    · exact absurd hport.symm ((hallowed.opened hopens).2.errands old hold)
    · cases Event.sent?_eq_some hsends
      cases hopens

theorem Apart.letterPorts_next (hn : Apart h.names h.traffic)
    (hallowed : h.Allows emulator time e) {l : Letter ι} {id : ι}
    (hl : l ∈ (h.traffic.next time e).letters) (hreply : id ∈ l.replyTo)
    (hs : s ∈ (h.traffic.next time e).sockets) (hport : s.port = l.port) : s.id = id := by
  rcases mem_sockets_next.mp hs with ⟨before, hbefore, -, rfl⟩ | hopens
  · rcases mem_letters_next.mp hl with ⟨hold, -⟩ | hposts
    · exact hn.letterPorts l hold id hreply before hbefore hport
    · exact hn.errandPorts _ ((hallowed.posted hposts).2 id hreply) before hbefore hport
  · rcases mem_letters_next.mp hl with ⟨hold, -⟩ | hposts
    · have hemulator : l.replyTo.isSome := Option.isSome_of_mem hreply
      exact absurd hport.symm ((hallowed.opened hopens).2.letters l hold hemulator)
    · cases Event.posted?_eq_some hposts
      cases hopens

/-- What is under way to a port stays with the port's owner. -/
theorem Apart.next (hn : Apart h.names h.traffic) (hallowed : h.Allows emulator time e) :
    Apart (h.next emulator time e).names (h.traffic.next time e) := by
  have hnames : ∀ id ∈ h.names, id ∈ (h.next emulator time e).names := by
    intro id hid
    rw [Exchanges.names_next]
    exact List.mem_append_left _ hid
  constructor
  case ids =>
    refine nodup_sockets_next _ Socket.next_id hn.ids fun s hopens old hold hid => ?_
    exact (hallowed.opened hopens).1 (hid ▸ hn.socketNames old hold)
  case ports =>
    refine nodup_sockets_next _ Socket.next_port hn.ports fun s hopens old hold => ?_
    exact (hallowed.opened hopens).2.sockets old hold
  case errandIds => exact hn.nodup_errands_next hallowed
  case socketNames =>
    intro s hs
    rcases mem_sockets_next.mp hs with ⟨old, hold, -, rfl⟩ | hopens
    · exact hnames _ (hn.socketNames old hold)
    · simp [Exchanges.names_next, Event.begun?_of_opened? hopens]
  case errandNames =>
    intro x hx
    rcases mem_errands_next.mp hx with ⟨old, hold, -, rfl⟩ | ⟨s, hs, -, rfl⟩
    · exact hnames _ (hn.errandNames old hold)
    · exact hnames _ (hn.socketNames s hs)
  case letterNames =>
    intro l hl id hreply
    rcases mem_letters_next.mp hl with ⟨hold, -⟩ | hposts
    · exact hnames _ (hn.letterNames l hold id hreply)
    · exact hnames _ (hn.errandNames _ ((hallowed.posted hposts).2 id hreply))
  case errandPorts => exact fun x hx s hs => hn.errandPorts_next hallowed hx hs
  case letterPorts => exact fun l hl id hreply s hs => hn.letterPorts_next hallowed hl hreply hs
  case stages =>
    intro s hs
    rcases mem_sockets_next.mp hs with ⟨old, hold, -, rfl⟩ | hopens
    · exact Stage.next hn hallowed hold
    · exact Stage.opened hn hallowed hopens

end

end WalletBridge.Device
