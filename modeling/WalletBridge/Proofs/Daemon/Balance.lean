import Mathlib.Data.List.Basic
import WalletBridge.Proofs.Daemon.Conclusion
import WalletBridge.Proofs.Daemon.Giving

/-!
# A run that returns gives back what it took

Between its start and its release a run only waits. So the ledger of a run that returns is what its
start took, followed by what a release gives back of exactly that; how long anything took and how
the wait ended leave no trace in it.
-/

namespace WalletBridge.Daemon

open Config Lifecycle

/-! ## The end of a run -/

def givenBack (s : Surroundings) (settings : Settings) (tree : Os.FileTree)
    (network : Net.Network) : List Deed :=
  (if configures s settings.app tree && constructs s settings.app network then
    [.shutDown, .joined] else []) ++
  ((takenProfile s settings.app tree).map (fun _ => .stopProfile) ++
    (takenLog s settings.app tree).map fun _ => .log .detach)

/-- The phases of a run that is over: it starts once everything is configured, and is running once
its server is set up. -/
def phasesOf (configured constructed : Bool) : List Phase :=
  ([.init, .configuring] : List Phase) ++ (if configured then [.starting] else []) ++
    (if configured && constructed then [.running] else []) ++ [.shuttingDown, .terminated]

section
variable (s : Surroundings) (app : App) (tree : Os.FileTree)

theorem takenLog_cases :
    takenLog s app tree = [] ∨ ∃ file, takenLog s app tree = [.log (.attach file)] := by
  unfold takenLog
  split
  · cases logFile? s app tree with
    | none => exact .inl rfl
    | some file => exact .inr ⟨file, rfl⟩
  · exact .inl rfl

theorem takenProfile_cases :
    takenProfile s app tree = [] ∨ takenProfile s app tree = [.startProfile] := by
  unfold takenProfile
  split
  · exact .inr rfl
  · exact .inl rfl

end

/-- A run that is over: its ledger is even, its loop has ended, and its phases are complete. -/
structure Closed (s : Surroundings) (settings : Settings) (tree : Os.FileTree)
    (network : Net.Network) (p : Progress) : Prop where
  ledger : p.ledger = taken s settings tree ++ givenBack s settings tree network
  worker : p.worker.isSome =
    (configures s settings.app tree && constructs s settings.app network)
  idle : p.worker = none → p.story = []
  ended : ∀ w, p.worker = some w → w.fate.isSome = true ∧ p.story = w.told ++ [.joined]
  last : (takenLog s settings.app tree).isEmpty = false →
    ∃ (before : List Deed) (lines : List Log.Line),
      p.deeds.reverse = before ++ .log .detach :: lines.map fun line => .log (.emit line)
  phases : p.history.phases =
    phasesOf (configures s settings.app tree) (constructs s settings.app network)

theorem phases_of_startHistory (configured constructed : Bool) :
    (((startHistory configured constructed).advance .shuttingDown).advance .terminated).phases =
      phasesOf configured constructed := by
  cases configured <;> cases constructed <;> rfl

theorem closed_of_released {s : Surroundings} {settings : Settings} {tree : Os.FileTree}
    {network : Net.Network} {p q r : Progress} (h : Holding s settings tree network p)
    (hstill : p.Still q) (hreleased : (q.enter .shuttingDown).Released r) :
    Closed s settings tree network (r.enter .terminated) := by
  have held := h.tended hstill.tended
  refine ⟨?_, ?_, ?_, ?_, ?_, ?_⟩
  · have hprofile : (if q.profile.isSome then [Deed.stopProfile] else []) =
        (takenProfile s settings.app tree).map fun _ => .stopProfile := by
      rw [held.profile]
      rcases takenProfile_cases s settings.app tree with h | h <;> rw [h] <;> rfl
    have hfile : (if q.logFile.isSome then [Deed.log .detach] else []) =
        (takenLog s settings.app tree).map fun _ => .log .detach := by
      rw [held.logFile]
      rcases takenLog_cases s settings.app tree with h | ⟨file, h⟩ <;> rw [h] <;> rfl
    change r.ledger = _
    rw [hreleased.ledger, givenBack, ← hprofile, ← hfile, ← held.worker, ← held.ledger]
    rfl
  · change r.worker.isSome = _
    rw [← held.worker]
    cases hw : q.worker with
    | none =>
        rw [(hreleased.idle hw).1]
    | some w =>
        obtain ⟨v, hv, _⟩ := hreleased.ended (by rw [Progress.enter, hw]; rfl)
        rw [hv]
        rfl
  · intro hnone
    cases hw : q.worker with
    | none =>
        have hquiet : q.story = [] := by
          rw [held.told, hw]
          rfl
        exact (hreleased.idle hw).2.trans hquiet
    | some w =>
        obtain ⟨v, hv, _⟩ := hreleased.ended (by rw [Progress.enter, hw]; rfl)
        exact absurd (hv.symm.trans hnone) (by simp)
  · intro w hsome
    cases hw : q.worker with
    | none => exact absurd ((hreleased.idle hw).1.symm.trans hsome) (by simp)
    | some u =>
        obtain ⟨v, hv, hended, hstory⟩ := hreleased.ended (by rw [Progress.enter, hw]; rfl)
        obtain rfl : v = w := Option.some.inj (hv.symm.trans hsome)
        exact ⟨hended, hstory⟩
  · intro hopen'
    exact hreleased.last (by rw [Progress.enter, held.logFile, hopen']; rfl)
  · rw [← phases_of_startHistory, ← held.history, Progress.enter, hreleased.history]
    rfl

/-- A run returns with everything given back, or breaks off at a deadline that the clock cannot
show, or goes on for ever because it is never told to quit. -/
def Settled (s : Surroundings) (settings : Settings) (tree : Os.FileTree) (network : Net.Network)
    (o : Outcome) : Prop :=
  (∃ result, o.verdict = .returned result ∧ Closed s settings tree network o.progress) ∨
  (o.verdict = .broken ∧
    lastSecond < s.uptime + o.progress.now / 1000 + settings.app.shutdownTimeout) ∨
  (o.verdict = .endless ∧ s.quit = none)

theorem finishRun_settled {s : Surroundings} {settings : Settings} {tree : Os.FileTree}
    {network : Net.Network} (result : Except Failure Unit) {p : Progress}
    (h : Holding s settings tree network p) :
    Settled s settings tree network (finishRun s settings result p) := by
  have hstill := still_tellResult result p
  have held := h.tended hstill.tended
  rw [finishRun_eq]
  split
  · rename_i hlate
    refine .inr (.inl ⟨rfl, ?_⟩)
    change lastSecond < s.uptime + (p.tellResult result).now / 1000 + _
    rw [tellResult_now]
    exact hlate
  · refine .inl ⟨result, rfl, closed_of_released h hstill ?_⟩
    exact Progress.released_release (p := (p.tellResult result).enter .shuttingDown) held.told
      held.closing _ _

theorem run_settled (s : Surroundings) (settings : Settings) (tree : Os.FileTree)
    (network : Net.Network) : Settled s settings tree network (run s settings tree network) := by
  rcases run_cases s settings tree network with ⟨result, p, hc, hrun⟩ | ⟨-, hendless, huntold⟩
  · rw [hrun]
    exact finishRun_settled result (holding_of_conclusion hc)
  · exact .inr (.inr ⟨hendless, huntold⟩)

/-! ## The balance of a run -/

def Deed.creates : Deed → Bool
  | .create _ _ => true
  | _ => false

def Deed.attaches : Deed → Bool
  | .log (.attach _) => true
  | _ => false

theorem Deed.keeps_of_creates {d : Deed} (h : d.creates = true) : d.keeps = true := by
  unfold Deed.creates at h
  split at h
  · rfl
  · cases h

theorem Deed.keeps_of_attaches {d : Deed} (h : d.attaches = true) : d.keeps = true := by
  unfold Deed.attaches at h
  split at h
  · rfl
  · cases h

theorem countP_ledger {f : Deed → Bool} (h : ∀ d, f d = true → d.keeps = true)
    (ds : List Deed) : (ds.filter Deed.keeps).countP f = ds.countP f := by
  rw [List.countP_filter]
  congr 1
  funext d
  cases hf : f d with
  | false => rfl
  | true => rw [h d hf]; rfl

theorem mem_taken {s : Surroundings} {settings : Settings} {tree : Os.FileTree} {d : Deed}
    (h : d ∈ taken s settings tree) :
    d.attaches = true ∨ d = .startProfile ∨ d.creates = true := by
  rw [taken, List.mem_append, List.mem_append] at h
  rcases h with h | h | h
  · rcases takenLog_cases s settings.app tree with hnone | ⟨file, hsome⟩
    · rw [hnone] at h
      cases h
    · rw [hsome, List.mem_singleton] at h
      exact .inl (by rw [h]; rfl)
  · rcases takenProfile_cases s settings.app tree with hnone | hsome
    · rw [hnone] at h
      cases h
    · rw [hsome, List.mem_singleton] at h
      exact .inr (.inl h)
  · split at h
    · rw [List.mem_singleton] at h
      exact .inr (.inr (by rw [h]; rfl))
    · cases h

/-- What follows the request to shut down is not found before it. -/
theorem not_mem_until_shutDown {s : Surroundings} {settings : Settings} {tree : Os.FileTree}
    {d : Deed} (h : d = .joined ∨ d = .stopProfile ∨ d = .log .detach) :
    d ∉ taken s settings tree ++ [.shutDown] := by
  intro hfound
  rw [List.mem_append, List.mem_singleton] at hfound
  rcases hfound with hfound | rfl
  · rcases mem_taken hfound with hk | rfl | hk
    · rcases h with rfl | rfl | rfl <;> cases hk
    · simp at h
    · rcases h with rfl | rfl | rfl <;> cases hk
  · simp at h

/-- What a run that returns has done. -/
structure Balanced (s : Surroundings) (settings : Settings) (tree : Os.FileTree)
    (network : Net.Network) (o : Outcome) : Prop where
  /-- It gave back what it took and nothing else, in order. -/
  ledger : o.deeds.filter Deed.keeps = taken s settings tree ++ givenBack s settings tree network
  /-- The server is set up at most once, and only when every step before it succeeded. -/
  created : o.deeds.countP Deed.creates = if configures s settings.app tree then 1 else 0
  /-- A server that was set up is shut down exactly once, and no other. -/
  shutDown : o.deeds.count .shutDown =
    if configures s settings.app tree && constructs s settings.app network then 1 else 0
  /-- The profile is ended exactly once if it was started, and never otherwise. -/
  profile : o.deeds.count .stopProfile = o.deeds.count .startProfile ∧
    o.deeds.count .startProfile ≤ 1
  /-- A log file is detached exactly once if one was attached, and never otherwise. -/
  logFile : o.deeds.count (.log .detach) = o.deeds.countP Deed.attaches ∧
    o.deeds.countP Deed.attaches ≤ 1
  /-- After the log file was detached there are lines of the log at most. -/
  last : .log .detach ∈ o.deeds → ∃ (before : List Deed) (lines : List Log.Line),
    o.deeds = before ++ .log .detach :: lines.map fun line => .log (.emit line)
  /-- There is a serve loop when there is a server, and in the end it is over. -/
  worker : o.progress.worker.isSome =
      (configures s settings.app tree && constructs s settings.app network) ∧
    ∀ w, o.progress.worker = some w → w.fate.isSome = true
  /-- Without a server no loop is heard of. -/
  idle : o.progress.worker = none → ∀ d ∈ o.deeds, d.loops = false
  /-- The loop begins at most once, is over if it has begun, and is joined; only then the profile is
  ended and the log file detached. -/
  joined : o.progress.worker.isSome = true → ∃ before after : List Deed,
    o.deeds = before ++ .joined :: after ∧
    before.filter Deed.loops ∈ [[], [.serve, .served]] ∧ (∀ d ∈ after, d.loops = false) ∧
    .stopProfile ∉ before ∧ .log .detach ∉ before
  /-- The phases, each entered when the steps before it succeeded. -/
  phases : o.progress.history.phases =
    phasesOf (configures s settings.app tree) (constructs s settings.app network)

section
variable {s : Surroundings} {settings : Settings} {tree : Os.FileTree} {network : Net.Network}
  {o : Outcome}

theorem Closed.countP (h : Closed s settings tree network o.progress) {f : Deed → Bool}
    (hf : ∀ d, f d = true → d.keeps = true) : o.deeds.countP f =
      (taken s settings tree ++ givenBack s settings tree network).countP f := by
  rw [← h.ledger]
  exact (countP_ledger hf o.deeds).symm

theorem Closed.count (h : Closed s settings tree network o.progress) {d : Deed}
    (hd : d.keeps = true) : o.deeds.count d =
      (taken s settings tree ++ givenBack s settings tree network).count d := by
  rw [← h.ledger]
  exact (List.count_filter hd).symm

/-- A loop that is over has either not begun or both begun and ended. -/
theorem told_of_ended {w : Worker} (h : w.fate.isSome = true) :
    w.told ∈ [[], [Deed.serve, .served]] := by
  unfold Worker.told
  rw [h]
  split <;> simp

/-- How often each entry stands in a ledger that is even. -/
theorem counts_taken (s : Surroundings) (settings : Settings) (tree : Os.FileTree)
    (network : Net.Network) :
    let ds := taken s settings tree ++ givenBack s settings tree network
    ds.countP Deed.creates = (if configures s settings.app tree then 1 else 0) ∧
    ds.count .shutDown =
      (if configures s settings.app tree && constructs s settings.app network then 1 else 0) ∧
    (ds.count .stopProfile = ds.count .startProfile ∧ ds.count .startProfile ≤ 1) ∧
    ds.count (.log .detach) = ds.countP Deed.attaches ∧ ds.countP Deed.attaches ≤ 1 := by
  have hone {n : Nat} (h : Nat.ble n 1 = true) : n ≤ 1 := Nat.le_of_ble_eq_true h
  rw [taken, givenBack]
  rcases takenLog_cases s settings.app tree with hl | ⟨file, hl⟩ <;>
    rcases takenProfile_cases s settings.app tree with hp | hp <;> rw [hl, hp] <;>
    cases configures s settings.app tree <;> cases constructs s settings.app network <;>
    exact ⟨rfl, rfl, ⟨rfl, hone rfl⟩, rfl, hone rfl⟩

/-- Around an entry that stands once in a part of a list, that part is split in one way. -/
theorem filter_split {f : Deed → Bool} {d : Deed} (hd : f d = true)
    {before after xs ys : List Deed} (h : (before ++ d :: after).filter f = xs ++ d :: ys)
    (hx : d ∉ xs) (hy : d ∉ ys) : before.filter f = xs ∧ after.filter f = ys := by
  rw [List.filter_append, List.filter_cons_of_pos hd] at h
  obtain ⟨hb, -, ha⟩ := (List.append_cons_inj_of_notMem hx hy).mp h.symm
  exact ⟨hb.symm, ha.symm⟩

/-- What is not told of the loop before it is joined is not told of it at all. -/
theorem Closed.joined (h : Closed s settings tree network o.progress)
    (hserved : o.progress.worker.isSome = true) : ∃ before after : List Deed,
    o.deeds = before ++ .joined :: after ∧
    before.filter Deed.loops ∈ [[], [.serve, .served]] ∧ (∀ d ∈ after, d.loops = false) ∧
    .stopProfile ∉ before ∧ .log .detach ∉ before := by
  obtain ⟨w, hw⟩ := Option.isSome_iff_exists.mp hserved
  obtain ⟨hended, hstory⟩ := h.ended w hw
  have htold := told_of_ended hended
  have hstory : o.deeds.filter Deed.loops = w.told ++ .joined :: [] := hstory
  have hledger : o.deeds.filter Deed.keeps =
      (taken s settings tree ++ [.shutDown]) ++ .joined ::
        ((takenProfile s settings.app tree).map (fun _ => .stopProfile) ++
          (takenLog s settings.app tree).map fun _ => .log .detach) := by
    refine h.ledger.trans ?_
    rw [givenBack, ← h.worker, hserved, if_pos rfl]
    simp only [List.append_assoc, List.cons_append, List.nil_append]
  have hmember : Deed.joined ∈ o.deeds.filter Deed.loops := by
    rw [hstory]
    exact List.mem_append_right _ List.mem_cons_self
  obtain ⟨before, after, hd⟩ := List.append_of_mem (List.mem_filter.mp hmember).1
  rw [hd] at hstory hledger
  have habsent : Deed.joined ∉ w.told := by
    intro hfound
    rw [List.mem_pair] at htold
    rcases htold with htold | htold <;> rw [htold] at hfound <;> simp at hfound
  obtain ⟨htoldBefore, htoldAfter⟩ := filter_split rfl hstory habsent List.not_mem_nil
  obtain ⟨hkeptBefore, -⟩ :=
    filter_split rfl hledger (not_mem_until_shutDown (.inl rfl)) (by simp)
  have hearly {d : Deed} (hkeeps : d.keeps = true)
      (hd : d = .joined ∨ d = .stopProfile ∨ d = .log .detach) : d ∉ before := by
    intro hfound
    have hkept : d ∈ before.filter Deed.keeps := List.mem_filter.mpr ⟨hfound, hkeeps⟩
    rw [hkeptBefore] at hkept
    exact not_mem_until_shutDown hd hkept
  refine ⟨before, after, hd, ?_, ?_, hearly rfl (.inr (.inl rfl)), hearly rfl (.inr (.inr rfl))⟩
  · rw [htoldBefore]
    exact htold
  · intro d hfound
    exact Bool.eq_false_iff.mpr (List.filter_eq_nil_iff.mp htoldAfter d hfound)

theorem Closed.balanced (h : Closed s settings tree network o.progress) :
    Balanced s settings tree network o where
  ledger := h.ledger
  created := by
    rw [h.countP fun d => Deed.keeps_of_creates]
    exact (counts_taken s settings tree network).1
  shutDown := by
    rw [h.count rfl]
    exact (counts_taken s settings tree network).2.1
  profile := by
    rw [h.count rfl, h.count rfl]
    exact (counts_taken s settings tree network).2.2.1
  logFile := by
    rw [h.count rfl, h.countP fun d => Deed.keeps_of_attaches]
    exact (counts_taken s settings tree network).2.2.2
  last := by
    intro hfound
    refine h.last ?_
    cases hl : takenLog s settings.app tree with
    | cons file rest => rfl
    | nil =>
        have hkept : Deed.log .detach ∈ taken s settings tree ++
            givenBack s settings tree network := by
          rw [← h.ledger]
          exact List.mem_filter.mpr ⟨hfound, rfl⟩
        rw [List.mem_append] at hkept
        rcases hkept with hkept | hkept
        · exact absurd (List.mem_append_left _ hkept)
            (not_mem_until_shutDown (.inr (.inr rfl)))
        · rw [givenBack, hl] at hkept
          split at hkept <;> simp at hkept
  worker := ⟨h.worker, fun w hw => (h.ended w hw).1⟩
  idle := by
    intro hnone d hfound
    have hquiet : o.deeds.filter Deed.loops = [] := h.idle hnone
    exact Bool.eq_false_iff.mpr (List.filter_eq_nil_iff.mp hquiet d hfound)
  joined := h.joined
  phases := h.phases

end

/-- Every run that returns gives back what it took, in order. -/
theorem run_balanced (s : Surroundings) (settings : Settings) (tree : Os.FileTree)
    (network : Net.Network) {result : Except Failure Unit}
    (h : (run s settings tree network).verdict = .returned result) :
    Balanced s settings tree network (run s settings tree network) := by
  rcases run_settled s settings tree network with ⟨_, _, hclosed⟩ | ⟨hbroken, _⟩ | ⟨hendless, _⟩
  · exact hclosed.balanced
  · rw [hbroken] at h
    cases h
  · rw [hendless] at h
    cases h

/-- A run told to quit while its server neither shuts down in time nor ends its loop. -/
def hungServer : Surroundings where
  quit := some 20
  service := .planned none .forever 60000
  moment := ⟨2024, 2, 29, 12, 0, 0⟩
  working := []

def namelessNetwork : Net.Network where
  lookUp := fun _ => .error .notFound

theorem run_balanced_hung :
    (run hungServer {} {} namelessNetwork).verdict = .returned (.ok ()) ∧
      Balanced hungServer {} {} namelessNetwork (run hungServer {} {} namelessNetwork) :=
  ⟨rfl, run_balanced hungServer {} {} namelessNetwork rfl⟩

end WalletBridge.Daemon
