import WalletBridge.Daemon.Run
import WalletBridge.Proofs.Daemon.Ledger

/-!
# How far a start comes

The surroundings of a run settle beforehand which steps of its start succeed, and thereby what it
takes: whether its log level is known, its log file and its profile can be opened and its server can
be set up. A start that fails holds what it had taken until then.
-/

namespace WalletBridge.Daemon

open Config Lifecycle

/-! ## What the surroundings allow -/

section
variable (s : Surroundings) (app : App) (tree : Os.FileTree)

/-- The files once there is a log file, if there is to be one. -/
def treeWithLog : Os.FileTree :=
  if app.logToFile then (Log.create tree s.working app.logDirectory s.moment).1 else tree

def levelKnown : Bool := (Log.Level.ofText? app.logLevel).isSome

/-- The log file can be created, if there is to be one. -/
def logOpens : Bool :=
  !app.logToFile || (Log.create tree s.working app.logDirectory s.moment).2.isOk

/-- The file of the profile can be created, if there is to be one. -/
def profileOpens : Bool :=
  !app.profileCpu || ((treeWithLog s app tree).openAnew s.working app.profileCpuFile
    Observe.profileMode).isOk

def configures : Bool := levelKnown app && logOpens s app tree && profileOpens s app tree

def constructs (network : Net.Network) : Bool :=
  match s.service with
  | .planned refusal _ _ => refusal.isNone
  | .http => (network.listen app.host).isOk

/-- The log file that can be created, if there is to be one. -/
def logFile? : Option Os.OpenFile :=
  if app.logToFile then
    (Log.create tree s.working app.logDirectory s.moment).2.toOption.map (·.file)
  else none

def takenLog : List Deed :=
  if levelKnown app then (logFile? s app tree).toList.map fun file => .log (.attach file) else []

def takenProfile : List Deed :=
  if levelKnown app && logOpens s app tree && app.profileCpu && profileOpens s app tree then
    [.startProfile]
  else []

theorem takenLog_of_levelKnown (h : levelKnown app = true) :
    takenLog s app tree = (logFile? s app tree).toList.map (fun file => .log (.attach file)) ∧
      (logFile? s app tree).isSome = !(takenLog s app tree).isEmpty := by
  have hfile : takenLog s app tree =
      (logFile? s app tree).toList.map fun file => .log (.attach file) := by
    rw [takenLog, h, if_pos rfl]
  refine ⟨hfile, ?_⟩
  rw [hfile]
  cases logFile? s app tree <;> rfl

theorem takenProfile_of_configures (h : configures s app tree = true) :
    takenProfile s app tree = (if app.profileCpu then [.startProfile] else []) ∧
      app.profileCpu = !(takenProfile s app tree).isEmpty := by
  rw [configures, Bool.and_eq_true, Bool.and_eq_true] at h
  obtain ⟨⟨hlevel, hlog⟩, hprofile⟩ := h
  have hprofile : takenProfile s app tree =
      if app.profileCpu then [.startProfile] else [] := by
    simp [takenProfile, hlevel, hlog, hprofile]
  refine ⟨hprofile, ?_⟩
  rw [hprofile]
  cases app.profileCpu <;> rfl

end

def Service.course : Service → Course
  | .planned _ course _ => course
  | .http => .untilAsked 0

/-- A serve loop that nothing has happened to yet. -/
structure Worker.Fresh (service : Service) (w : Worker) : Prop where
  course : w.course = service.course
  begun : w.begun = none
  asked : w.asked = none
  fate : w.fate = none

def startHistory (configured constructed : Bool) : History :=
  match configured, constructed with
  | false, _ => ⟨.configuring, [.init]⟩
  | true, false => ⟨.starting, [.configuring, .init]⟩
  | true, true => ⟨.running, [.starting, .configuring, .init]⟩

namespace Progress

/-- What is held before anything was waited for: the ledger, whether there are a log file, a profile
and a server, whose loop has not begun, and the phases. -/
structure Holds (ds : List Deed) (log profile server : Bool) (h : History) (p : Progress) :
    Prop where
  ledger : p.ledger = ds
  story : p.story = []
  logFile : p.logFile.isSome = log
  profile : p.profile.isSome = profile
  closing : p.closing.isSome = server
  worker : p.worker.isSome = server
  idle : ∀ w, p.worker = some w → w.begun = none
  history : p.history = h

variable {ds : List Deed} {log profile server : Bool} {h : History} {p q : Progress}

theorem Holds.told (hk : Holds ds log profile server h p) : p.Told := by
  unfold Told
  rw [hk.story]
  cases hw : p.worker with
  | none => rfl
  | some w =>
      rw [Option.map_some, Option.getD_some, Worker.told, hk.idle w hw]
      rfl

theorem Holds.still (hk : Holds ds log profile server h p) (hstill : Still p q) :
    Holds ds log profile server h q where
  ledger := hstill.ledger.trans hk.ledger
  story := hstill.story.trans hk.story
  logFile := by rw [hstill.logFile, hk.logFile]
  profile := by rw [hstill.profile, hk.profile]
  closing := by rw [hstill.closing, hk.closing]
  worker := by rw [hstill.worker, hk.worker]
  idle := by
    rw [hstill.worker]
    exact hk.idle
  history := hstill.history.trans hk.history

theorem Holds.note (hk : Holds ds log profile server h p) {d : Deed} (hd : d.keeps = true)
    (hl : d.loops = false) : Holds (ds ++ [d]) log profile server h (p.note d) where
  ledger := by rw [ledger_note, hd, if_pos rfl, hk.ledger]
  story := by rw [story_note, hl, if_neg Bool.false_ne_true, List.append_nil, hk.story]
  logFile := hk.logFile
  profile := hk.profile
  closing := hk.closing
  worker := hk.worker
  idle := hk.idle
  history := hk.history

theorem Holds.enter (hk : Holds ds log profile server h p) (phase : Phase) :
    Holds ds log profile server (h.advance phase) (p.enter phase) where
  ledger := hk.ledger
  story := hk.story
  logFile := hk.logFile
  profile := hk.profile
  closing := hk.closing
  worker := hk.worker
  idle := hk.idle
  history := congrArg (·.advance phase) hk.history

/-! ## Step by step -/

/-- No time has passed, and the listener for diagnostics has not had a turn. -/
structure Alone (p q : Progress) : Prop where
  now : q.now = p.now
  diagnostics : q.diagnostics = p.diagnostics

theorem Alone.trans {p q r : Progress} (h : Alone p q) (hk : Alone q r) : Alone p r :=
  ⟨hk.now.trans h.now, hk.diagnostics.trans h.diagnostics⟩

theorem chooseLog_cases (app : App) (p : Progress) :
    (levelKnown app = true ∧ ∃ level q, chooseLog app p = .ok (level, q) ∧ Still p q ∧
      q.tree = p.tree ∧ q.network = p.network ∧ Alone p q) ∨
    (levelKnown app = false ∧ ∃ f, chooseLog app p = .error ⟨f, p⟩) := by
  unfold levelKnown chooseLog
  cases Log.Level.ofText? app.logLevel with
  | none => exact .inr ⟨rfl, _, rfl⟩
  | some level =>
      refine .inl ⟨rfl, level, _, rfl, ?_, rfl, rfl, ⟨rfl, rfl⟩⟩
      exact (still_note p rfl rfl).trans (still_note _ rfl rfl)

theorem openLog_cases (s : Surroundings) (app : App) (hk : Holds ds false profile server h p) :
    (logOpens s app p.tree = true ∧ ∃ q, openLog s app p = .ok q ∧
      Holds (ds ++ (logFile? s app p.tree).toList.map fun file => .log (.attach file))
        (logFile? s app p.tree).isSome profile server h q ∧
      q.tree = treeWithLog s app p.tree ∧ q.network = p.network ∧ Alone p q) ∨
    (logOpens s app p.tree = false ∧ logFile? s app p.tree = none ∧
      ∃ e, openLog s app p = .error e ∧ Holds ds false profile server h e.progress ∧
        Alone p e.progress) := by
  unfold logOpens logFile? treeWithLog openLog
  cases app.logToFile with
  | false =>
      refine .inl ⟨rfl, p, rfl, ?_, rfl, rfl, ⟨rfl, rfl⟩⟩
      simpa using hk
  | true =>
      rcases hc : Log.create p.tree s.working app.logDirectory s.moment with ⟨tree, created⟩
      cases created with
      | error e =>
          refine .inr ⟨rfl, rfl, _, rfl, ?_, ⟨rfl, rfl⟩⟩
          exact hk.still ⟨rfl, rfl, rfl, rfl, rfl, rfl, rfl⟩
      | ok created =>
          refine .inl ⟨rfl, _, rfl, ?_, rfl, rfl, ⟨rfl, rfl⟩⟩
          have hfile : Holds ds true profile server h
              { p with tree, logFile := some created.path } :=
            ⟨hk.ledger, hk.story, rfl, hk.profile, hk.closing, hk.worker, hk.idle, hk.history⟩
          exact (hfile.note (d := .log (.attach created.file)) rfl rfl).still (still_say _ _ _ _ _)

theorem startProfile_cases (s : Surroundings) (app : App) {tree : Os.FileTree}
    (ht : p.tree = treeWithLog s app tree) (hk : Holds ds log false server h p) :
    (profileOpens s app tree = true ∧ ∃ q, startProfile s app p = .ok q ∧
      Holds (ds ++ if app.profileCpu then [.startProfile] else []) log app.profileCpu server h q ∧
      q.network = p.network ∧ Alone p q) ∨
    (profileOpens s app tree = false ∧ ∃ e, startProfile s app p = .error e ∧
      Holds ds log false server h e.progress ∧ Alone p e.progress) := by
  unfold profileOpens startProfile
  rw [← ht]
  cases app.profileCpu with
  | false =>
      refine .inl ⟨rfl, p, rfl, ?_, rfl, ⟨rfl, rfl⟩⟩
      simpa using hk
  | true =>
      cases p.tree.openAnew s.working app.profileCpuFile Observe.profileMode with
      | error e => exact .inr ⟨rfl, _, rfl, hk, ⟨rfl, rfl⟩⟩
      | ok opened =>
          obtain ⟨tree', place⟩ := opened
          refine .inl ⟨rfl, _, rfl, ?_, rfl, ⟨rfl, rfl⟩⟩
          have hfile : Holds ds log true server h
              { p with tree := tree', profile := some ⟨app.profileCpuFile, place, p.now, false⟩ } :=
            ⟨hk.ledger, hk.story, hk.logFile, rfl, hk.closing, hk.worker, hk.idle, hk.history⟩
          exact (hfile.note (d := .startProfile) rfl rfl).still (still_say _ _ _ _ _)

theorem still_announce (settings : Settings) (level : Log.Level) (p : Progress) :
    Still p (announce settings level p) :=
  still_say p _ _ _ _

theorem still_startDiagnostics (s : Surroundings) (app : App) (p : Progress) :
    Still p (startDiagnostics s app p) := by
  unfold startDiagnostics
  split <;> exact ⟨rfl, rfl, rfl, rfl, rfl, rfl, rfl⟩

theorem startDiagnostics_network (s : Surroundings) (app : App) (p : Progress) :
    (startDiagnostics s app p).network = p.network := by
  unfold startDiagnostics
  split <;> rfl

theorem startDiagnostics_now (s : Surroundings) (app : App) (p : Progress) :
    (startDiagnostics s app p).now = p.now := by
  unfold startDiagnostics
  split <;> rfl

def listener? (s : Surroundings) (app : App) : Option Diagnostics :=
  if app.httpProf then some { host := app.httpProfHost, told := s.quit, lingers := s.lingers }
  else none

theorem startDiagnostics_diagnostics (s : Surroundings) (app : App) (h : p.diagnostics = none) :
    (startDiagnostics s app p).diagnostics = listener? s app := by
  unfold startDiagnostics listener?
  cases app.httpProf
  · exact h
  · rfl

theorem setUp_cases (s : Surroundings) (settings : Settings)
    (hk : Holds ds log profile false h p) :
    (constructs s settings.app p.network = true ∧ ∃ q, setUp s settings p = .ok q ∧
      Holds (ds ++ [.create settings.app.host settings.api]) log profile true h q ∧ Alone p q ∧
      ∀ w, q.worker = some w → w.Fresh s.service) ∨
    (constructs s settings.app p.network = false ∧ ∃ e, setUp s settings p = .error e ∧
      Holds (ds ++ [.create settings.app.host settings.api]) log profile false h e.progress ∧
      Alone p e.progress) := by
  have hnoted := hk.note (d := .create settings.app.host settings.api) rfl rfl
  unfold constructs setUp
  cases s.service with
  | planned refusal course closing =>
      cases refusal with
      | some refusal => exact .inr ⟨rfl, _, rfl, hnoted, ⟨rfl, rfl⟩⟩
      | none =>
          refine .inl ⟨rfl, _, rfl, ?_, ⟨rfl, rfl⟩, ?_⟩
          · refine ⟨hnoted.ledger, hnoted.story, hnoted.logFile, hnoted.profile, rfl, rfl, ?_,
              hnoted.history⟩
            intro w hw
            cases hw
            rfl
          · intro w hw
            cases hw
            exact ⟨rfl, rfl, rfl, rfl⟩
  | http =>
      have hsame : (p.note (.create settings.app.host settings.api)).network = p.network := rfl
      dsimp only
      rw [hsame]
      cases p.network.listen settings.app.host with
      | error e => exact .inr ⟨rfl, _, rfl, hnoted, ⟨rfl, rfl⟩⟩
      | ok listened =>
          obtain ⟨address, network⟩ := listened
          refine .inl ⟨rfl, _, rfl, Holds.still ?_ (still_say _ _ _ _ _), ⟨rfl, rfl⟩, ?_⟩
          · refine ⟨hnoted.ledger, hnoted.story, hnoted.logFile, hnoted.profile, rfl, rfl, ?_,
              hnoted.history⟩
            intro w hw
            cases hw
            rfl
          · intro w hw
            cases hw
            exact ⟨rfl, rfl, rfl, rfl⟩

end Progress

/-! ## The whole start -/

/-- What a start takes, in order. -/
def taken (s : Surroundings) (settings : Settings) (tree : Os.FileTree) : List Deed :=
  takenLog s settings.app tree ++ (takenProfile s settings.app tree ++
    if configures s settings.app tree then [.create settings.app.host settings.api] else [])

/-- How a start came out: it took what the surroundings allow, and succeeded if they allow all. -/
structure Started (s : Surroundings) (settings : Settings) (tree : Os.FileTree)
    (network : Net.Network) (succeeded : Bool) (p : Progress) : Prop where
  held : p.Holds (taken s settings tree) (!(takenLog s settings.app tree).isEmpty)
    (!(takenProfile s settings.app tree).isEmpty) succeeded
    (startHistory (configures s settings.app tree) (constructs s settings.app network))
  allowed : succeeded =
    (configures s settings.app tree && constructs s settings.app network)
  now : p.now = 0
  listener : p.diagnostics =
    if configures s settings.app tree then Progress.listener? s settings.app else none
  loop : ∀ w, p.worker = some w → w.Fresh s.service

/-- The steps before the server is set up all succeed, or the start fails without having tried to
set it up. -/
theorem configure_cases (s : Surroundings) (settings : Settings) {p : Progress}
    (hk : p.Holds [] false false false ⟨.configuring, [.init]⟩) :
    (configures s settings.app p.tree = true ∧ ∃ q : Progress,
      start s settings p = (do
        let p ← setUp s settings ((startDiagnostics s settings.app q).enter .starting)
        return enterRunning settings.app p) ∧
      q.Holds (takenLog s settings.app p.tree ++ takenProfile s settings.app p.tree)
        (!(takenLog s settings.app p.tree).isEmpty)
        (!(takenProfile s settings.app p.tree).isEmpty) false ⟨.configuring, [.init]⟩ ∧
      q.network = p.network ∧ p.Alone q) ∨
    (configures s settings.app p.tree = false ∧ ∃ e, start s settings p = .error e ∧
      e.progress.Holds (takenLog s settings.app p.tree ++ takenProfile s settings.app p.tree)
        (!(takenLog s settings.app p.tree).isEmpty)
        (!(takenProfile s settings.app p.tree).isEmpty) false ⟨.configuring, [.init]⟩ ∧
      p.Alone e.progress) := by
  rcases Progress.chooseLog_cases settings.app p with
    ⟨hlevel, level, p₁, h₁, hstill, htree₁, hnetwork₁, halone₁⟩ | ⟨hlevel, f, h₁⟩
  case inr =>
    refine .inr ⟨by simp [configures, hlevel], ⟨f, p⟩, ?_, ?_, ⟨rfl, rfl⟩⟩
    · simp only [start, bind, Except.bind, h₁]
    · simpa [takenLog, takenProfile, hlevel] using hk
  rcases Progress.openLog_cases s settings.app (hk.still hstill) with
    ⟨hlog, p₂, h₂, hopened, htree₂, hnetwork₂, halone₂⟩ | ⟨hlog, hfile, e, h₂, hunopened, halone₂⟩
  case inr =>
    rw [htree₁] at hlog hfile
    refine .inr ⟨by simp [configures, hlog], e, ?_, ?_, halone₁.trans halone₂⟩
    · simp only [start, bind, Except.bind, h₁, h₂]
    · simpa [takenLog, takenProfile, hlevel, hlog, hfile] using hunopened
  rw [htree₁] at hlog hopened htree₂
  obtain ⟨hfile, hlogged⟩ := takenLog_of_levelKnown s settings.app p.tree hlevel
  rw [List.nil_append, ← hfile, hlogged] at hopened
  have hannounced := hopened.still (Progress.still_announce settings level p₂)
  have hbefore : p.Alone (announce settings level p₂) := (halone₁.trans halone₂).trans ⟨rfl, rfl⟩
  rcases Progress.startProfile_cases s settings.app (p := announce settings level p₂) htree₂
    hannounced with
    ⟨hprofile, p₃, h₃, hprofiled, hnetwork₃, halone₃⟩ | ⟨hprofile, e, h₃, hunprofiled, halone₃⟩
  case inr =>
    refine .inr ⟨by simp [configures, hprofile], e, ?_, ?_, hbefore.trans halone₃⟩
    · simp only [start, bind, Except.bind, h₁, h₂, h₃]
    · simpa [takenProfile, hlevel, hlog, hprofile] using hunprofiled
  have hconfigured : configures s settings.app p.tree = true := by
    simp [configures, hlevel, hlog, hprofile]
  obtain ⟨hprofile, hkept⟩ := takenProfile_of_configures s settings.app p.tree hconfigured
  refine .inl ⟨hconfigured, p₃, ?_, ?_, ?_, hbefore.trans halone₃⟩
  · simp only [start, bind, Except.bind, h₁, h₂, h₃]
  · rw [← hkept, hprofile]
    exact hprofiled
  · exact hnetwork₃.trans (hnetwork₂.trans hnetwork₁)

theorem start_cases (s : Surroundings) (settings : Settings) {p : Progress}
    (hk : p.Holds [] false false false ⟨.configuring, [.init]⟩) (hnow : p.now = 0)
    (hdiagnostics : p.diagnostics = none) :
    (∃ q, start s settings p = .ok q ∧ Started s settings p.tree p.network true q) ∨
    (∃ e, start s settings p = .error e ∧
      Started s settings p.tree p.network false e.progress) := by
  have hnoLoop {q : Progress} (h : q.worker.isSome = false) :
      ∀ w, q.worker = some w → w.Fresh s.service := by
    intro w hw
    rw [hw] at h
    cases h
  rcases configure_cases s settings hk with
    ⟨hconfigured, q, hstart, held, hnetwork, halone⟩ | ⟨hunconfigured, e, hstart, held, halone⟩
  case inr =>
    refine .inr ⟨e, hstart, ?_, by rw [hunconfigured, Bool.false_and], halone.now.trans hnow, ?_,
      hnoLoop held.worker⟩
    · simpa [taken, hunconfigured, startHistory] using held
    · rw [hunconfigured]
      exact halone.diagnostics.trans hdiagnostics
  have hstarting := (held.still (Progress.still_startDiagnostics s settings.app q)).enter .starting
  let started : Progress := (startDiagnostics s settings.app q).enter .starting
  have hsame : started.network = p.network :=
    (Progress.startDiagnostics_network s settings.app q).trans hnetwork
  have hnow : started.now = 0 :=
    ((Progress.startDiagnostics_now s settings.app q).trans halone.now).trans hnow
  have hlistener : started.diagnostics =
      if configures s settings.app p.tree then Progress.listener? s settings.app else none := by
    rw [hconfigured, if_pos rfl]
    exact Progress.startDiagnostics_diagnostics s settings.app
      (halone.diagnostics.trans hdiagnostics)
  have hall : taken s settings p.tree = takenLog s settings.app p.tree ++
      takenProfile s settings.app p.tree ++ [.create settings.app.host settings.api] := by
    rw [taken, hconfigured, if_pos rfl, List.append_assoc]
  rcases Progress.setUp_cases s settings hstarting with
    ⟨hc, r, hr, hserved, halone', hloop⟩ | ⟨hc, e, hr, hrefused, halone'⟩
  · rw [hsame] at hc
    refine .inl ⟨enterRunning settings.app r, ?_, ?_, by rw [hconfigured, hc]; rfl,
      halone'.now.trans hnow, halone'.diagnostics.trans hlistener, hloop⟩
    · rw [hstart, hr]
      rfl
    · rw [hall, hconfigured, hc]
      exact (hserved.enter .running).still (Progress.still_say _ _ _ _ _)
  · rw [hsame] at hc
    refine .inr ⟨e, ?_, ?_, by rw [hconfigured, hc]; rfl, halone'.now.trans hnow,
      halone'.diagnostics.trans hlistener, hnoLoop hrefused.worker⟩
    · rw [hstart, hr]
      rfl
    · rw [hall, hconfigured, hc]
      exact hrefused

end WalletBridge.Daemon
