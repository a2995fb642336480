import WalletBridge.Proofs.Command.Values
import WalletBridge.Proofs.Config.Slots

/-! # Accepted configurations

A configuration is checked once when its file is read and once more after the
flags were put over it. Nothing of the first check is left in the outcome: the
mode and the hosts are read again, and a directory whose `~` was replaced is not
changed by the second check. So an accepted configuration is told by its flags,
its file and the defaults alone.
-/

namespace WalletBridge.Config

open Command Json Text
open Device (Mode)

/-! ## The home directory -/

/-- A path that stands for the home directory or for something in it. -/
def HomePath (path : String) : Prop :=
  path = "~" ∨ ∃ rest, path = "~/" ++ rest

theorem homePath_iff {path : String} : HomePath path ↔
    ∃ rest, path.toList = '~' :: rest ∧ (rest.isEmpty || rest.head? == some '/') = true := by
  constructor
  · intro h
    rcases h with rfl | ⟨rest, rfl⟩
    · exact ⟨[], rfl, rfl⟩
    · exact ⟨'/' :: rest.toList, by simp, rfl⟩
  · rintro ⟨rest, hpath, hrest⟩
    rw [← String.ofList_toList (s := path), hpath]
    cases rest with
    | nil => exact .inl rfl
    | cons c rest =>
        have hslash : c = '/' := by simpa using hrest
        subst hslash
        exact .inr ⟨String.ofList rest, String.toList_inj.mp (by simp)⟩

theorem expandHome_of_not_homePath {home : Option String} {path : String} (h : ¬ HomePath path) :
    expandHome home path = some path := by
  unfold expandHome
  split
  · next rest hpath =>
      rw [if_neg]
      intro hrest
      exact h (homePath_iff.mpr ⟨rest, hpath, hrest⟩)
  · rfl

/-- No `~` is left at the front of a path unless the home directory begins with one. -/
theorem not_homePath_of_expandHome {home : Option String} {path expanded : String}
    (hhome : ∀ h ∈ home, ¬ HomePath h) (h : expandHome home path = some expanded) :
    ¬ HomePath expanded := by
  by_cases hpath : HomePath path
  · obtain ⟨rest, hlist, hrest⟩ := homePath_iff.mp hpath
    simp only [expandHome, hlist, hrest, if_true] at h
    obtain ⟨directory, hdirectory, rfl⟩ := Option.map_eq_some_iff.mp h
    intro hexpanded
    obtain ⟨after, hafter, hslash⟩ := homePath_iff.mp hexpanded
    rw [String.toList_append, String.toList_ofList] at hafter
    apply hhome directory hdirectory
    cases hdir : directory.toList with
    | nil =>
        -- what follows the `~` of the path begins with a slash
        rw [hdir, List.nil_append] at hafter
        subst hafter
        simp at hrest
    | cons c cs =>
        rw [hdir, List.cons_append, List.cons.injEq] at hafter
        obtain ⟨rfl, rfl⟩ := hafter
        refine homePath_iff.mpr ⟨cs, hdir, ?_⟩
        cases cs with
        | nil => rfl
        | cons c cs => exact hslash
  · rw [expandHome_of_not_homePath hpath] at h
    cases h
    exact hpath

/-! ## Flags of the daemon -/

theorem Slot.takes_of_read {ρ : Type} {slot : Slot ρ} {text : String} {v : Value}
    (hnatural : slot.Natural) (h : slot.kind.read text = .ok v) : slot.Takes v := by
  cases slot with
  | text get set =>
      cases h
      trivial
  | truth get set =>
      simp only [Slot.kind, Kind.read] at h
      split at h
      · cases h
        trivial
      · split at h
        · cases h
          trivial
        · cases h
  | number range get set =>
      simp only [Slot.kind, Kind.read] at h
      split at h
      · next n hfilter =>
          cases h
          have hrange := (Option.filter_eq_some_iff.mp hfilter).2
          simp only [Bool.and_eq_true, decide_eq_true_eq] at hrange
          have hleast : 0 ≤ range.least := hnatural
          have hcast : (n.toNat : Int) = n := Int.toNat_of_nonneg (Int.le_trans hleast hrange.1)
          rw [Slot.Takes, hcast]
          exact hrange
      · cases h

theorem daemonProgram_longs : (daemonProgram.flags.map (·.long)).Nodup := by decide

theorem parse_typed {args : List String} {parsed : Parsed}
    (h : daemonProgram.parse args = .ok parsed) : Typed parsed.given := by
  intro f hf v hfind
  obtain ⟨flag, hflag, hlong, text, hread⟩ :=
    Program.parse_reads h _ (Given.mem_of_find? hfind)
  have hown : ({ long := flagName f.name, kind := f.slot.kind } : Flag) ∈ daemonProgram.flags :=
    List.mem_cons_of_mem _ (List.mem_map_of_mem hf)
  have hsame : flag = { long := flagName f.name, kind := f.slot.kind } :=
    List.inj_on_of_nodup_map daemonProgram_longs hflag hown hlong
  subst hsame
  exact Slot.takes_of_read (App.fields_separate.natural f hf) hread

/-! ## Checked settings -/

section
variable {home : Option String} {given : Given} {tables : List (String × Toml.Value)}
  {s s' : Settings}

structure Valid (home : Option String) (app : App) : Prop where
  mode : (Mode.ofText? app.daemonMode).isSome
  port : app.port ≠ 0
  address : isBlankText app.address = false
  shutdownTimeout : 0 < app.shutdownTimeout
  requestTimeout : 0 < app.requestTimeout
  profile : app.profileCpu = true → isBlankText app.profileCpuFile = false
  directory : (expandHome home app.dataDirectory).isSome

theorem problemIf_eq_nil {wrong : Bool} {field message : String}
    (h : problemIf wrong field message = []) : wrong = false := by
  cases wrong with
  | false => rfl
  | true => cases h

theorem valid_of_problems {app : App} (h : problems home app = []) : Valid home app := by
  simp only [problems, List.append_eq_nil_iff] at h
  obtain ⟨⟨⟨⟨⟨⟨hmode, hport⟩, haddress⟩, hshutdown⟩, hrequest⟩, hprofile⟩, hdirectory⟩ := h
  constructor
  · simpa using problemIf_eq_nil hmode
  · simpa using problemIf_eq_nil hport
  · exact problemIf_eq_nil haddress
  · have hne := beq_eq_false_iff_ne.mp (problemIf_eq_nil hshutdown)
    omega
  · have hne := beq_eq_false_iff_ne.mp (problemIf_eq_nil hrequest)
    omega
  · simpa using problemIf_eq_nil hprofile
  · simpa using problemIf_eq_nil hdirectory

theorem finish_eq_ok (h : finish home s = .ok s') :
    Valid home s.app ∧ s' = { s with app := fillIn home s.app } := by
  cases hproblems : problems home s.app with
  | nil =>
      simp only [finish, complete, hproblems, Except.ok.injEq] at h
      exact ⟨valid_of_problems hproblems, h.symm⟩
  | cons p rest =>
      simp [finish, complete, hproblems] at h

/-- Completing the settings changes the directory only. -/
theorem fillIn_read {f : Field App} (hf : f ∈ App.fields) (hname : f.name ≠ "data_directory")
    (home : Option String) (app : App) :
    f.slot.read (fillIn home app) = f.slot.read app := by
  simp only [App.fields, List.mem_cons, List.not_mem_nil, or_false] at hf
  rcases hf with rfl | rfl | rfl | rfl | rfl | rfl | rfl | rfl | rfl | rfl | rfl | rfl | rfl |
    rfl | rfl | rfl <;> first | rfl | exact absurd rfl hname

def directoryField : Field App :=
  ⟨"data_directory", .text App.dataDirectory fun r a => { r with dataDirectory := a }⟩

theorem directoryField_mem : directoryField ∈ App.fields := by
  simp [directoryField, App.fields]

/-- What a setting of the bridge is to be: what its flag says, or else the file, or else the
default. -/
def chosen (given : Given) (tables : List (String × Toml.Value)) (f : Field App) : Value :=
  ((given.find? (flagName f.name)).or (fileValue? tables "app" App.fields f.name)).getD
    (f.slot.read {})

/-- The settings are what the flags, the file and the defaults say, and what is kept beside them
was read from them. -/
structure Consistent (home : Option String) (given : Given) (tables : List (String × Toml.Value))
    (s : Settings) : Prop where
  settings : ∀ f ∈ App.fields, f.name ≠ "data_directory" → f.slot.read s.app = chosen given tables f
  directory : ∃ path, chosen given tables directoryField = .text path ∧
    expandHome home path = some s.app.dataDirectory
  build : ∀ f ∈ Build.fields, f.slot.read s.build =
    (fileValue? tables "build" Build.fields f.name).getD (f.slot.read {})
  mode : Mode.ofText? s.app.daemonMode = some s.app.mode
  whitelist : s.app.whitelist = parseWhitelist s.app.hostWhitelist
  port : s.app.port ≠ 0
  address : isBlankText s.app.address = false
  shutdownTimeout : 0 < s.app.shutdownTimeout
  requestTimeout : 0 < s.app.requestTimeout
  profile : s.app.profileCpu = true → isBlankText s.app.profileCpuFile = false
  notHome : ¬ HomePath s.app.dataDirectory

/-- The settings are what the flags, the file and the defaults say, up to a directory that
expands to the same. -/
structure AsChosen (home : Option String) (given : Given) (tables : List (String × Toml.Value))
    (s : Settings) : Prop where
  settings : ∀ f ∈ App.fields, f.name ≠ "data_directory" → f.slot.read s.app = chosen given tables f
  directory : ∃ path, chosen given tables directoryField = .text path ∧
    expandHome home path = expandHome home s.app.dataDirectory
  build : ∀ f ∈ Build.fields, f.slot.read s.build =
    (fileValue? tables "build" Build.fields f.name).getD (f.slot.read {})

theorem AsChosen.of_read (home : Option String)
    (hchosen : ∀ f ∈ App.fields, f.slot.read s.app = chosen given tables f)
    (hbuild : ∀ f ∈ Build.fields, f.slot.read s.build =
      (fileValue? tables "build" Build.fields f.name).getD (f.slot.read {})) :
    AsChosen home given tables s where
  settings := fun f hf _ => hchosen f hf
  directory := ⟨s.app.dataDirectory, (hchosen directoryField directoryField_mem).symm, rfl⟩
  build := hbuild

theorem chosen_eq (given : Given) (tables : List (String × Toml.Value)) (f : Field App) :
    chosen given tables f = (given.find? (flagName f.name)).getD (chosen [] tables f) := by
  cases hfind : given.find? (flagName f.name) with
  | none => simp only [chosen, hfind, Option.none_or, Option.getD_none]; rfl
  | some v => simp only [chosen, hfind, Option.some_or, Option.getD_some]

/-- Flags over settings that the file and the defaults chose. -/
theorem AsChosen.withFlags (htyped : Typed given) (h : AsChosen home [] tables s) :
    AsChosen home given tables { s with app := withFlags given App.fields s.app } where
  settings := by
    intro f hf hname
    rw [chosen_eq, ← h.settings f hf hname]
    exact withFlags_read htyped hf s.app
  directory := by
    have hread := withFlags_read htyped directoryField_mem s.app
    rw [chosen_eq]
    cases hfind : given.find? (flagName directoryField.name) with
    | some v =>
        rw [hfind, Option.getD_some] at hread
        exact ⟨_, hread.symm, rfl⟩
    | none =>
        rw [hfind, Option.getD_none] at hread
        -- without a flag the directory stays as the first check left it
        obtain ⟨path, hpath, hexpands⟩ := h.directory
        have hsame : (Config.withFlags given App.fields s.app).dataDirectory =
            s.app.dataDirectory := by
          simpa [directoryField, Slot.read] using hread
        refine ⟨path, hpath, ?_⟩
        rw [hexpands, ← hsame]
  build := h.build

/-- The second check leaves the directory that the first one expanded. -/
theorem Consistent.asChosen (h : Consistent home given tables s) :
    AsChosen home given tables s where
  settings := h.settings
  directory := by
    obtain ⟨path, hpath, hexpands⟩ := h.directory
    refine ⟨path, hpath, ?_⟩
    rw [hexpands, expandHome_of_not_homePath h.notHome]
  build := h.build

theorem AsChosen.finish (hhome : ∀ h ∈ home, ¬ HomePath h) (hs : AsChosen home given tables s)
    (h : finish home s = .ok s') : Consistent home given tables s' := by
  obtain ⟨hvalid, rfl⟩ := finish_eq_ok h
  obtain ⟨mode, hmode⟩ := Option.isSome_iff_exists.mp hvalid.mode
  obtain ⟨expanded, hexpanded⟩ := Option.isSome_iff_exists.mp hvalid.directory
  obtain ⟨path, hpath, hsame⟩ := hs.directory
  constructor
  case settings =>
    intro f hf hname
    rw [← hs.settings f hf hname]
    exact fillIn_read hf hname home s.app
  case directory =>
    refine ⟨path, hpath, ?_⟩
    simp [fillIn, hsame, hexpanded]
  case build => exact hs.build
  case mode => simp [fillIn, hmode]
  case whitelist => rfl
  case port => exact hvalid.port
  case address => exact hvalid.address
  case shutdownTimeout => exact hvalid.shutdownTimeout
  case requestTimeout => exact hvalid.requestTimeout
  case profile => exact hvalid.profile
  case notHome =>
    have hnot := not_homePath_of_expandHome hhome hexpanded
    simpa [fillIn, hexpanded] using hnot

/-! ## The three ways to a configuration -/

def FileTables (file : Except Os.Error Bytes) (tables : List (String × Toml.Value)) : Prop :=
  ∃ bytes content, file = .ok bytes ∧ ofUtf8? bytes = some content ∧
    Toml.parse? content = some tables

/-- The tables of the file that the flags name; there are none without such a file. -/
def NamedTables (file : String → Except Os.Error Bytes) (given : Given)
    (tables : List (String × Toml.Value)) : Prop :=
  match configPath given with
  | none => tables = []
  | some path => FileTables (file path) tables

theorem parse_consistent (hhome : ∀ h ∈ home, ¬ HomePath h) {content : String}
    (h : parse home content = .ok s) :
    ∃ tables, Toml.parse? content = some tables ∧ Consistent home [] tables s := by
  obtain ⟨unchecked, hread, hfinish⟩ := bind_eq_ok h
  obtain ⟨tables, htables, happ, hbuild⟩ := readSettings_eq_ok hread
  have hs : AsChosen home [] tables unchecked := .of_read home happ hbuild
  exact ⟨tables, htables, hs.finish hhome hfinish⟩

theorem load_consistent (hhome : ∀ h ∈ home, ¬ HomePath h) {file : Except Os.Error Bytes}
    (h : load home file = .ok s) :
    ∃ tables, FileTables file tables ∧ Consistent home [] tables s := by
  cases file with
  | error e => cases h
  | ok bytes =>
      cases hcontent : ofUtf8? bytes with
      | none =>
          simp only [load, hcontent] at h
          cases h
      | some content =>
          simp only [load, hcontent] at h
          obtain ⟨tables, htables, hs⟩ := parse_consistent hhome h
          exact ⟨tables, ⟨bytes, content, rfl, hcontent, htables⟩, hs⟩

theorem fromCommandLine_consistent (hhome : ∀ h ∈ home, ¬ HomePath h)
    {file : String → Except Os.Error Bytes} (htyped : Typed given)
    (h : fromCommandLine home file given = .ok s) :
    ∃ tables, NamedTables file given tables ∧ Consistent home given tables s := by
  unfold fromCommandLine at h
  cases hpath : configPath given with
  | none =>
      rw [hpath] at h
      obtain ⟨start, hstart, hfinish⟩ := bind_eq_ok h
      cases hstart
      have hs : AsChosen home [] [] {} := .of_read home (fun _ _ => rfl) (fun _ _ => rfl)
      refine ⟨[], ?_, (hs.withFlags htyped).finish hhome hfinish⟩
      rw [NamedTables, hpath]
  | some path =>
      rw [hpath] at h
      obtain ⟨loaded, hload, hfinish⟩ := bind_eq_ok h
      obtain ⟨tables, htables, hs⟩ := load_consistent hhome hload
      refine ⟨tables, ?_, (hs.asChosen.withFlags htyped).finish hhome hfinish⟩
      rw [NamedTables, hpath]
      exact htables

end

/-- Every accepted configuration is consistent, whether it comes from a text, from a file or from
a command line; and a command line gives every setting a value of its type. -/
theorem settings_consistent {home : Option String} (hhome : ∀ h ∈ home, ¬ HomePath h) :
    (∀ content s, parse home content = .ok s →
      ∃ tables, Toml.parse? content = some tables ∧ Consistent home [] tables s) ∧
    (∀ file s, load home file = .ok s →
      ∃ tables, FileTables file tables ∧ Consistent home [] tables s) ∧
    (∀ file given s, Typed given → fromCommandLine home file given = .ok s →
      ∃ tables, NamedTables file given tables ∧ Consistent home given tables s) ∧
    ∀ args parsed, daemonProgram.parse args = .ok parsed → Typed parsed.given :=
  ⟨fun _ _ => parse_consistent hhome, fun _ _ => load_consistent hhome,
    fun _ _ _ => fromCommandLine_consistent hhome, fun _ _ => parse_typed⟩

/-- The flags are over a file with another mode, other hosts and a directory at home. -/
theorem settings_consistent_overridden :
    let content := "[app]\ndata_directory = \"~/d\"\ndaemon_mode = \"EMULATOR\"\n" ++
      "host_whitelist = \"a.local\"\n"
    let args := ["-c", "f", "--daemon-mode=usb", "--host-whitelist", " b.local,c.local "]
    ∃ parsed s tables, daemonProgram.parse args = .ok parsed ∧
      fromCommandLine (some "/home/u") (fun _ => .ok (utf8 content)) parsed.given = .ok s ∧
      Consistent (some "/home/u") parsed.given tables s ∧
      s.app.mode = .usb ∧ s.app.whitelist = ["b.local", "c.local"] ∧
      s.app.dataDirectory = "/home/u/d" := by
  intro content args
  have hhome : ∀ h ∈ some "/home/u", ¬ HomePath h := by
    intro h hh hpath
    cases hh
    obtain ⟨rest, hrest, -⟩ := homePath_iff.mp hpath
    simp at hrest
  let given : Given := [("config", .text "f"), ("daemon-mode", .text "usb"),
    ("host-whitelist", .text " b.local,c.local ")]
  have hparse : daemonProgram.parse args = .ok { given } := by rfl
  have hload : fromCommandLine (some "/home/u") (fun _ => .ok (utf8 content)) given = .ok
      { app := {
          dataDirectory := "/home/u/d"
          daemonMode := "usb"
          hostWhitelist := " b.local,c.local "
          whitelist := ["b.local", "c.local"] } } := by decide +kernel
  obtain ⟨-, -, hflags, htyped⟩ := settings_consistent hhome
  obtain ⟨tables, -, hs⟩ := hflags _ _ _ (htyped args _ hparse) hload
  exact ⟨_, _, tables, hparse, hload, hs, rfl, rfl, rfl⟩

end WalletBridge.Config
