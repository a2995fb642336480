import WalletBridge.Proofs.Config.Accepted

/-! # Flags over a file

The values of a file are checked before the flags are put over them, and the outcome once more. So
a flag cannot make up for a wrong value of the file; over a file that is right on its own, the
flags are judged by what they, the file and the defaults say together.
-/

namespace WalletBridge.Config

open Command Json Text

/-- The settings are what the flags, the file and the defaults say. -/
def Merged (given : Given) (tables : List (String × Toml.Value)) (app : App) : Prop :=
  ∀ f ∈ App.fields, f.slot.read app = chosen given tables f

/-- What becomes of flags over a file: `own` are the settings of the file alone, `merged` those of
flags and file together. -/
structure Judged (home : Option String) (own merged : App) (outcome : Except Failure Settings) :
    Prop where
  /-- What is wrong with the file is wrong whatever the flags say. -/
  unsound : problems home own ≠ [] → outcome = .error (.invalid (problems home own))
  refused : problems home own = [] → problems home merged ≠ [] →
    outcome = .error (.invalid (problems home merged))
  accepted : problems home own = [] → problems home merged = [] →
    ∃ s, outcome = .ok s ∧ ∀ f ∈ App.fields, f.name ≠ "data_directory" →
      f.slot.read s.app = f.slot.read merged

section
variable {home : Option String} {given : Given} {tables : List (String × Toml.Value)}
  {app app' : App} {s : Settings}

/-- What is wrong is told by the settings alone, and of the directory only whether it can be
expanded. -/
theorem problems_congr
    (hsame : ∀ f ∈ App.fields, f.name ≠ "data_directory" → f.slot.read app = f.slot.read app')
    (hdirectory : (expandHome home app.dataDirectory).isNone =
      (expandHome home app'.dataDirectory).isNone) :
    problems home app = problems home app' := by
  simp only [App.fields, List.forall_mem_cons, Slot.read, Value.text.injEq, Value.truth.injEq,
    Value.number.injEq] at hsame
  obtain ⟨address, port, -, -, -, -, profileCpu, profileCpuFile, -, -, -, -, -, daemonMode,
    shutdownTimeout, requestTimeout, -⟩ := hsame
  unfold problems
  rw [address (by decide), port (by decide), profileCpu (by decide), profileCpuFile (by decide),
    daemonMode (by decide), shutdownTimeout (by decide), requestTimeout (by decide), hdirectory]

theorem finish_of_problems (h : problems home s.app ≠ []) :
    finish home s = .error (.invalid (problems home s.app)) := by
  cases hproblems : problems home s.app with
  | nil => exact absurd hproblems h
  | cons p rest => simp [finish, complete, hproblems]

theorem finish_of_valid (h : problems home s.app = []) :
    finish home s = .ok { s with app := fillIn home s.app } := by
  simp [finish, complete, h]

theorem expandHome_fillIn (h : problems home app = []) :
    (expandHome home (fillIn home app).dataDirectory).isSome = true := by
  obtain ⟨expanded, hexpanded⟩ := Option.isSome_iff_exists.mp (valid_of_problems h).directory
  have hfilled : (fillIn home app).dataDirectory = expanded := by
    rw [fillIn, hexpanded, Option.getD_some]
  rw [hfilled]
  by_cases hpath : HomePath app.dataDirectory
  · -- there is a home directory, so every path can be expanded
    obtain ⟨rest, hlist, hrest⟩ := homePath_iff.mp hpath
    simp only [expandHome, hlist, hrest, if_true] at hexpanded
    obtain ⟨directory, rfl, -⟩ := Option.map_eq_some_iff.mp hexpanded
    unfold expandHome
    split
    · split <;> rfl
    · rfl
  · rw [expandHome_of_not_homePath hpath] at hexpanded
    cases hexpanded
    rw [expandHome_of_not_homePath hpath]
    rfl

/-- Flags find the same wrong over settings that are right as over the completed ones. -/
theorem problems_withFlags_fillIn (htyped : Typed given) (h : problems home app = []) :
    problems home (withFlags given App.fields (fillIn home app)) =
      problems home (withFlags given App.fields app) := by
  refine problems_congr ?_ ?_
  · intro f hf hname
    rw [withFlags_read htyped hf, withFlags_read htyped hf, fillIn_read hf hname]
  · have hmerged (app : App) : Value.text (withFlags given App.fields app).dataDirectory =
        (given.find? (flagName "data_directory")).getD (.text app.dataDirectory) :=
      withFlags_read htyped directoryField_mem app
    cases hfind : given.find? (flagName "data_directory") with
    | some v =>
        simp only [hfind, Option.getD_some] at hmerged
        rw [Value.text.inj ((hmerged (fillIn home app)).trans (hmerged app).symm)]
    | none =>
        simp only [hfind, Option.getD_none, Value.text.injEq] at hmerged
        rw [hmerged, hmerged, Option.isNone_eq_false_iff.mpr (expandHome_fillIn h),
          Option.isNone_eq_false_iff.mpr (valid_of_problems h).directory]

theorem judged_of_finish (htyped : Typed given) (s : Settings) :
    Judged home s.app (withFlags given App.fields s.app) (do
      let s ← finish home s
      finish home { s with app := withFlags given App.fields s.app }) := by
  let checked : Settings := { s with app := withFlags given App.fields (fillIn home s.app) }
  have hsecond (hown : problems home s.app = []) : (do
      let s ← finish home s
      finish home { s with app := withFlags given App.fields s.app }) = finish home checked := by
    simp only [finish_of_valid hown, bind, Except.bind, checked]
  have hsame (hown : problems home s.app = []) :
      problems home checked.app = problems home (withFlags given App.fields s.app) :=
    problems_withFlags_fillIn htyped hown
  refine ⟨?_, ?_, ?_⟩
  · intro hown
    simp only [finish_of_problems hown, bind, Except.bind]
  · intro hown hmerged
    rw [hsecond hown, ← hsame hown]
    exact finish_of_problems ((hsame hown).trans_ne hmerged)
  · intro hown hmerged
    refine ⟨_, (hsecond hown).trans (finish_of_valid ((hsame hown).trans hmerged)), ?_⟩
    intro f hf hname
    rw [fillIn_read hf hname, withFlags_read htyped hf, withFlags_read htyped hf,
      fillIn_read hf hname]

end

/-- A file that is wrong on its own is refused for exactly that, whatever the flags say. Over any
other file the flags are accepted just when nothing is wrong with the settings of flags, file and
defaults together, and else refused for exactly what is wrong with these. -/
theorem flags_judged {home : Option String} {file : String → Except Os.Error Bytes}
    {args : List String} {parsed : Parsed} {path content : String} {bytes : Bytes} {s : Settings}
    (hparse : daemonProgram.parse args = .ok parsed) (hpath : configPath parsed.given = some path)
    (hfile : file path = .ok bytes) (htext : ofUtf8? bytes = some content)
    (hread : readSettings content = .ok s) :
    ∃ tables own merged, Toml.parse? content = some tables ∧ Merged [] tables own ∧
      Merged parsed.given tables merged ∧
      Judged home own merged (fromCommandLine home file parsed.given) := by
  have htyped := parse_typed hparse
  obtain ⟨tables, htables, happ, -⟩ := readSettings_eq_ok hread
  refine ⟨tables, s.app, withFlags parsed.given App.fields s.app, htables, happ, ?_, ?_⟩
  · intro f hf
    rw [withFlags_read htyped hf, chosen_eq, happ f hf]
    rfl
  · have houtcome : fromCommandLine home file parsed.given = (do
        let s ← finish home s
        finish home { s with app := withFlags parsed.given App.fields s.app }) := by
      simp only [fromCommandLine, hpath, hfile, load, htext, parse, hread, bind, Except.bind]
    rw [houtcome]
    exact judged_of_finish htyped s

/-- Two flags over a file, one of them against a value of the file. -/
theorem flags_judged_overridden :
    let content := "[app]\nweb_interface_port = 8000\n"
    let args := ["-c", "f", "--web-interface-port=9600", "--enable-csrf=false"]
    let file : String → Except Os.Error Bytes := fun _ => .ok (utf8 content)
    ∃ parsed tables own merged, daemonProgram.parse args = .ok parsed ∧
      Merged [] tables own ∧ Merged parsed.given tables merged ∧
      Judged (some "/home/u") own merged (fromCommandLine (some "/home/u") file parsed.given) ∧
      Toml.parse? content = some tables := by
  intro content args file
  let given : Given := [("config", .text "f"), ("web-interface-port", .number 9600),
    ("enable-csrf", .truth false)]
  have hparse : daemonProgram.parse args = .ok { given } := by rfl
  have hread : readSettings content = .ok { app := { port := 8000 } } := by decide +kernel
  have htext : ofUtf8? (utf8 content) = some content := by decide +kernel
  obtain ⟨tables, own, merged, htables, hown, hmerged, hjudged⟩ :=
    @flags_judged (some "/home/u") file args { given } "f" content (utf8 content) _ hparse rfl rfl
      htext hread
  exact ⟨_, tables, own, merged, hparse, hown, hmerged, hjudged, htables⟩

/-- A flag with a right value over a file with a wrong one: nothing is wrong with the two together,
and the file is refused all the same. -/
theorem flag_repairs_nothing :
    let content := "[app]\nweb_interface_port = 0\n"
    let args := ["--config", "f", "--web-interface-port", "9600"]
    ∃ parsed s, daemonProgram.parse args = .ok parsed ∧ readSettings content = .ok s ∧
      (withFlags parsed.given App.fields s.app).port = 9600 ∧
      problems (some "/home/u") (withFlags parsed.given App.fields s.app) = [] ∧
      fromCommandLine (some "/home/u") (fun _ => .ok (utf8 content)) parsed.given =
        .error (.invalid [⟨"web_interface_port", "must be non-zero"⟩]) := by
  intro content args
  refine ⟨{ given := [("config", .text "f"), ("web-interface-port", .number 9600)] },
    { app := { port := 0 } }, rfl, ?_, rfl, ?_, ?_⟩ <;> decide +kernel

end WalletBridge.Config
