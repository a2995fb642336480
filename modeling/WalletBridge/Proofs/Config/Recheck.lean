import WalletBridge.Proofs.Config.Merged

/-! # Settings that are checked again

The settings of a file are checked when it is read, and once more when the flags
have been put over them. A check reads the mode and the hosts from settings that
it leaves alone, and a directory that it has expanded does not expand further. So
a second check finds what the first one found, right or wrong, and leaves the
settings as they are.
-/

namespace WalletBridge.Config

open Command Json Text

section
variable {home : Option String} {s s' : Settings}

theorem expandHome_completed (hhome : ∀ h ∈ home, ¬ HomePath h) (app : App) :
    expandHome home (fillIn home app).dataDirectory = expandHome home app.dataDirectory := by
  cases hexpands : expandHome home app.dataDirectory with
  | none =>
      -- without a home directory the `~` stays, and so does the finding
      rw [fillIn, hexpands, Option.getD_none, hexpands]
  | some expanded =>
      have hnot := not_homePath_of_expandHome hhome hexpands
      rw [fillIn, hexpands, Option.getD_some, expandHome_of_not_homePath hnot]

theorem fillIn_completed (hhome : ∀ h ∈ home, ¬ HomePath h) (app : App) :
    fillIn home (fillIn home app) = fillIn home app := by
  have hdirectory : (fillIn home (fillIn home app)).dataDirectory =
      (fillIn home app).dataDirectory := by
    have hsame := expandHome_completed hhome app
    rw [fillIn, hsame]
    cases hexpands : expandHome home app.dataDirectory with
    | none => rfl
    | some expanded => simp only [fillIn, hexpands, Option.getD_some]
  have hmode : (fillIn home (fillIn home app)).mode = (fillIn home app).mode := by
    -- a text that names no mode leaves the mode of the check before
    simp only [fillIn]
    cases Device.Mode.ofText? app.daemonMode <;> rfl
  calc fillIn home (fillIn home app)
      = { fillIn home app with
          mode := (fillIn home (fillIn home app)).mode
          dataDirectory := (fillIn home (fillIn home app)).dataDirectory } := rfl
    _ = fillIn home app := by rw [hmode, hdirectory]

theorem problems_completed (hhome : ∀ h ∈ home, ¬ HomePath h) (app : App) :
    problems home (fillIn home app) = problems home app := by
  refine problems_congr (fun f hf hname => fillIn_read hf hname home app) ?_
  rw [expandHome_completed hhome]

theorem complete_completed (hhome : ∀ h ∈ home, ¬ HomePath h) (s : Settings) :
    complete home (complete home s).1 = complete home s := by
  simp only [complete, fillIn_completed hhome, problems_completed hhome]

/-! ## A file without flags over it -/

theorem finish_finished (hhome : ∀ h ∈ home, ¬ HomePath h) (h : finish home s = .ok s') :
    finish home s' = .ok s' := by
  cases hproblems : problems home s.app with
  | cons p rest =>
      rw [finish_of_problems (by simp [hproblems])] at h
      cases h
  | nil =>
      rw [finish_of_valid hproblems, Except.ok.injEq] at h
      have happ : s'.app = fillIn home s.app := by rw [← h]
      have hagain : problems home s'.app = [] := by
        rw [happ, problems_completed hhome, hproblems]
      rw [finish_of_valid hagain, happ, fillIn_completed hhome, ← happ]

theorem load_finishes {file : Except Os.Error Bytes} (h : load home file = .ok s) :
    ∃ unchecked, finish home unchecked = .ok s := by
  cases file with
  | error e => cases h
  | ok bytes =>
      cases hcontent : ofUtf8? bytes with
      | none =>
          simp only [load, hcontent] at h
          cases h
      | some content =>
          simp only [load, hcontent] at h
          obtain ⟨unchecked, -, hfinish⟩ := bind_eq_ok h
          exact ⟨unchecked, hfinish⟩

theorem withFlags_nothing {given : Given} {fields : List (Field App)}
    (h : ∀ f ∈ fields, given.find? (flagName f.name) = none) (app : App) :
    withFlags given fields app = app := by
  induction fields with
  | nil => rfl
  | cons f fields ih =>
      rw [List.forall_mem_cons] at h
      rw [withFlags_cons, h.1]
      exact ih h.2

theorem fromCommandLine_file (hhome : ∀ h ∈ home, ¬ HomePath h)
    {file : String → Except Os.Error Bytes} {given : Given} {path : String}
    (hpath : configPath given = some path)
    (hflags : ∀ f ∈ App.fields, given.find? (flagName f.name) = none) :
    fromCommandLine home file given = load home (file path) := by
  simp only [fromCommandLine, hpath, withFlags_nothing hflags]
  cases hload : load home (file path) with
  | error failure => rfl
  | ok s =>
      obtain ⟨unchecked, hfinish⟩ := load_finishes hload
      simp only [bind, Except.bind]
      exact finish_finished hhome hfinish

end

/-- Whatever a check finds, a second one finds the same and changes nothing more. No check changes
anything but the directory, the mode and the list of hosts. So the second check of a file without
flags over it shows nowhere. -/
theorem check_repeats {home : Option String} (hhome : ∀ h ∈ home, ¬ HomePath h) :
    (∀ s, complete home (complete home s).1 = complete home s) ∧
    (∀ s, ∃ directory mode whitelist, (complete home s).1 =
      { s with app := { s.app with dataDirectory := directory, mode, whitelist } }) ∧
    ∀ file given path, configPath given = some path →
      (∀ f ∈ App.fields, given.find? (flagName f.name) = none) →
      fromCommandLine home file given = load home (file path) :=
  ⟨complete_completed hhome, fun _ => ⟨_, _, _, rfl⟩, fun _ _ _ => fromCommandLine_file hhome⟩

/-- Settings with an unknown mode over a known one, no port and a directory at home: the check
fails, keeps the mode of before, and expands the directory all the same. -/
theorem check_repeats_failing :
    let given : Settings := { app := {
      daemonMode := "BLUETOOTH", mode := .emulator, port := 0, dataDirectory := "~/d"
      hostWhitelist := " a.local, ,b.local" } }
    let left : Settings := { app := { given.app with
      dataDirectory := "/home/u/d", whitelist := ["a.local", "b.local"] } }
    (∀ h ∈ some "/home/u", ¬ HomePath h) ∧
      (complete (some "/home/u") given).1 = left ∧
      (complete (some "/home/u") given).2.map (·.field) = ["daemon_mode", "web_interface_port"] ∧
      complete (some "/home/u") left = complete (some "/home/u") given := by
  intro given left
  have hhome : ∀ h ∈ some "/home/u", ¬ HomePath h := by
    intro h hh hpath
    cases hh
    obtain ⟨rest, hrest, -⟩ := homePath_iff.mp hpath
    simp at hrest
  have hleft : (complete (some "/home/u") given).1 = left := by decide +kernel
  obtain ⟨hagain, -, -⟩ := check_repeats hhome
  refine ⟨hhome, hleft, by decide +kernel, ?_⟩
  rw [← hleft, hagain given]

end WalletBridge.Config
