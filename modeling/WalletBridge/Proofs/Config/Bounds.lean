import WalletBridge.Proofs.Config.Accepted
import WalletBridge.Proofs.Toml.Numbers

/-! # Numbers of accepted configurations

A file gives a setting numbers of 63 bits at most, a flag all that the setting can hold. The check
of a configuration asks of its two timeouts only that they are not zero.
-/

namespace WalletBridge.Config

open Command Json Text

/-- The ways to a checked configuration. -/
inductive Accepted (home : Option String) : Settings → Prop where
  | text {content : String} {s : Settings} (h : parse home content = .ok s) : Accepted home s
  | file {bytes : Except Os.Error Bytes} {s : Settings} (h : load home bytes = .ok s) :
      Accepted home s
  | commandLine {file : String → Except Os.Error Bytes} {args : List String} {parsed : Parsed}
      {s : Settings} (hparse : daemonProgram.parse args = .ok parsed)
      (h : fromCommandLine home file parsed.given = .ok s) : Accepted home s

def timeoutField : Field App :=
  ⟨"shutdown_timeout_secs",
    .number .natural64 App.shutdownTimeout fun r a => { r with shutdownTimeout := a }⟩

theorem timeoutField_mem : timeoutField ∈ App.fields := by
  simp [timeoutField, App.fields]

section
variable {home : Option String} {s s' : Settings}

theorem contents_bounded {ρ : Type} (fields : List (Field ρ)) {v : Toml.Value} (h : v.Bounded) :
    ∀ m ∈ contents fields v, m.2.Bounded := by
  cases h with
  | table hinside => exact hinside
  | list hinside =>
      rintro ⟨name, item⟩ hm
      exact hinside item (List.of_mem_zip hm).2
  | _ =>
      intro m hm
      cases hm

/-- A file gives a setting no number of more than 63 bits. -/
theorem fileValue_bounded {ρ : Type} {tables : List (String × Toml.Value)} {table name : String}
    {fields : List (Field ρ)} {n : Nat} (hbounded : ∀ t ∈ tables, t.2.Bounded)
    (h : fileValue? tables table fields name = some (.number n)) : n < 2 ^ 63 := by
  obtain ⟨v, hv, h⟩ := Option.bind_eq_some_iff.mp h
  obtain ⟨member, hmember, h⟩ := Option.bind_eq_some_iff.mp h
  have hinside := contents_bounded fields (hbounded _ (mem_of_lookup hv)) _ (mem_of_lookup hmember)
  cases hinside with
  | @whole k least greatest =>
      cases k with
      | ofNat k =>
          cases h
          have hbelow : (n : Int) < 0x8000000000000000 := greatest
          omega
      | negSucc k => cases h
  | _ => cases h

theorem readSettings_timeout {content : String} (h : readSettings content = .ok s) :
    s.app.shutdownTimeout < 2 ^ 63 := by
  obtain ⟨tables, htables, happ, -⟩ := readSettings_eq_ok h
  have hread : Value.number s.app.shutdownTimeout =
      (fileValue? tables "app" App.fields "shutdown_timeout_secs").getD (.number 30) :=
    happ timeoutField timeoutField_mem
  cases hfile : fileValue? tables "app" App.fields "shutdown_timeout_secs" with
  | none =>
      rw [hfile] at hread
      rw [Value.number.inj hread]
      decide
  | some v =>
      rw [hfile, Option.getD_some] at hread
      rw [← hread] at hfile
      exact fileValue_bounded (Toml.parse_bounded htables) hfile

theorem finish_timeout (h : finish home s = .ok s') :
    s'.app.shutdownTimeout = s.app.shutdownTimeout ∧ 0 < s'.app.shutdownTimeout := by
  obtain ⟨hvalid, rfl⟩ := finish_eq_ok h
  exact ⟨rfl, hvalid.shutdownTimeout⟩

theorem parse_timeout {content : String} (h : parse home content = .ok s) :
    0 < s.app.shutdownTimeout ∧ s.app.shutdownTimeout < 2 ^ 63 := by
  obtain ⟨unchecked, hread, hfinish⟩ := bind_eq_ok h
  obtain ⟨hsame, hpositive⟩ := finish_timeout hfinish
  exact ⟨hpositive, hsame ▸ readSettings_timeout hread⟩

theorem load_timeout {file : Except Os.Error Bytes} (h : load home file = .ok s) :
    0 < s.app.shutdownTimeout ∧ s.app.shutdownTimeout < 2 ^ 63 := by
  cases file with
  | error e => cases h
  | ok bytes =>
      cases hcontent : ofUtf8? bytes with
      | none =>
          simp only [load, hcontent] at h
          cases h
      | some content =>
          simp only [load, hcontent] at h
          exact parse_timeout h

/-- The time for giving back is what its flag says, or has 63 bits at most. -/
theorem fromCommandLine_timeout {file : String → Except Os.Error Bytes} {given : Given}
    (htyped : Typed given) (h : fromCommandLine home file given = .ok s) :
    0 < s.app.shutdownTimeout ∧ s.app.shutdownTimeout < 2 ^ 64 ∧
      (given.find? "shutdown-timeout-secs" = some (.number s.app.shutdownTimeout) ∨
        s.app.shutdownTimeout < 2 ^ 63) := by
  obtain ⟨loaded, hbelow, hfinish⟩ : ∃ loaded : Settings, loaded.app.shutdownTimeout < 2 ^ 63 ∧
      finish home { loaded with app := withFlags given App.fields loaded.app } = .ok s := by
    unfold fromCommandLine at h
    cases hpath : configPath given with
    | none =>
        rw [hpath] at h
        obtain ⟨start, hstart, hfinish⟩ := bind_eq_ok h
        cases hstart
        exact ⟨{}, by decide, hfinish⟩
    | some path =>
        rw [hpath] at h
        obtain ⟨loaded, hload, hfinish⟩ := bind_eq_ok h
        exact ⟨loaded, (load_timeout hload).2, hfinish⟩
  obtain ⟨hsame, hpositive⟩ := finish_timeout hfinish
  have hread : Value.number (withFlags given App.fields loaded.app).shutdownTimeout =
      (given.find? "shutdown-timeout-secs").getD (.number loaded.app.shutdownTimeout) :=
    withFlags_read htyped timeoutField_mem loaded.app
  refine ⟨hpositive, ?_⟩
  dsimp only at hsame
  rw [hsame]
  cases hflag : given.find? "shutdown-timeout-secs" with
  | none =>
      rw [hflag, Option.getD_none, Value.number.injEq] at hread
      rw [hread]
      exact ⟨by omega, .inr hbelow⟩
  | some v =>
      rw [hflag, Option.getD_some] at hread
      have htakes : timeoutField.slot.Takes v := htyped timeoutField timeoutField_mem v hflag
      rw [← hread] at htakes
      have greatest : ((withFlags given App.fields loaded.app).shutdownTimeout : Int) ≤
          0xFFFFFFFFFFFFFFFF := htakes.2
      exact ⟨by omega, .inl (congrArg some hread.symm)⟩

/-- The time for giving back of a checked configuration is not zero and has 64 bits; only a flag
can give it more than 63. -/
theorem Accepted.timeout (h : Accepted home s) :
    0 < s.app.shutdownTimeout ∧ s.app.shutdownTimeout < 2 ^ 64 ∧
      (2 ^ 63 ≤ s.app.shutdownTimeout → ∃ args parsed, daemonProgram.parse args = .ok parsed ∧
        parsed.given.find? "shutdown-timeout-secs" = some (.number s.app.shutdownTimeout)) := by
  cases h with
  | text h =>
      obtain ⟨hpositive, hbelow⟩ := parse_timeout h
      exact ⟨hpositive, by omega, fun habove => absurd hbelow (by omega)⟩
  | file h =>
      obtain ⟨hpositive, hbelow⟩ := load_timeout h
      exact ⟨hpositive, by omega, fun habove => absurd hbelow (by omega)⟩
  | commandLine hparse h =>
      obtain ⟨hpositive, hbelow, hflag | hbelow'⟩ := fromCommandLine_timeout (parse_typed hparse) h
      · exact ⟨hpositive, hbelow, fun _ => ⟨_, _, hparse, hflag⟩⟩
      · exact ⟨hpositive, hbelow, fun habove => absurd hbelow' (by omega)⟩

end

end WalletBridge.Config
