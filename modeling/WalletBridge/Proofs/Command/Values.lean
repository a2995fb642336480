import WalletBridge.Command.Arguments
import WalletBridge.Proofs.Json.Reading

/-! # The values of a command line

Whatever a program reads from its arguments belongs to one of its options and is
of the kind that this option takes. A value may come from the same argument as
its option or from a later one, so the invariant of the reader also speaks of the
option that is still waiting.
-/

namespace WalletBridge.Command

open Json

/-- The value was read for an option of that name. -/
def Program.Reads (program : Program) (long : String) (v : Value) : Prop :=
  ∃ flag ∈ program.flags, flag.long = long ∧ ∃ text, flag.kind.read text = .ok v

theorem Given.mem_of_find? {given : Given} {long : String} {v : Value}
    (h : given.find? long = some v) : (long, v) ∈ given := by
  obtain ⟨m, hm, rfl⟩ := Option.map_eq_some_iff.mp h
  have hlong := List.find?_some hm
  rw [← beq_iff_eq.mp hlong]
  exact List.mem_of_find?_eq_some hm

namespace State

/-- Everything read belongs to an option of the program, and what waits is such an option. -/
structure Sound (program : Program) (s : State) : Prop where
  given : ∀ m ∈ s.given, program.Reads m.1 m.2
  pending : ∀ p ∈ s.pending, p.1 ∈ program.flags

variable {program : Program} {s s' : State} {flag : Flag} {value : String}

theorem sound_start : State.Sound program {} where
  given := by simp
  pending := by simp

theorem take_sound (hs : s.Sound program) (hflag : flag ∈ program.flags)
    (h : s.take flag value = .ok s') : s'.Sound program := by
  rw [take] at h
  split at h
  · cases h
  · obtain ⟨v, hread, h⟩ := bind_eq_ok h
    cases h
    have hnew : program.Reads flag.long v := ⟨flag, hflag, rfl, value, hread⟩
    refine ⟨?_, hs.pending⟩
    intro m hm
    rcases List.mem_append.mp hm with hm | hm
    · exact hs.given m hm
    · cases List.mem_singleton.mp hm
      exact hnew

theorem settle_sound (hs : s.Sound program) (h : s.settle = .ok s') : s'.Sound program := by
  obtain ⟨given, pending⟩ := s
  match pending with
  | none =>
      cases h
      exact hs
  | some (_, none) => cases h
  | some (flag, some value) =>
      have hflag : flag ∈ program.flags := hs.pending _ rfl
      have hbare : State.Sound program { given } := ⟨hs.given, nofun⟩
      exact take_sound hbare hflag h

theorem openFlag_sound {attached : Option String} (hs : s.Sound program)
    (hflag : flag ∈ program.flags) (h : s.openFlag flag attached = .ok s') :
    s'.Sound program := by
  obtain ⟨settled, hsettle, h⟩ := bind_eq_ok h
  have hsettled := settle_sound hs hsettle
  cases attached with
  | some value => exact take_sound hsettled hflag h
  | none =>
      cases h
      refine ⟨hsettled.given, ?_⟩
      rintro p ⟨⟩
      exact hflag

theorem fill_sound (hs : s.Sound program) (value : String) : (s.fill value).Sound program := by
  refine ⟨hs.given, ?_⟩
  intro p hp
  obtain ⟨q, hq, rfl⟩ := Option.map_eq_some_iff.mp hp
  exact hs.pending q hq

theorem askHelp_ne_ok : s.askHelp ≠ .ok s' := by
  intro h
  obtain ⟨_, -, h⟩ := bind_eq_ok h
  cases h

end State

namespace Program

variable {program : Program} {s s' : State}

theorem long_sound {body : List Char} (hs : s.Sound program) (h : program.long s body = .ok s') :
    s'.Sound program := by
  unfold long at h
  extract_lets name attached at h
  cases hfind : program.flags.find? (·.long.toList == name) with
  | some flag =>
      rw [hfind] at h
      exact State.openFlag_sound hs (List.mem_of_find?_eq_some hfind) h
  | none =>
      simp only [hfind] at h
      split at h
      · split at h
        · cases h
        · exact absurd h State.askHelp_ne_ok
      · cases h

theorem short_sound {letter : Char} {rest : List Char} (hs : s.Sound program)
    (h : program.short s letter rest = .ok s') : s'.Sound program := by
  cases hfind : program.flags.find? (·.short == some letter) with
  | some flag =>
      simp only [short, hfind] at h
      exact State.openFlag_sound hs (List.mem_of_find?_eq_some hfind) h
  | none =>
      simp only [short, hfind] at h
      split at h
      · exact absurd h State.askHelp_ne_ok
      · cases h

theorem read_sound {args : List String} {parsed : Parsed} (hs : s.Sound program)
    (h : program.read s args = .ok parsed) : ∀ m ∈ parsed.given, program.Reads m.1 m.2 := by
  induction args generalizing s with
  | nil =>
      obtain ⟨settled, hsettle, h⟩ := bind_eq_ok h
      cases h
      exact (State.settle_sound hs hsettle).given
  | cons arg args ih =>
      rw [read] at h
      split at h
      · obtain ⟨settled, hsettle, h⟩ := bind_eq_ok h
        cases h
        exact (State.settle_sound hs hsettle).given
      · split at h
        · split at h
          · obtain ⟨settled, hsettle, h⟩ := bind_eq_ok h
            cases h
            exact (State.settle_sound hs hsettle).given
          · cases h
        · obtain ⟨next, hlong, h⟩ := bind_eq_ok h
          exact ih (long_sound hs hlong) h
        · obtain ⟨next, hshort, h⟩ := bind_eq_ok h
          exact ih (short_sound hs hshort) h
        · split at h
          · exact ih (State.fill_sound hs arg) h
          · cases h

theorem parse_reads {args : List String} {parsed : Parsed} (h : program.parse args = .ok parsed) :
    ∀ m ∈ parsed.given, program.Reads m.1 m.2 :=
  read_sound State.sound_start h

end Program

end WalletBridge.Command
