import WalletBridge.Daemon.Start
import WalletBridge.Proofs.Lifecycle.Spread

/-! # The word to quit and the listener for diagnostics

A run has a notification of its own, and its listener for diagnostics a child of it.
What a run and its listener have heard by some time is what these two say, and
telling the listener to end tells the run nothing.
-/

namespace WalletBridge.Daemon

open Lifecycle Quits

variable {log : List Step} {q : Quits} {s : Surroundings} {released time x y : Nat}

/-- The notifications of a run by some time. Its own fires when the run is told to quit, the one of
the listener when the listener is told to end; the listener itself has a handle of its own. -/
structure Heard (s : Surroundings) (released time : Nat) (log : List Step) : Prop where
  made : made log = [.new, .child 0, .clone 1]
  quit : .trigger 0 ∈ log ↔ s.quit.any (· ≤ time) = true
  ended : .trigger 1 ∈ log ↔ released ≤ time
  listener : .trigger 2 ∉ log

section
variable (h : Heard s released time log)

include h

theorem Heard.made_iff {step : Step} : (Quits.made log)[x]? = some step ↔
    x = 0 ∧ step = .new ∨ x = 1 ∧ step = .child 0 ∨ x = 2 ∧ step = .clone 1 := by
  rw [h.made]
  rcases x with _ | _ | _ | x <;> simp [eq_comm]

theorem Heard.clone_iff : Clone log x y ↔ x = 2 ∧ y = 1 := by
  rw [Clone, h.made_iff]
  simp

theorem Heard.child_iff : Child log x y ↔ x = 1 ∧ y = 0 := by
  rw [Child, h.made_iff]
  simp

theorem Heard.same_iff :
    Same log x y ↔ x = y ∨ ((x = 1 ∨ x = 2) ∧ (y = 1 ∨ y = 2)) := by
  have hclone : Same log 2 1 := .rel _ _ (h.clone_iff.mpr ⟨rfl, rfl⟩)
  constructor
  · intro hsame
    induction hsame with
    | rel x y hclone =>
        have hxy := h.clone_iff.mp hclone
        omega
    | refl => exact .inl rfl
    | symm _ _ _ ih => omega
    | trans _ _ _ _ _ ih ih' => omega
  · rintro (rfl | ⟨rfl | rfl, rfl | rfl⟩)
    · exact .refl _
    · exact .refl _
    · exact .symm _ _ hclone
    · exact hclone
    · exact .refl _

theorem Heard.link_iff : Link log x y ↔ (x = 1 ∨ x = 2) ∧ y = 0 := by
  simp only [Link, h.same_iff, h.child_iff]
  constructor
  · rintro ⟨a, b, hx, ⟨rfl, rfl⟩, hy⟩
    omega
  · rintro ⟨hx, rfl⟩
    exact ⟨1, 0, .inr ⟨hx, .inl rfl⟩, ⟨rfl, rfl⟩, .inl rfl⟩

theorem Heard.below_iff : Below log x y ↔ (x = 1 ∨ x = 2) ∧ y = 0 := by
  constructor
  · intro hbelow
    induction hbelow with
    | single hlink => exact h.link_iff.mp hlink
    | tail _ hlink ih =>
        -- nothing is below the listener
        have hmid := (h.link_iff.mp hlink).1
        omega
  · exact fun hxy => .single (h.link_iff.mpr hxy)

variable (hq : Sound log q)

include hq

theorem Heard.handles : q.handles.length = 3 := by
  rw [← hq.count, h.made]
  rfl

theorem Heard.run_heard : q.isTriggered 0 = s.quit.any (· ≤ time) := by
  have hhandles := h.handles hq
  rw [Bool.eq_iff_iff, hq.isTriggered_iff (by omega), ← h.quit]
  simp [h.same_iff, h.below_iff]

theorem Heard.listener_heard {d : Diagnostics} (hd : d.told = s.quit) :
    q.isTriggered 2 = (d.tell released).told.any (· ≤ time) := by
  have hhandles := h.handles hq
  have htold : (d.tell released).told.any (· ≤ time) = true ↔
      s.quit.any (· ≤ time) = true ∨ released ≤ time := by
    rw [Diagnostics.tell, hd]
    cases s.quit with
    | none => simp [Option.merge]
    | some quit =>
        simp only [Option.merge, Option.any_some, decide_eq_true_eq]
        omega
  rw [Bool.eq_iff_iff, hq.isTriggered_iff (by omega), htold, ← h.quit, ← h.ended]
  constructor
  · rintro ⟨y, hy, hsame | hbelow⟩
    · rcases h.same_iff.mp hsame with rfl | ⟨-, rfl | rfl⟩
      · exact absurd hy h.listener
      · exact .inr hy
      · exact absurd hy h.listener
    · exact .inl ((h.below_iff.mp hbelow).2 ▸ hy)
  · rintro (hquit | hended)
    · exact ⟨0, hquit, .inr (h.below_iff.mpr ⟨.inr rfl, rfl⟩)⟩
    · exact ⟨1, hended, .inl (h.same_iff.mpr (.inr ⟨.inr rfl, .inl rfl⟩))⟩

end

/-- A run with a listener hears what the two notifications say, and telling the listener to end
leaves the notification of the run as it is. -/
structure Apart (s : Surroundings) (log : List Step) (q : Quits) : Prop where
  run : ∀ released time, Heard s released time log → s.quit.any (· ≤ time) = q.isTriggered 0
  listener : ∀ app p released time, app.httpProf = true → Heard s released time log →
    ∃ d, (startDiagnostics s app p).diagnostics = some d ∧
      (d.tell released).told.any (· ≤ time) = q.isTriggered 2
  kept : ∀ released time, Heard s released time log →
    (q.trigger 1).isTriggered 0 = q.isTriggered 0

/-- Notifications form a forest: a handle has fired just when its own notification or one above it
was fired, at whatever time, and firing spreads downwards only. So it does in a run. -/
theorem notifications_spread (h : Reached log q) :
    Spreads log q ∧ ∀ s : Surroundings, Apart s log q := by
  have hsound := h.sound
  refine ⟨hsound.spreads, fun s => ⟨?_, ?_, ?_⟩⟩
  · intro released time heard
    exact (heard.run_heard hsound).symm
  · intro app p released time hprof heard
    refine ⟨{ host := app.httpProfHost, told := s.quit, lingers := s.lingers }, ?_, ?_⟩
    · rw [startDiagnostics, if_pos hprof]
    · exact (heard.listener_heard hsound rfl).symm
  · intro released time heard
    exact hsound.spreads.above 0 1 (heard.below_iff.mpr ⟨.inl rfl, rfl⟩)

def lateChild : Quits := ((({} : Quits).new.trigger 0).child 0).clone 1

def endedListener : Quits := ((({} : Quits).new.child 0).clone 1).trigger 1

/-- A run that is never told to quit. -/
def untold : Surroundings where
  moment := ⟨2026, 3, 7, 3, 4, 5⟩
  working := []

/-- A child that is made late has fired when it is made, and the end of a listener leaves a run as
it is. -/
theorem notifications_spread_late :
    (Reached [.new, .trigger 0, .child 0, .clone 1] lateChild ∧
      Spreads [.new, .trigger 0, .child 0, .clone 1] lateChild ∧
      lateChild.isTriggered 2 = true) ∧
    (Reached [.new, .child 0, .clone 1, .trigger 1] endedListener ∧
      Heard untold 7 9 [.new, .child 0, .clone 1, .trigger 1] ∧
      Apart untold [.new, .child 0, .clone 1, .trigger 1] endedListener ∧
      endedListener.isTriggered 0 = false ∧ endedListener.isTriggered 2 = true) := by
  have hlate : Reached [.new, .trigger 0, .child 0, .clone 1] lateChild :=
    .next (.next (.next (.next .start (by decide)) (by decide)) (by decide)) (by decide)
  have hended : Reached [.new, .child 0, .clone 1, .trigger 1] endedListener :=
    .next (.next (.next (.next .start (by decide)) (by decide)) (by decide)) (by decide)
  have heard : Heard untold 7 9 [.new, .child 0, .clone 1, .trigger 1] :=
    ⟨rfl, by decide, by decide, by decide⟩
  refine ⟨⟨hlate, (notifications_spread hlate).1, by decide⟩, hended, heard, ?_⟩
  exact ⟨(notifications_spread hended).2 untold, by decide, by decide⟩

end WalletBridge.Daemon
