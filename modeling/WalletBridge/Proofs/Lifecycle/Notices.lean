import Mathlib.Logic.Relation
import WalletBridge.Lifecycle.Quit

/-! # Firing a notification and what is below it

Notifications are kept in a row in which a parent stands before its children. To
fire one, the row is gone through once: a notification fires when it is that one
or when its parent, which was gone through before, has fired. Since a parent that
has fired has no child that has not, this fires exactly that notification and
everything below it.
-/

namespace WalletBridge.Lifecycle

namespace Quits

variable {notices : List Notice} {n m p i : Nat}

def Parent (notices : List Notice) (n p : Nat) : Prop :=
  ∃ notice, notices[n]? = some notice ∧ notice.parent = some p

/-- Number `n` is number `m` or stands below it. -/
def Under (notices : List Notice) : Nat → Nat → Prop := Relation.ReflTransGen (Parent notices)

/-- Parents stand before their children, and a child of one that has fired has fired. -/
structure Planted (notices : List Notice) : Prop where
  earlier : ∀ n p, Parent notices n p → p < n
  heard : ∀ n p, Parent notices n p → noticeFired notices p = true → noticeFired notices n = true

theorem Parent.lt_length (h : Parent notices n p) : n < notices.length := by
  obtain ⟨notice, hnotice, -⟩ := h
  exact (List.getElem?_eq_some_iff.mp hnotice).choose

theorem Parent.unique {p' : Nat} (h : Parent notices n p) (h' : Parent notices n p') : p = p' := by
  obtain ⟨notice, hnotice, hparent⟩ := h
  obtain ⟨notice', hnotice', hparent'⟩ := h'
  rw [hnotice, Option.some.injEq] at hnotice'
  rw [← hnotice', hparent] at hparent'
  exact Option.some.inj hparent'

theorem Under.le (hplanted : Planted notices) (h : Under notices n m) : m ≤ n := by
  induction h with
  | refl => exact Nat.le_refl n
  | tail _ hparent ih => exact Nat.le_trans (Nat.le_of_lt (hplanted.earlier _ _ hparent)) ih

theorem under_iff_of_parent (h : Parent notices n p) :
    Under notices n m ↔ n = m ∨ Under notices p m := by
  constructor
  · intro hunder
    rcases Relation.ReflTransGen.cases_head hunder with hsame | ⟨p', hparent, hrest⟩
    · exact .inl hsame
    · exact .inr (h.unique hparent ▸ hrest)
  · rintro (rfl | hrest)
    · exact .refl
    · exact .head h hrest

theorem under_iff_of_root (h : ∀ p, ¬ Parent notices n p) : Under notices n m ↔ n = m := by
  constructor
  · intro hunder
    rcases Relation.ReflTransGen.cases_head hunder with hsame | ⟨p, hparent, -⟩
    · exact hsame
    · exact absurd hparent (h p)
  · rintro rfl
    exact .refl

/-! ## Going through the row -/

/-- A notification after number `n` has fired in a row that was fired to `fired`. -/
def afterFiring (n : Nat) (fired : List Notice) (i : Nat) (notice : Notice) : Notice :=
  { notice with fired := fires n i fired notice }

theorem fireFrom_eq_append (n : Nat) (before rest : List Notice) :
    ∃ later, fireFrom n before rest = before ++ later := by
  induction rest generalizing before with
  | nil => exact ⟨[], (List.append_nil before).symm⟩
  | cons notice rest ih =>
      obtain ⟨later, hlater⟩ := ih (before ++ [afterFiring n before before.length notice])
      exact ⟨_, hlater.trans (List.append_assoc ..)⟩

theorem fireFrom_length (n : Nat) (before rest : List Notice) :
    (fireFrom n before rest).length = before.length + rest.length := by
  induction rest generalizing before with
  | nil => rfl
  | cons notice rest ih =>
      rw [fireFrom, ih, List.length_append, List.length_singleton, List.length_cons]
      omega

/-- What was gone through before is not changed any more. -/
theorem noticeFired_fireFrom {before : List Notice} (h : i < before.length) (n : Nat)
    (rest : List Notice) : noticeFired (fireFrom n before rest) i = noticeFired before i := by
  obtain ⟨later, hlater⟩ := fireFrom_eq_append n before rest
  rw [noticeFired, hlater, List.getElem?_append_left h, noticeFired]

theorem fires_congr {fired fired' : List Notice} {notice : Notice}
    (h : ∀ p, notice.parent = some p → noticeFired fired p = noticeFired fired' p) :
    fires n i fired notice = fires n i fired' notice := by
  unfold fires
  cases hparent : notice.parent with
  | none => rfl
  | some p => simp only [h p hparent]

/-- In the row that comes about, each notification has fired just when it had before, is the one
to fire, or has a parent that has fired. -/
theorem getElem?_fireFrom {before rest : List Notice} {notice : Notice} {k : Nat}
    (hnotice : rest[k]? = some notice)
    (hearlier : ∀ p, notice.parent = some p → p < before.length + k) :
    (fireFrom n before rest)[before.length + k]? =
      some (afterFiring n (fireFrom n before rest) (before.length + k) notice) := by
  induction rest generalizing before k with
  | nil => cases hnotice
  | cons first rest ih =>
      cases k with
      | zero =>
          cases hnotice
          have hsame : fires n before.length before notice =
              fires n before.length (fireFrom n before (notice :: rest)) notice :=
            fires_congr fun p hp => (noticeFired_fireFrom (hearlier p hp) n (notice :: rest)).symm
          have hfirst : (fireFrom n before (notice :: rest))[before.length]? =
              some (afterFiring n before before.length notice) := by
            obtain ⟨later, hlater⟩ :=
              fireFrom_eq_append n (before ++ [afterFiring n before before.length notice]) rest
            rw [fireFrom, ← afterFiring, hlater]
            simp
          rw [Nat.add_zero, hfirst, afterFiring, hsame, afterFiring]
      | succ k =>
          have hlength : (before ++ [afterFiring n before before.length first]).length + k =
              before.length + (k + 1) := by
            rw [List.length_append, List.length_singleton]
            omega
          have hnext := @ih (before ++ [afterFiring n before before.length first]) k hnotice
            fun p hp => by rw [hlength]; exact hearlier p hp
          rw [hlength] at hnext
          exact hnext

section
variable (hplanted : Planted notices)

include hplanted

theorem getElem?_fired {notice : Notice} (h : notices[i]? = some notice) (n : Nat) :
    (fireFrom n [] notices)[i]? = some (afterFiring n (fireFrom n [] notices) i notice) := by
  have hindex : ([] : List Notice).length + i = i := Nat.zero_add i
  rw [← hindex]
  refine getElem?_fireFrom h fun p hp => ?_
  rw [hindex]
  exact hplanted.earlier i p ⟨notice, h, hp⟩

theorem parent_fireFrom (n : Nat) : Parent (fireFrom n [] notices) i p ↔ Parent notices i p := by
  by_cases hi : i < notices.length
  · have hnotice := List.getElem?_eq_getElem hi
    have hfired := getElem?_fired hplanted hnotice n
    simp [Parent, hnotice, hfired, afterFiring]
  · have hbeyond : (fireFrom n [] notices).length ≤ i := by
      rw [fireFrom_length, List.length_nil]
      omega
    simp [Parent, List.getElem?_eq_none (Nat.le_of_not_lt hi), List.getElem?_eq_none hbeyond]

theorem fired_iff (hn : n < notices.length) :
    noticeFired (fireFrom n [] notices) i = true ↔
      noticeFired notices i = true ∨ Under notices i n := by
  induction i using Nat.strongRecOn with
  | ind i ih =>
      cases hnotice : notices[i]? with
      | none =>
          have hbeyond : notices.length ≤ i := List.getElem?_eq_none_iff.mp hnotice
          have hafter : (fireFrom n [] notices)[i]? = none := by
            rw [List.getElem?_eq_none_iff, fireFrom_length, List.length_nil]
            omega
          have hroot : ∀ p, ¬ Parent notices i p := fun p hp => by
            have hlt := hp.lt_length
            omega
          have hne : i ≠ n := by omega
          simp [noticeFired, hnotice, hafter, under_iff_of_root hroot, hne]
      | some notice =>
          have hafter := getElem?_fired hplanted hnotice n
          cases hparent : notice.parent with
          | none =>
              have hroot : ∀ p, ¬ Parent notices i p := by
                rintro p ⟨notice', hnotice', hp⟩
                rw [hnotice, Option.some.injEq] at hnotice'
                rw [← hnotice', hparent] at hp
                cases hp
              simp [noticeFired, hnotice, hafter, afterFiring, fires, hparent,
                under_iff_of_root hroot]
          | some p =>
              have hedge : Parent notices i p := ⟨notice, hnotice, hparent⟩
              have hfires : noticeFired (fireFrom n [] notices) i = true ↔
                  (noticeFired notices i = true ∨ i = n) ∨
                    noticeFired (fireFrom n [] notices) p = true := by
                simp [noticeFired, hnotice, hafter, afterFiring, fires, hparent]
              rw [hfires, ih p (hplanted.earlier i p hedge), under_iff_of_parent hedge]
              constructor
              · rintro ((hown | hself) | (hbefore | hbelow))
                · exact .inl hown
                · exact .inr (.inl hself)
                · -- a parent that had fired before has only children that had
                  exact .inl (hplanted.heard i p hedge hbefore)
                · exact .inr (.inr hbelow)
              · rintro (hown | hself | hbelow)
                · exact .inl (.inl hown)
                · exact .inl (.inr hself)
                · exact .inr (.inr hbelow)

theorem Planted.fired (hn : n < notices.length) : Planted (fireFrom n [] notices) where
  earlier := fun i p hp => hplanted.earlier i p ((parent_fireFrom hplanted n).mp hp)
  heard := by
    intro i p hp hfired
    have hedge := (parent_fireFrom hplanted n).mp hp
    rw [fired_iff hplanted hn] at hfired ⊢
    rcases hfired with hbefore | hunder
    · exact .inl (hplanted.heard i p hedge hbefore)
    · exact .inr ((under_iff_of_parent hedge).mpr (.inr hunder))

end

end Quits

end WalletBridge.Lifecycle
