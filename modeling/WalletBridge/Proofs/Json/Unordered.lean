import Mathlib.Data.List.Pairwise
import WalletBridge.Proofs.Json.Tagged

/-! # The order of members does not show

Two trees that differ in the order of members stand for values that differ so as
well, and a record that is read from the one is read from the other. Each member
changes a part of the draft of its own, so that two changes may be made in
either order; the names that were seen are compared as a set.
-/

namespace WalletBridge.Json

open Text

/-- The members of one object in the value change places. -/
inductive Reorders : Json → Json → Prop where
  | here {members members' : List (String × Json)} (h : members.Perm members') :
      Reorders (.object members) (.object members')
  | item {before after : List Json} {v v' : Json} (h : Reorders v v') :
      Reorders (.list (before ++ v :: after)) (.list (before ++ v' :: after))
  | member {before after : List (String × Json)} {name : String} {v v' : Json}
      (h : Reorders v v') :
      Reorders (.object (before ++ (name, v) :: after)) (.object (before ++ (name, v') :: after))

/-! ## Options -/

section
variable {R : α → β → Prop} {o : Option α} {o' : Option β}

theorem rel_bind {S : γ → δ → Prop} {f : α → Option γ} {f' : β → Option δ} (h : Option.Rel R o o')
    (hf : ∀ a b, R a b → Option.Rel S (f a) (f' b)) : Option.Rel S (o.bind f) (o'.bind f') := by
  cases h with
  | none => exact .none
  | some hrel => exact hf _ _ hrel

theorem rel_map {S : γ → δ → Prop} {f : α → γ} {f' : β → δ} (h : Option.Rel R o o')
    (hf : ∀ a b, R a b → S (f a) (f' b)) : Option.Rel S (o.map f) (o'.map f') := by
  cases h with
  | none => exact .none
  | some hrel => exact .some (hf _ _ hrel)

theorem rel_trans {R : α → α → Prop} (htrans : ∀ a b c, R a b → R b c → R a c)
    {o o' o'' : Option α} (h : Option.Rel R o o') (h' : Option.Rel R o' o'') :
    Option.Rel R o o'' := by
  cases h with
  | none => exact h'
  | some hrel =>
      cases h' with
      | some hrel' => exact .some (htrans _ _ _ hrel hrel')

theorem rel_eq (o : Option α) : Option.Rel Eq o o := by
  cases o with
  | none => exact .none
  | some a => exact .some rfl

/-- Results that do not tell related values apart are the same. -/
theorem bind_eq_of_rel {f : α → Option γ} {f' : β → Option γ} (h : Option.Rel R o o')
    (hf : ∀ a b, R a b → f a = f' b) : o.bind f = o'.bind f' := by
  cases h with
  | none => rfl
  | some hrel => exact hf _ _ hrel

end

/-! ## Lists -/

/-- Two lists differ in one item only. -/
def Replaced (R : α → α → Prop) (l l' : List α) : Prop :=
  ∃ before a a' after, l = before ++ a :: after ∧ l' = before ++ a' :: after ∧ R a a'

theorem mapM_perm {f : α → Option β} {l l' : List α} (h : l.Perm l') :
    Option.Rel List.Perm (l.mapM f) (l'.mapM f) := by
  induction h with
  | nil => exact .some .rfl
  | cons a _ ih =>
      rw [List.mapM_cons, List.mapM_cons]
      refine rel_bind (rel_eq (f a)) ?_
      rintro b _ rfl
      exact rel_bind ih fun bs bs' hperm => .some (hperm.cons b)
  | swap a a' l =>
      simp only [List.mapM_cons]
      cases f a <;> cases f a' <;> cases l.mapM f
      all_goals first
        | exact .none
        | exact .some (List.Perm.swap ..)
  | trans _ _ ih ih' => exact rel_trans (R := List.Perm) (fun _ _ _ h h' => h.trans h') ih ih'

theorem mapM_replaced {f : α → Option β} {R : β → β → Prop} {a a' : α}
    (h : Option.Rel R (f a) (f a')) (before after : List α) :
    Option.Rel (Replaced R) ((before ++ a :: after).mapM f) ((before ++ a' :: after).mapM f) := by
  simp only [List.mapM_append, List.mapM_cons]
  refine rel_bind (rel_eq (before.mapM f)) ?_
  rintro bs _ rfl
  refine rel_bind (R := Replaced R) ?_ ?_
  · refine rel_bind h fun b b' hrel => ?_
    refine rel_bind (rel_eq (after.mapM f)) ?_
    rintro cs _ rfl
    exact .some ⟨[], b, b', cs, rfl, rfl, hrel⟩
  · rintro _ _ ⟨ds, b, b', cs, rfl, rfl, hrel⟩
    exact .some ⟨bs ++ ds, b, b', cs, by simp, by simp, hrel⟩

/-- A loop whose steps may be swapped does not depend on the order of the list, as far as the key of
its states tells them apart. -/
theorem foldlM_perm {step : β → α → Option β} {key : β → κ}
    (hsame : ∀ a b b', key b = key b' → (step b a).map key = (step b' a).map key)
    (hswap : ∀ a a' b, ((step b a).bind (step · a')).map key =
      ((step b a').bind (step · a)).map key) {l l' : List α} (h : l.Perm l') (b : β) :
    (l.foldlM step b).map key = (l'.foldlM step b).map key := by
  -- what is left of the loop keeps the keys of its two states the same
  have hfold : ∀ (l : List α) (o o' : Option β), o.map key = o'.map key →
      (o.bind (l.foldlM step)).map key = (o'.bind (l.foldlM step)).map key := by
    intro l
    induction l with
    | nil =>
        intro o o' ho
        cases o <;> cases o' <;> exact ho
    | cons a l ih =>
        intro o o' ho
        cases o with
        | none =>
            cases o' with
            | none => rfl
            | some b' => cases ho
        | some b =>
            cases o' with
            | none => cases ho
            | some b' => exact ih _ _ (hsame a b b' (Option.some.inj ho))
  induction h generalizing b with
  | nil => rfl
  | cons a _ ih =>
      rw [List.foldlM_cons, List.foldlM_cons]
      cases step b a with
      | none => rfl
      | some c => exact ih c
  | swap a a' l =>
      have hfirst := hfold l _ _ (hswap a' a b)
      rw [Option.bind_assoc, Option.bind_assoc] at hfirst
      exact hfirst
  | trans _ _ ih ih' => exact (ih b).trans (ih' b)

/-! ## Values of trees -/

def MemberRel (R : V → V → Prop) (m m' : String × V) : Prop := m.1 = m'.1 ∧ R m.2 m'.2

theorem named?_perm {members members' : List (Spelling × Tree)} (h : members.Perm members') :
    Option.Rel List.Perm (named? members) (named? members') := mapM_perm h

theorem named?_member (name : Spelling) {T T' : Tree} (h : T.Reorders T')
    (before after : List (Spelling × Tree)) :
    Option.Rel (Replaced (MemberRel Tree.Reorders)) (named? (before ++ (name, T) :: after))
      (named? (before ++ (name, T') :: after)) := by
  refine mapM_replaced ?_ before after
  exact rel_map (rel_eq name.value?) fun text _ htext => ⟨htext, h⟩

theorem valued?_perm {look : Tree → Option Json} {members members' : List (Spelling × Tree)}
    (h : members.Perm members') :
    Option.Rel List.Perm (valued? look members) (valued? look members') :=
  rel_bind (named?_perm h) fun _ _ hperm => mapM_perm hperm

theorem valued?_member {look : Tree → Option Json} {name : Spelling} {T T' : Tree}
    (hlook : Option.Rel Reorders (look T) (look T')) (before after : List (Spelling × Tree)) :
    Option.Rel (Replaced (MemberRel Reorders)) (valued? look (before ++ (name, T) :: after))
      (valued? look (before ++ (name, T') :: after)) := by
  have hnamed : Option.Rel (Replaced fun m m' => ∃ text, m = (text, T) ∧ m' = (text, T'))
      (named? (before ++ (name, T) :: after)) (named? (before ++ (name, T') :: after)) := by
    refine mapM_replaced ?_ before after
    refine rel_map (rel_eq name.value?) ?_
    rintro text _ rfl
    exact ⟨text, rfl, rfl⟩
  refine rel_bind hnamed ?_
  rintro _ _ ⟨before, _, _, after, rfl, rfl, text, rfl, rfl⟩
  refine mapM_replaced ?_ before after
  exact rel_map hlook fun v v' hv => ⟨rfl, hv⟩

theorem rel_reorders_list {items items' : Option (List Json)}
    (h : Option.Rel (Replaced Reorders) items items') :
    Option.Rel Reorders (items.map Json.list) (items'.map Json.list) := by
  refine rel_map h ?_
  rintro _ _ ⟨before, v, v', after, rfl, rfl, hv⟩
  exact .item hv

theorem rel_reorders_object {members members' : Option (List (String × Json))}
    (h : Option.Rel (Replaced (MemberRel Reorders)) members members') :
    Option.Rel Reorders (members.map Json.object) (members'.map Json.object) := by
  refine rel_map h ?_
  rintro _ _ ⟨before, ⟨name, v⟩, ⟨_, v'⟩, after, rfl, rfl, rfl, hv⟩
  exact .member hv

/-- Trees that differ in the order of members stand for values that do, or for none. -/
theorem Tree.Reorders.value? {T T' : Tree} (h : T.Reorders T') (depth : Nat) :
    Option.Rel Json.Reorders (T.value? depth) (T'.value? depth) := by
  induction h generalizing depth with
  | here hperm =>
      obtain _ | _ | depth := depth
      · exact .none
      · exact .none
      · exact rel_map (valued?_perm hperm) fun _ _ => .here
  | item _ ih =>
      obtain _ | _ | depth := depth
      · exact .none
      · exact .none
      · exact rel_reorders_list (mapM_replaced (ih (depth + 1)) _ _)
  | member _ ih =>
      obtain _ | _ | depth := depth
      · exact .none
      · exact .none
      · exact rel_reorders_object (valued?_member (ih (depth + 1)) _ _)

end WalletBridge.Json
