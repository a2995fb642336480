import WalletBridge.Proofs.Lifecycle.Forest

/-! # How far firing spreads

What fired can be told from the steps alone: a handle has fired just when one of
its own notification was fired, or one of a notification above it, be it before or
after the handle was made. Nothing spreads upwards or to the side.
-/

namespace WalletBridge.Lifecycle

namespace Quits

variable {log : List Step} {notices : List Notice} {q : Quits} {x y a b n m p : Nat}

/-! ## Handles of one notification -/

/-- A handle is a clone of one other at most, so two handles of one notification were made as
clones, one of the other, of one common handle. -/
theorem same_join (hsame : Same log x y) :
    Relation.Join (Relation.ReflTransGen (Clone log)) x y := by
  have hone (x y z : Nat) (hy : Clone log x y) (hz : Clone log x z) :
      ∃ d, Relation.ReflGen (Clone log) y d ∧ Relation.ReflTransGen (Clone log) z d := by
    rw [Clone, hz, Option.some.injEq] at hy
    cases hy
    exact ⟨y, .refl, .refl⟩
  have hequiv := Relation.equivalence_join_reflTransGen hone
  refine hequiv.eqvGen_iff.mp (Relation.EqvGen.mono ?_ x y hsame)
  intro x y hclone
  exact ⟨y, .single hclone, .refl⟩

theorem Child.not_clone (hchild : Child log a p) (c : Nat) : ¬ Clone log a c := by
  intro hclone
  rw [Clone, hchild] at hclone
  cases hclone

theorem Child.eq_of_same {p' : Nat} (ha : Child log a p) (hb : Child log b p')
    (hsame : Same log a b) : a = b := by
  obtain ⟨c, hac, hbc⟩ := same_join hsame
  rcases hac.cases_head with rfl | ⟨d, hclone, -⟩
  · rcases hbc.cases_head with rfl | ⟨d, hclone, -⟩
    · rfl
    · exact absurd hclone (hb.not_clone d)
  · exact absurd hclone (ha.not_clone d)

/-! ## The forest of the steps and that of the notifications -/

theorem under_iff : Under notices n m ↔ n = m ∨ Relation.TransGen (Parent notices) n m := by
  rw [Under, Relation.reflTransGen_iff_eq_or_transGen, eq_comm]

theorem Planted.above_lt (hplanted : Planted notices)
    (h : Relation.TransGen (Parent notices) n m) : m < n := by
  induction h with
  | single hparent => exact hplanted.earlier _ _ hparent
  | tail _ hparent ih => exact Nat.lt_trans (hplanted.earlier _ _ hparent) ih

section
variable (h : Sound log q)

include h

theorem Sound.noticeOf_eq (hsame : Same log x y) : q.noticeOf x = q.noticeOf y := by
  induction hsame with
  | rel x y hclone => exact (h.clone x y hclone).2
  | refl x => rfl
  | symm x y _ ih => exact ih.symm
  | trans x y z _ _ ih ih' => exact ih.trans ih'

theorem Sound.lt_iff (hsame : Same log x y) : x < q.handles.length ↔ y < q.handles.length := by
  induction hsame with
  | rel x y hclone =>
      have hx := h.made_lt hclone
      have hy := (h.clone x y hclone).1
      exact iff_of_true hx hy
  | refl x => exact Iff.rfl
  | symm x y _ ih => exact ih.symm
  | trans x y z _ _ ih ih' => exact ih.trans ih'

theorem Sound.same_iff (hx : x < q.handles.length) (hy : y < q.handles.length) :
    Same log x y ↔ q.noticeOf x = q.noticeOf y := by
  refine ⟨h.noticeOf_eq, fun hnotice => ?_⟩
  obtain ⟨z, -, -, hall⟩ := h.handled _ (h.within y hy)
  exact .trans _ _ _ (hall x hx hnotice) (.symm _ _ (hall y hy rfl))

theorem Sound.parent_of_link (hlink : Link log x y) :
    Parent q.notices (q.noticeOf x) (q.noticeOf y) := by
  obtain ⟨a, b, hx, hchild, hy⟩ := hlink
  rw [h.noticeOf_eq hx, ← h.noticeOf_eq hy]
  exact (h.child a b hchild).2

theorem Sound.link_of_parent (hx : x < q.handles.length) (hy : y < q.handles.length)
    (hparent : Parent q.notices (q.noticeOf x) (q.noticeOf y)) : Link log x y := by
  obtain ⟨a, b, hchild, ha, hb⟩ := h.edge _ _ hparent
  refine ⟨a, b, ?_, hchild, ?_⟩
  · exact (h.same_iff hx (h.made_lt hchild)).mpr ha.symm
  · exact (h.same_iff (h.child a b hchild).1 hy).mpr hb

theorem Sound.above_of_below (hbelow : Below log x y) :
    Relation.TransGen (Parent q.notices) (q.noticeOf x) (q.noticeOf y) :=
  Relation.TransGen.lift q.noticeOf (fun _ _ hlink => h.parent_of_link hlink) _ _ hbelow

theorem Sound.below_of_above (hx : x < q.handles.length) (hy : y < q.handles.length)
    (habove : Relation.TransGen (Parent q.notices) (q.noticeOf x) (q.noticeOf y)) :
    Below log x y := by
  generalize hm : q.noticeOf y = m at habove
  induction habove generalizing y with
  | single hparent =>
      rw [← hm] at hparent
      exact .single (h.link_of_parent hx hy hparent)
  | tail _ hparent ih =>
      -- the notification on the way has a handle
      obtain ⟨z, hz, hnotice, -⟩ := h.handled _ hparent.lt_length
      rw [← hm, ← hnotice] at hparent
      exact .tail (ih hz hnotice) (h.link_of_parent hz hy hparent)

/-- To stand below a notification or to be it is the same for the steps and in the row. -/
theorem Sound.under_iff (hx : x < q.handles.length) (hy : y < q.handles.length) :
    Under q.notices (q.noticeOf x) (q.noticeOf y) ↔ Same log x y ∨ Below log x y := by
  rw [Quits.under_iff, h.same_iff hx hy]
  exact or_congr_right ⟨h.below_of_above hx hy, h.above_of_below⟩

theorem Sound.below_lt (hbelow : Below log x y) :
    x < q.handles.length ∧ y < q.handles.length := by
  induction hbelow with
  | single hlink =>
      obtain ⟨a, b, hx, hchild, hy⟩ := hlink
      exact ⟨(h.lt_iff hx).mpr (h.made_lt hchild), (h.lt_iff hy).mp (h.child a b hchild).1⟩
  | tail _ hlink ih =>
      obtain ⟨a, b, -, hchild, hy⟩ := hlink
      exact ⟨ih.1, (h.lt_iff hy).mp (h.child a b hchild).1⟩

/-! ## What has fired -/

theorem Sound.isTriggered_iff (hx : x < q.handles.length) :
    q.isTriggered x = true ↔ ∃ y, .trigger y ∈ log ∧ (Same log x y ∨ Below log x y) := by
  rw [isTriggered, h.fired _ (h.within x hx)]
  refine exists_congr fun y => and_congr_right fun hy => ?_
  exact h.under_iff hx (h.named y hy)

theorem Sound.isTriggered_trigger (hx : x < q.handles.length) (hy : y < q.handles.length) :
    (q.trigger y).isTriggered x = true ↔
      q.isTriggered x = true ∨ (Same log x y ∨ Below log x y) := by
  rw [isTriggered, noticeOf_trigger, Quits.trigger, fired_iff h.planted (h.within y hy),
    h.under_iff hx hy, isTriggered]

theorem Sound.trigger_apart (hx : x < q.handles.length) (hy : y < q.handles.length)
    (hsame : ¬ Same log x y) (hbelow : ¬ Below log x y) :
    (q.trigger y).isTriggered x = q.isTriggered x := by
  rw [Bool.eq_iff_iff, h.isTriggered_trigger hx hy]
  simp [hsame, hbelow]

/-- What is above another notification is neither it nor below it. -/
theorem Sound.not_under_of_below (hbelow : Below log x y) :
    ¬ Same log y x ∧ ¬ Below log y x := by
  have hlt := h.planted.above_lt (h.above_of_below hbelow)
  refine ⟨fun hsame => ?_, fun hback => ?_⟩
  · have hnotice := h.noticeOf_eq hsame
    omega
  · have hgt := h.planted.above_lt (h.above_of_below hback)
    omega

/-- Of two children of one notification, neither is below the other. -/
theorem Sound.not_below_of_siblings (hx : Link log x p) (hy : Link log y p) : ¬ Below log x y := by
  intro hbelow
  have hx' := h.parent_of_link hx
  have hlt := h.planted.earlier _ _ (h.parent_of_link hy)
  obtain ⟨m, hparent, hrest⟩ := (Relation.TransGen.head'_iff).mp (h.above_of_below hbelow)
  have hle := Under.le h.planted hrest
  rw [← hx'.unique hparent] at hle
  omega

end

/-- How firing spreads among notifications that some steps made. -/
structure Spreads (log : List Step) (q : Quits) : Prop where
  /-- What has fired was fired itself, or something above it was. -/
  fired : ∀ x < q.handles.length, q.isTriggered x = true ↔
    ∃ y, .trigger y ∈ log ∧ (Same log x y ∨ Below log x y)
  lasting : ∀ x < q.handles.length, q.isTriggered x = true →
    ∀ later q', Reached (log ++ later) q' → q'.isTriggered x = true
  /-- Firing a notification leaves alone what is neither it nor below it. -/
  apart : ∀ x < q.handles.length, ∀ y < q.handles.length, ¬ Same log x y → ¬ Below log x y →
    (q.trigger y).isTriggered x = q.isTriggered x
  above : ∀ x y, Below log y x → (q.trigger y).isTriggered x = q.isTriggered x
  /-- Nothing spreads to other children of the same notification. -/
  beside : ∀ a b p p', Child log a p → Child log b p' → Same log p p' → a ≠ b →
    ∀ x y, Same log x a → Same log y b → (q.trigger y).isTriggered x = q.isTriggered x

theorem Sound.spreads (h : Sound log q) : Spreads log q where
  fired := fun _ => h.isTriggered_iff
  lasting := by
    intro x hx hfired later q' hreached
    have hprefix : log <+: log ++ later := List.prefix_append ..
    have hx' : x < q'.handles.length := by
      rw [← hreached.sound.count, made_append, List.length_append, h.count]
      omega
    obtain ⟨y, hy, hunder⟩ := (h.isTriggered_iff hx).mp hfired
    refine (hreached.sound.isTriggered_iff hx').mpr ⟨y, List.mem_append_left _ hy, ?_⟩
    exact hunder.imp (·.mono hprefix) (·.mono hprefix)
  apart := fun _ hx _ hy => h.trigger_apart hx hy
  above := by
    intro x y hbelow
    obtain ⟨hy, hx⟩ := h.below_lt hbelow
    obtain ⟨hsame, hback⟩ := h.not_under_of_below hbelow
    exact h.trigger_apart hx hy hsame hback
  beside := by
    intro a b p p' ha hb hp hne x y hxa hyb
    have hx : x < q.handles.length := (h.lt_iff hxa).mpr (h.made_lt ha)
    have hy : y < q.handles.length := (h.lt_iff hyb).mpr (h.made_lt hb)
    refine h.trigger_apart hx hy ?_ (h.not_below_of_siblings ⟨a, p, hxa, ha, hp⟩
      ⟨b, p', hyb, hb, .refl _⟩)
    intro hxy
    have hab : Same log a b := .trans _ _ _ (.symm _ _ hxa) (.trans _ _ _ hxy hyb)
    exact hne (ha.eq_of_same hb hab)

end Quits

end WalletBridge.Lifecycle
