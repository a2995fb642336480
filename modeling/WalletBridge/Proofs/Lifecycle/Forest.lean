import WalletBridge.Proofs.Lifecycle.Notices

/-! # Forests of notifications

Handles are made one after another: each is a new notification of its own, a
further handle of one that there is, or a child of one. Which handles stand for
the same notification and which stand below others is told from these steps alone,
and so is which have fired: those that were fired themselves, through another
handle, or through a handle above them, in whatever order that came about.
-/

namespace WalletBridge.Lifecycle

/-- A step in the life of notifications. Handles are numbered in the order in which they are
made. -/
inductive Step where
  | new
  /-- Makes a further handle of the same notification. -/
  | clone (handle : Nat)
  | child (handle : Nat)
  | trigger (handle : Nat)
deriving DecidableEq, Repr

def Step.handle? : Step → Option Nat
  | .new => none
  | .clone handle | .child handle | .trigger handle => some handle

/-- Whether a step makes a handle. -/
def Step.makes : Step → Bool
  | .trigger _ => false
  | _ => true

namespace Quits

def step (q : Quits) : Step → Quits
  | .new => q.new
  | .clone handle => q.clone handle
  | .child handle => q.child handle
  | .trigger handle => q.trigger handle

/-- What some steps lead to, each of them about a handle that there is. -/
inductive Reached : List Step → Quits → Prop where
  | start : Reached [] {}
  | next {log : List Step} {q : Quits} {s : Step} (before : Reached log q)
      (known : ∀ handle ∈ s.handle?, handle < q.handles.length) : Reached (log ++ [s]) (q.step s)

variable {log : List Step} {q q' : Quits} {s : Step} {x y n m p : Nat}

/-! ## What the steps say -/

def made (log : List Step) : List Step := log.filter Step.makes

/-- Handle `x` was made as a further handle of the notification of `y`. -/
def Clone (log : List Step) (x y : Nat) : Prop := (made log)[x]? = some (.clone y)

/-- Handle `x` was made for a child of the notification of `y`. -/
def Child (log : List Step) (x y : Nat) : Prop := (made log)[x]? = some (.child y)

/-- The two handles stand for the same notification. -/
def Same (log : List Step) : Nat → Nat → Prop := Relation.EqvGen (Clone log)

/-- Handle `x` stands for a child of the notification of `y`. -/
def Link (log : List Step) (x y : Nat) : Prop :=
  ∃ a b, Same log x a ∧ Child log a b ∧ Same log b y

/-- Handle `x` stands somewhere below the notification of `y`. -/
def Below (log : List Step) : Nat → Nat → Prop := Relation.TransGen (Link log)

theorem made_append (log more : List Step) : made (log ++ more) = made log ++ made more :=
  List.filter_append ..

theorem made_trigger (log : List Step) (handle : Nat) :
    made (log ++ [.trigger handle]) = made log := by
  rw [made_append]
  exact List.append_nil _

theorem made_concat (hmakes : s.makes = true) (log : List Step) :
    made (log ++ [s]) = made log ++ [s] := by
  rw [made_append]
  simp [made, hmakes]

theorem made_concat_iff {t : Step} (hmakes : s.makes = true) :
    (made (log ++ [s]))[x]? = some t ↔
      (made log)[x]? = some t ∨ x = (made log).length ∧ s = t := by
  rw [made_concat hmakes, List.getElem?_append]
  split
  · next hx =>
      have hne : x ≠ (made log).length := Nat.ne_of_lt hx
      simp [hne]
  · next hx =>
      have hnone : (made log)[x]? = none := List.getElem?_eq_none (Nat.le_of_not_lt hx)
      rw [hnone, List.getElem?_singleton]
      have hlast : x - (made log).length = 0 ↔ x = (made log).length := by omega
      simp [hlast]

section
variable {more : List Step} (hlog : log <+: more)

include hlog

theorem made_mono {t : Step} (h : (made log)[x]? = some t) : (made more)[x]? = some t := by
  obtain ⟨later, rfl⟩ := hlog
  have hx := (List.getElem?_eq_some_iff.mp h).choose
  rw [made_append, List.getElem?_append_left hx, h]

theorem Same.mono (h : Same log x y) : Same more x y :=
  Relation.EqvGen.mono (fun _ _ => made_mono hlog) x y h

theorem Link.mono (h : Link log x y) : Link more x y := by
  obtain ⟨a, b, hx, hchild, hy⟩ := h
  exact ⟨a, b, hx.mono hlog, made_mono hlog hchild, hy.mono hlog⟩

theorem Below.mono (h : Below log x y) : Below more x y :=
  Relation.TransGen.mono (fun _ _ => Link.mono hlog) x y h

end

/-! ## What a step leaves alone -/

/-- The handles and parents that there are stay as they are. -/
structure Extends (q q' : Quits) : Prop where
  handles : q.handles <+: q'.handles
  notices : q.notices.length ≤ q'.notices.length
  parents : ∀ n < q.notices.length, ∀ p, Parent q'.notices n p ↔ Parent q.notices n p

theorem noticeOf_eq (h : q.handles[x]? = some n) : q.noticeOf x = n := by
  rw [noticeOf, List.getD_eq_getElem?_getD, h, Option.getD_some]

theorem Extends.noticeOf (h : Extends q q') (hx : x < q.handles.length) :
    q'.noticeOf x = q.noticeOf x := by
  obtain ⟨later, hlater⟩ := h.handles
  have hfound := List.getElem?_eq_getElem hx
  rw [noticeOf_eq hfound]
  refine noticeOf_eq ?_
  rw [← hlater, List.getElem?_append_left hx, hfound]

theorem Extends.under (h : Extends q q') (hplanted : Planted q.notices)
    (hn : n < q.notices.length) : Under q'.notices n m ↔ Under q.notices n m := by
  induction n using Nat.strongRecOn with
  | ind n ih =>
      by_cases hparent : ∃ p, Parent q.notices n p
      · obtain ⟨p, hp⟩ := hparent
        have hearlier := hplanted.earlier n p hp
        rw [under_iff_of_parent hp, under_iff_of_parent ((h.parents n hn p).mpr hp),
          ih p hearlier (by omega)]
      · have hroot : ∀ p, ¬ Parent q.notices n p := fun p hp => hparent ⟨p, hp⟩
        have hroot' : ∀ p, ¬ Parent q'.notices n p := fun p hp =>
          hroot p ((h.parents n hn p).mp hp)
        rw [under_iff_of_root hroot, under_iff_of_root hroot']

/-! ## One more notification -/

/-- A new notification with a handle of its own, perhaps below another one. -/
def plant (q : Quits) (parent : Option Nat) (fired : Bool) : Quits where
  notices := q.notices ++ [{ parent, fired }]
  handles := q.handles ++ [q.notices.length]

section
variable {parent : Option Nat} {fired : Bool}

theorem parent_plant_old (hn : n < q.notices.length) :
    Parent (q.plant parent fired).notices n p ↔ Parent q.notices n p := by
  simp only [Parent, plant, List.getElem?_append_left hn]

theorem parent_plant_new :
    Parent (q.plant parent fired).notices q.notices.length p ↔ parent = some p := by
  simp [Parent, plant]

theorem fired_plant_old (hn : n < q.notices.length) :
    noticeFired (q.plant parent fired).notices n = noticeFired q.notices n := by
  simp only [noticeFired, plant, List.getElem?_append_left hn]

theorem fired_plant_new :
    noticeFired (q.plant parent fired).notices q.notices.length = fired := by
  simp [noticeFired, plant]

theorem noticeOf_plant_new :
    (q.plant parent fired).noticeOf q.handles.length = q.notices.length :=
  noticeOf_eq (by simp [plant])

theorem plant_extends : Extends q (q.plant parent fired) where
  handles := List.prefix_append _ _
  notices := by simp [plant]
  parents := fun _ hn _ => parent_plant_old hn

end

theorem clone_extends (q : Quits) (handle : Nat) : Extends q (q.clone handle) where
  handles := List.prefix_append _ _
  notices := Nat.le_refl _
  parents := fun _ _ _ => Iff.rfl

theorem noticeOf_clone_new (q : Quits) (handle : Nat) :
    (q.clone handle).noticeOf q.handles.length = q.noticeOf handle :=
  noticeOf_eq (by simp [clone])

theorem trigger_extends (hplanted : Planted q.notices) (handle : Nat) :
    Extends q (q.trigger handle) where
  handles := List.prefix_refl _
  notices := by simp [trigger, fireFrom_length]
  parents := fun _ _ _ => parent_fireFrom hplanted _

/-! ## What the steps say is so -/

structure Sound (log : List Step) (q : Quits) : Prop where
  count : (made log).length = q.handles.length
  within : ∀ x < q.handles.length, q.noticeOf x < q.notices.length
  named : ∀ y, .trigger y ∈ log → y < q.handles.length
  planted : Planted q.notices
  clone : ∀ x y, Clone log x y → y < q.handles.length ∧ q.noticeOf x = q.noticeOf y
  child : ∀ x y, Child log x y →
    y < q.handles.length ∧ Parent q.notices (q.noticeOf x) (q.noticeOf y)
  handled : ∀ n < q.notices.length, ∃ x < q.handles.length, q.noticeOf x = n ∧
    ∀ y < q.handles.length, q.noticeOf y = n → Same log y x
  edge : ∀ n p, Parent q.notices n p → ∃ x y, Child log x y ∧ q.noticeOf x = n ∧ q.noticeOf y = p
  fired : ∀ n < q.notices.length, noticeFired q.notices n = true ↔
    ∃ y, .trigger y ∈ log ∧ Under q.notices n (q.noticeOf y)

theorem Sound.start : Sound [] {} where
  count := rfl
  within := nofun
  named := nofun
  planted := ⟨fun _ _ h => absurd h.lt_length (by simp), fun _ _ h => absurd h.lt_length (by simp)⟩
  clone := nofun
  child := nofun
  handled := nofun
  edge := fun _ _ h => absurd h.lt_length (by simp)
  fired := nofun

theorem Sound.made_lt (h : Sound log q) (hmade : (made log)[x]? = some s) :
    x < q.handles.length := by
  rw [← h.count]
  exact (List.getElem?_eq_some_iff.mp hmade).choose

/-! ### What every step keeps -/

section
variable {later : List Step} (h : Sound log q) (hext : Extends q q')

include h hext

theorem Sound.kept_named (hy : .trigger y ∈ log) : y < q'.handles.length :=
  Nat.lt_of_lt_of_le (h.named y hy) hext.handles.length_le

theorem Sound.kept_within (hx : x < q.handles.length) : q'.noticeOf x < q'.notices.length := by
  rw [hext.noticeOf hx]
  exact Nat.lt_of_lt_of_le (h.within x hx) hext.notices

theorem Sound.kept_clone (hclone : Clone log x y) :
    y < q'.handles.length ∧ q'.noticeOf x = q'.noticeOf y := by
  obtain ⟨hy, hsame⟩ := h.clone x y hclone
  rw [hext.noticeOf (h.made_lt hclone), hext.noticeOf hy]
  exact ⟨Nat.lt_of_lt_of_le hy hext.handles.length_le, hsame⟩

theorem Sound.kept_child (hchild : Child log x y) :
    y < q'.handles.length ∧ Parent q'.notices (q'.noticeOf x) (q'.noticeOf y) := by
  have hx := h.made_lt hchild
  obtain ⟨hy, hparent⟩ := h.child x y hchild
  rw [hext.noticeOf hx, hext.noticeOf hy]
  exact ⟨Nat.lt_of_lt_of_le hy hext.handles.length_le,
    (hext.parents _ (h.within x hx) _).mpr hparent⟩

theorem Sound.kept_handled (hlog : log <+: later) (hn : n < q.notices.length) :
    ∃ x < q.handles.length, q'.noticeOf x = n ∧
      ∀ y < q.handles.length, q'.noticeOf y = n → Same later y x := by
  obtain ⟨x, hx, hnotice, hall⟩ := h.handled n hn
  refine ⟨x, hx, by rw [hext.noticeOf hx, hnotice], ?_⟩
  intro y hy hsame
  rw [hext.noticeOf hy] at hsame
  exact (hall y hy hsame).mono hlog

theorem Sound.kept_edge (hlog : log <+: later) (hparent : Parent q.notices n p) :
    ∃ x y, Child later x y ∧ q'.noticeOf x = n ∧ q'.noticeOf y = p := by
  obtain ⟨x, y, hchild, hx, hy⟩ := h.edge n p hparent
  refine ⟨x, y, made_mono hlog hchild, ?_, ?_⟩
  · rw [hext.noticeOf (h.made_lt hchild), hx]
  · rw [hext.noticeOf (h.child x y hchild).1, hy]

/-- What was fired before is above as many notifications as it was. -/
theorem Sound.kept_under (hn : n < q.notices.length) (hy : .trigger y ∈ log) :
    Under q'.notices n (q'.noticeOf y) ↔ Under q.notices n (q.noticeOf y) := by
  rw [hext.noticeOf (h.named y hy), hext.under h.planted hn]

theorem Sound.kept_fired (hlog : ∀ y, .trigger y ∈ later ↔ .trigger y ∈ log)
    (hn : n < q.notices.length) :
    noticeFired q.notices n = true ↔
      ∃ y, .trigger y ∈ later ∧ Under q'.notices n (q'.noticeOf y) := by
  rw [h.fired n hn]
  refine exists_congr fun y => ?_
  rw [hlog]
  exact and_congr_right fun hy => (h.kept_under hext hn hy).symm

end

/-! ### A new notification -/

/-- A step that makes a new notification, with its parent and whether it has fired. -/
inductive Plants (q : Quits) : Step → Option Nat → Bool → Prop where
  | new : Plants q .new none false
  | child {y : Nat} (known : y < q.handles.length) :
      Plants q (.child y) (some (q.noticeOf y)) (q.isTriggered y)

section
variable {parent : Option Nat} {fired : Bool}

theorem Plants.makes (hs : Plants q s parent fired) : s.makes = true := by cases hs <;> rfl

theorem Plants.ne_clone (hs : Plants q s parent fired) (y : Nat) : s ≠ .clone y := by
  cases hs <;> exact Step.noConfusion

theorem Plants.trigger_mem (hs : Plants q s parent fired) (y : Nat) :
    .trigger y ∈ log ++ [s] ↔ .trigger y ∈ log := by
  cases hs <;> simp

theorem Plants.parent_iff (hs : Plants q s parent fired) :
    parent = some p ↔ ∃ y < q.handles.length, s = .child y ∧ q.noticeOf y = p := by
  cases hs with
  | new => simp
  | @child z hknown =>
      constructor
      · intro hparent
        exact ⟨z, hknown, rfl, Option.some.inj hparent⟩
      · rintro ⟨y, -, hstep, rfl⟩
        rw [Step.child.inj hstep]

theorem Plants.fired_iff (hs : Plants q s parent fired) :
    fired = true ↔ ∃ p, parent = some p ∧ noticeFired q.notices p = true := by
  cases hs <;> simp [isTriggered]

theorem plant_handles : (q.plant parent fired).handles.length = q.handles.length + 1 := by
  simp [plant]

theorem plant_notices : (q.plant parent fired).notices.length = q.notices.length + 1 := by
  simp [plant]

variable (h : Sound log q) (hs : Plants q s parent fired)

include h hs

theorem Sound.plant_planted : Planted (q.plant parent fired).notices := by
  have hearlier (n p : Nat) (hparent : Parent (q.plant parent fired).notices n p) :
      p < n ∧ p < q.notices.length := by
    have hn := hparent.lt_length
    rw [plant_notices] at hn
    rcases Nat.lt_succ_iff_lt_or_eq.mp hn with hold | rfl
    · have hlt := h.planted.earlier n p (parent_plant_old hold |>.mp hparent)
      omega
    · obtain ⟨y, hy, -, rfl⟩ := hs.parent_iff.mp (parent_plant_new.mp hparent)
      exact ⟨h.within y hy, h.within y hy⟩
  refine ⟨fun n p hparent => (hearlier n p hparent).1, ?_⟩
  intro n p hparent hfired
  rw [fired_plant_old (hearlier n p hparent).2] at hfired
  have hn := hparent.lt_length
  rw [plant_notices] at hn
  rcases Nat.lt_succ_iff_lt_or_eq.mp hn with hold | rfl
  · rw [fired_plant_old hold]
    exact h.planted.heard n p (parent_plant_old hold |>.mp hparent) hfired
  · rw [fired_plant_new]
    exact hs.fired_iff.mpr ⟨p, parent_plant_new.mp hparent, hfired⟩

theorem Sound.under_plant_new :
    Under (q.plant parent fired).notices q.notices.length m ↔
      q.notices.length = m ∨ ∃ p, parent = some p ∧ Under q.notices p m := by
  have hext : Extends q (q.plant parent fired) := plant_extends
  cases parent with
  | none =>
      have hroot : ∀ p, ¬ Parent (q.plant none fired).notices q.notices.length p :=
        fun p hp => by cases parent_plant_new.mp hp
      simp [under_iff_of_root hroot]
  | some p =>
      obtain ⟨z, hz, -, rfl⟩ := hs.parent_iff.mp rfl
      rw [under_iff_of_parent (parent_plant_new.mpr rfl), hext.under h.planted (h.within z hz)]
      simp

theorem Sound.plant_fired (hn : n < q.notices.length + 1) :
    noticeFired (q.plant parent fired).notices n = true ↔
      ∃ y, .trigger y ∈ log ++ [s] ∧
        Under (q.plant parent fired).notices n ((q.plant parent fired).noticeOf y) := by
  have hext : Extends q (q.plant parent fired) := plant_extends
  rcases Nat.lt_succ_iff_lt_or_eq.mp hn with hold | rfl
  · rw [fired_plant_old hold]
    exact h.kept_fired hext (hs.trigger_mem) hold
  · have hparents (p : Nat) (hp : parent = some p) : p < q.notices.length := by
      obtain ⟨z, hz, -, rfl⟩ := hs.parent_iff.mp hp
      exact h.within z hz
    have hnew (y : Nat) (hy : .trigger y ∈ log) :
        Under (q.plant parent fired).notices q.notices.length ((q.plant parent fired).noticeOf y) ↔
          ∃ p, parent = some p ∧ Under q.notices p (q.noticeOf y) := by
      have hne := Nat.ne_of_gt (h.within y (h.named y hy))
      simp only [hext.noticeOf (h.named y hy), h.under_plant_new hs, hne, false_or]
    rw [fired_plant_new, hs.fired_iff]
    constructor
    · rintro ⟨p, hp, hfired⟩
      obtain ⟨y, hy, hunder⟩ := (h.fired p (hparents p hp)).mp hfired
      exact ⟨y, (hs.trigger_mem y).mpr hy, (hnew y hy).mpr ⟨p, hp, hunder⟩⟩
    · rintro ⟨y, hy, hunder⟩
      have hold := (hs.trigger_mem y).mp hy
      obtain ⟨p, hp, habove⟩ := (hnew y hold).mp hunder
      exact ⟨p, hp, (h.fired p (hparents p hp)).mpr ⟨y, hold, habove⟩⟩

theorem Sound.plant : Sound (log ++ [s]) (q.plant parent fired) := by
  have hext : Extends q (q.plant parent fired) := plant_extends
  have hlog : log <+: log ++ [s] := List.prefix_append ..
  constructor
  case count => rw [made_concat hs.makes, List.length_append, h.count, plant_handles]; rfl
  case within =>
    intro x hx
    rw [plant_handles] at hx
    rcases Nat.lt_succ_iff_lt_or_eq.mp hx with hold | rfl
    · exact h.kept_within hext hold
    · rw [noticeOf_plant_new, plant_notices]
      exact Nat.lt_succ_self _
  case named => exact fun y hy => h.kept_named hext ((hs.trigger_mem y).mp hy)
  case planted => exact h.plant_planted hs
  case clone =>
    intro x y hclone
    rcases (made_concat_iff hs.makes).mp hclone with hold | ⟨-, hnew⟩
    · exact h.kept_clone hext hold
    · exact absurd hnew (hs.ne_clone y)
  case child =>
    intro x y hchild
    rcases (made_concat_iff hs.makes).mp hchild with hold | ⟨rfl, rfl⟩
    · exact h.kept_child hext hold
    · cases hs with
      | child hknown =>
          rw [plant_handles, h.count, noticeOf_plant_new, hext.noticeOf hknown]
          exact ⟨Nat.lt_succ_of_lt hknown, parent_plant_new.mpr rfl⟩
  case handled =>
    intro n hn
    rw [plant_notices] at hn
    rw [plant_handles]
    rcases Nat.lt_succ_iff_lt_or_eq.mp hn with hold | rfl
    · obtain ⟨x, hx, hnotice, hall⟩ := h.kept_handled hext hlog hold
      refine ⟨x, Nat.lt_succ_of_lt hx, hnotice, ?_⟩
      intro y hy hsame
      rcases Nat.lt_succ_iff_lt_or_eq.mp hy with hyold | rfl
      · exact hall y hyold hsame
      · rw [noticeOf_plant_new] at hsame
        omega
    · refine ⟨q.handles.length, Nat.lt_succ_self _, noticeOf_plant_new, ?_⟩
      intro y hy hsame
      rcases Nat.lt_succ_iff_lt_or_eq.mp hy with hyold | rfl
      · have hlt := h.within y hyold
        rw [hext.noticeOf hyold] at hsame
        omega
      · exact .refl _
  case edge =>
    intro n p hparent
    have hn := hparent.lt_length
    rw [plant_notices] at hn
    rcases Nat.lt_succ_iff_lt_or_eq.mp hn with hold | rfl
    · exact h.kept_edge hext hlog ((parent_plant_old hold).mp hparent)
    · obtain ⟨y, hy, rfl, hnotice⟩ := hs.parent_iff.mp (parent_plant_new.mp hparent)
      refine ⟨q.handles.length, y, ?_, noticeOf_plant_new, by rw [hext.noticeOf hy, hnotice]⟩
      exact (made_concat_iff rfl).mpr (.inr ⟨h.count.symm, rfl⟩)
  case fired =>
    intro n hn
    rw [plant_notices] at hn
    exact h.plant_fired hs hn

end

/-! ### A further handle, and firing -/

theorem Sound.further (h : Sound log q) {handle : Nat} (hknown : handle < q.handles.length) :
    Sound (log ++ [.clone handle]) (q.clone handle) := by
  have hext : Extends q (q.clone handle) := clone_extends q handle
  have hlog : log <+: log ++ [.clone handle] := List.prefix_append ..
  have hcount : (q.clone handle).handles.length = q.handles.length + 1 := by simp [Quits.clone]
  have hmem (y : Nat) : .trigger y ∈ log ++ [.clone handle] ↔ .trigger y ∈ log := by simp
  constructor
  case count => rw [made_concat rfl, List.length_append, h.count, hcount]; rfl
  case within =>
    intro x hx
    rw [hcount] at hx
    rcases Nat.lt_succ_iff_lt_or_eq.mp hx with hold | rfl
    · exact h.kept_within hext hold
    · rw [noticeOf_clone_new]
      exact h.within handle hknown
  case named => exact fun y hy => h.kept_named hext ((hmem y).mp hy)
  case planted => exact h.planted
  case clone =>
    intro x y hclone
    rcases (made_concat_iff rfl).mp hclone with hold | ⟨rfl, hsame⟩
    · exact h.kept_clone hext hold
    · cases hsame
      rw [hcount, h.count, noticeOf_clone_new, hext.noticeOf hknown]
      exact ⟨Nat.lt_succ_of_lt hknown, rfl⟩
  case child =>
    intro x y hchild
    rcases (made_concat_iff rfl).mp hchild with hold | ⟨-, hother⟩
    · exact h.kept_child hext hold
    · cases hother
  case handled =>
    intro n hn
    obtain ⟨x, hx, hnotice, hall⟩ := h.kept_handled hext hlog hn
    refine ⟨x, by omega, hnotice, ?_⟩
    intro y hy hsame
    rw [hcount] at hy
    rcases Nat.lt_succ_iff_lt_or_eq.mp hy with hyold | rfl
    · exact hall y hyold hsame
    · rw [noticeOf_clone_new, ← hext.noticeOf hknown] at hsame
      have hnew : Clone (log ++ [.clone handle]) q.handles.length handle :=
        (made_concat_iff rfl).mpr (.inr ⟨h.count.symm, rfl⟩)
      exact .trans _ _ _ (.rel _ _ hnew) (hall handle hknown hsame)
  case edge => exact fun n p hparent => h.kept_edge hext hlog hparent
  case fired => exact fun n hn => h.kept_fired hext hmem hn

theorem noticeOf_trigger (q : Quits) (handle x : Nat) :
    (q.trigger handle).noticeOf x = q.noticeOf x := by
  simp [noticeOf, trigger, fireFrom_length]

theorem Sound.trigger (h : Sound log q) {handle : Nat} (hknown : handle < q.handles.length) :
    Sound (log ++ [.trigger handle]) (q.trigger handle) := by
  have hext : Extends q (q.trigger handle) := trigger_extends h.planted handle
  have hlog : log <+: log ++ [.trigger handle] := List.prefix_append ..
  have hnotices : (q.trigger handle).notices.length = q.notices.length := by
    simp [Quits.trigger, fireFrom_length]
  have hlt := h.within handle hknown
  have hmem (y : Nat) : .trigger y ∈ log ++ [.trigger handle] ↔ .trigger y ∈ log ∨ y = handle := by
    simp
  constructor
  case count => rw [made_trigger, h.count]; rfl
  case within => exact fun x hx => h.kept_within hext hx
  case named =>
    intro y hy
    rcases (hmem y).mp hy with hold | rfl
    · exact h.kept_named hext hold
    · exact hknown
  case planted => exact h.planted.fired hlt
  case clone =>
    intro x y hclone
    rw [Clone, made_trigger] at hclone
    exact h.kept_clone hext hclone
  case child =>
    intro x y hchild
    rw [Child, made_trigger] at hchild
    exact h.kept_child hext hchild
  case handled =>
    intro n hn
    rw [hnotices] at hn
    exact h.kept_handled hext hlog hn
  case edge =>
    intro n p hparent
    exact h.kept_edge hext hlog ((parent_fireFrom h.planted _).mp hparent)
  case fired =>
    intro n hn
    rw [hnotices] at hn
    simp only [hmem, noticeOf_trigger, hext.under h.planted hn, or_and_right, exists_or,
      exists_eq_left, ← h.fired n hn]
    exact fired_iff h.planted hlt

theorem Reached.sound (h : Reached log q) : Sound log q := by
  induction h with
  | start => exact Sound.start
  | @next log q s _ hknown ih =>
      cases s with
      | new => exact ih.plant .new
      | clone handle => exact ih.further (hknown handle rfl)
      | child handle => exact ih.plant (.child (hknown handle rfl))
      | trigger handle => exact ih.trigger (hknown handle rfl)

end Quits

end WalletBridge.Lifecycle
