import WalletBridge.Proofs.Json.Codecs
import WalletBridge.Proofs.Json.Unordered

/-! # Gathering the members of a record

Each member of a record changes a part of the draft of its own, so that two
changes may be made in either order; the names that were seen matter as a set
only. The record is then the same in whatever order its members are met, with
further members that it does not know, and with `null` for one that may be lacking.
-/

namespace WalletBridge.Json

open Text

namespace Member

def Makes (m : Member ρ) (change : ρ → ρ) : Prop :=
  (∃ depth bytes rest, m.read depth bytes = .ok (change, rest)) ∨
    (∃ v, m.take v = .ok change) ∨ m.lacking = some change

def Apart (m m' : Member ρ) : Prop :=
  ∀ f g, m.Makes f → m'.Makes g → ∀ r, f (g r) = g (f r)

/-- All changes of the member set one part of the draft. -/
class Sets (m : Member ρ) (α : outParam Type) (set : outParam (α → ρ → ρ)) : Prop where
  changes : ∀ f, m.Makes f → ∃ a, f = set a

theorem apart {m m' : Member ρ} {set : α → ρ → ρ} {set' : β → ρ → ρ} [h : m.Sets α set]
    [h' : m'.Sets β set'] (hset : ∀ a b r, set a (set' b r) = set' b (set a r)) : m.Apart m' := by
  intro f g hf hg r
  obtain ⟨a, rfl⟩ := h.changes f hf
  obtain ⟨b, rfl⟩ := h'.changes g hg
  exact hset a b r

instance : Std.Symm (Apart (ρ := ρ)) where
  symm _ _ h f g hf hg r := (h g f hg hf r).symm

theorem makes_of_required (name : String) (c : Codec α) (get : ρ → α) {set : α → ρ → ρ}
    {f : ρ → ρ} (h : (required name c get set).Makes f) : ∃ a, f = set a := by
  rcases h with ⟨depth, bytes, rest, hread⟩ | ⟨v, htake⟩ | hlacking
  · obtain ⟨⟨a, left⟩, -, heq⟩ := map_eq_ok hread
    cases heq
    exact ⟨a, rfl⟩
  · obtain ⟨a, -, heq⟩ := map_eq_ok htake
    exact ⟨a, heq.symm⟩
  · cases hlacking

section
variable {name : String} {c : Codec α}

instance required_sets {get : ρ → α} {set : α → ρ → ρ} : (required name c get set).Sets α set :=
  ⟨fun _ => makes_of_required name c get⟩

instance defaulted_sets {value : α} {get : ρ → α} {set : α → ρ → ρ} :
    (defaulted name c value get set).Sets α set where
  changes := by
    rintro f (hread | htake | hlacking)
    · exact makes_of_required name c get (.inl hread)
    · exact makes_of_required name c get (.inr (.inl htake))
    · cases hlacking
      exact ⟨value, rfl⟩

instance optional_sets {get : ρ → Option α} {set : Option α → ρ → ρ} :
    (optional name c get set).Sets (Option α) set where
  changes := by
    rintro f (hread | htake | hlacking)
    · exact makes_of_required name c.optional get (.inl hread)
    · exact makes_of_required name c.optional get (.inr (.inl htake))
    · cases hlacking
      exact ⟨none, rfl⟩

instance trailing_sets {get : ρ → Option α} {set : Option α → ρ → ρ} :
    (trailing name c get set).Sets (Option α) set := by
  have hoptional : (optional name c get set).Sets (Option α) set := optional_sets
  exact ⟨hoptional.changes⟩

end

def takes (m : Member ρ) (v : Json) : Option (ρ → ρ) := (m.take v).toOption

end Member

def Finds (get : Member ρ → V → Option (ρ → ρ)) : Prop := ∀ m v f, get m v = some f → m.Makes f

theorem look_finds (depth : Nat) : Finds (Member.look (ρ := ρ) depth) := by
  intro m T f h
  unfold Member.look outcome at h
  cases hread : m.read depth T.plain with
  | error fault =>
      rw [hread] at h
      cases h
  | ok pair =>
      obtain ⟨change, rest⟩ := pair
      rw [hread] at h
      cases h
      exact .inl ⟨depth, T.plain, rest, hread⟩

theorem takes_finds : Finds (Member.takes (ρ := ρ)) := by
  intro m v f h
  unfold Member.takes at h
  cases htake : m.take v with
  | error cause =>
      rw [htake] at h
      cases h
  | ok change =>
      rw [htake] at h
      cases h
      exact .inr (.inl ⟨v, htake⟩)

namespace Shape

/-- The members of a record have names of their own, and parts of their own. -/
structure Apart (shape : Shape ρ) : Prop where
  names : (shape.members.map (·.name)).Nodup
  parts : shape.members.Pairwise Member.Apart

section
variable {shape : Shape ρ} {get : Member ρ → V → Option (ρ → ρ)}

theorem member?_eq_some {name : String} {m : Member ρ} (h : shape.member? name = some m) :
    m ∈ shape.members ∧ m.name = name :=
  ⟨List.mem_of_find?_eq_some h, by simpa using List.find?_some h⟩

theorem Apart.swap (h : shape.Apart) (hget : Finds get) {name name' : String} (hne : name ≠ name')
    {m m' : Member ρ} (hm : shape.member? name = some m) (hm' : shape.member? name' = some m')
    {v v' : V} {f g : ρ → ρ} (hf : get m v = some f) (hg : get m' v' = some g) (r : ρ) :
    f (g r) = g (f r) := by
  obtain ⟨hmem, rfl⟩ := member?_eq_some hm
  obtain ⟨hmem', rfl⟩ := member?_eq_some hm'
  have hother : m ≠ m' := fun heq => hne (by rw [heq])
  have hapart := h.parts.forall hmem hmem' hother
  exact hapart f g (hget _ _ _ hf) (hget _ _ _ hg) r

/-! ## The order of members -/

def draftKey (draft : Draft ρ) : ρ × (String → Bool) := (draft.value, draft.seen.contains)

theorem step_seen {draft : Draft ρ} {name : String} (hseen : draft.seen.contains name = true)
    (v : V) : shape.step get draft name v = none := if_pos hseen

theorem step_unknown {draft : Draft ρ} {name : String} (hseen : draft.seen.contains name = false)
    (hname : shape.member? name = none) (v : V) : shape.step get draft name v = some draft := by
  rw [step, hseen, hname]
  rfl

theorem step_known {draft : Draft ρ} {name : String} (hseen : draft.seen.contains name = false)
    {m : Member ρ} (hname : shape.member? name = some m) (v : V) :
    shape.step get draft name v = (get m v).map fun change =>
      { value := change draft.value, seen := name :: draft.seen } := by
  rw [step, hseen, hname]
  rfl

theorem step_same (name : String) (v : V) {draft draft' : Draft ρ}
    (h : draftKey draft = draftKey draft') :
    (shape.step get draft name v).map draftKey = (shape.step get draft' name v).map draftKey := by
  obtain ⟨hvalue, hseen⟩ := Prod.ext_iff.mp h
  simp only [draftKey] at hvalue hseen
  cases hname : draft.seen.contains name with
  | true => rw [step_seen hname, step_seen (hseen ▸ hname)]
  | false =>
      have hname' : draft'.seen.contains name = false := hseen ▸ hname
      cases hmember : shape.member? name with
      | none =>
          rw [step_unknown hname hmember, step_unknown hname' hmember]
          exact congrArg some h
      | some m =>
          rw [step_known hname hmember, step_known hname' hmember]
          have hcons : (name :: draft.seen).contains = (name :: draft'.seen).contains := by
            funext n
            rw [List.contains_cons, List.contains_cons, hseen]
          cases get m v with
          | none => rfl
          | some change => simp only [Option.map_some, draftKey, hvalue, hcons]

/-- After a member that is new the names seen are those from before, and its own if it is known. -/
theorem step_keeps {draft draft' : Draft ρ} {name : String} {v : V}
    (h : shape.step get draft name v = some draft') :
    draft.seen.contains name = false ∧
      ((shape.member? name = none ∧ draft' = draft) ∨
        ∃ m change, shape.member? name = some m ∧ get m v = some change ∧
          draft' = { value := change draft.value, seen := name :: draft.seen }) := by
  cases hseen : draft.seen.contains name with
  | true =>
      rw [step_seen hseen] at h
      cases h
  | false =>
      refine ⟨rfl, ?_⟩
      cases hmember : shape.member? name with
      | none =>
          rw [step_unknown hseen hmember] at h
          exact .inl ⟨rfl, (Option.some.inj h).symm⟩
      | some m =>
          rw [step_known hseen hmember] at h
          obtain ⟨change, hchange, heq⟩ := Option.map_eq_some_iff.mp h
          exact .inr ⟨m, change, rfl, hchange, heq.symm⟩

/-- A member that the record does not know may be met before or after any other. -/
theorem step_unknown_comm {draft : Draft ρ} {name name' : String} {v v' : V}
    (hseen : draft.seen.contains name = false) (hname : shape.member? name = none) :
    ((shape.step get draft name v).bind fun d => shape.step get d name' v') =
      (shape.step get draft name' v').bind fun d => shape.step get d name v := by
  rw [step_unknown hseen hname]
  simp only [Option.bind_some]
  cases hother : shape.step get draft name' v' with
  | none => rfl
  | some draft' =>
      obtain ⟨-, ⟨-, rfl⟩ | ⟨m, change, hmember, -, rfl⟩⟩ := step_keeps hother
      · exact (step_unknown hseen hname v).symm
      · have hne : name ≠ name' := by
          rintro rfl
          rw [hname] at hmember
          cases hmember
        refine (step_unknown ?_ hname v).symm
        simpa [hne] using hseen

/-- Members that the record knows change parts of their own. -/
theorem step_known_comm (h : shape.Apart) (hget : Finds get) {draft : Draft ρ}
    {name name' : String} {v v' : V} {m m' : Member ρ}
    (hseen : draft.seen.contains name = false) (hname : shape.member? name = some m)
    (hseen' : draft.seen.contains name' = false) (hname' : shape.member? name' = some m') :
    ((shape.step get draft name v).bind fun d => shape.step get d name' v').map draftKey =
      ((shape.step get draft name' v').bind fun d => shape.step get d name v).map draftKey := by
  rw [step_known hseen hname, step_known hseen' hname']
  by_cases hne : name = name'
  · subst hne
    cases get m v <;> cases get m' v' <;> simp [step_seen]
  -- each name is still new after the other, so that both steps are taken in either order
  · have hafter : ∀ value, shape.step get { value, seen := name :: draft.seen } name' v' =
        (get m' v').map fun change =>
          { value := change value, seen := name' :: name :: draft.seen } := by
      intro value
      have hnew : (Draft.mk value (name :: draft.seen)).seen.contains name' = false := by
        simpa [Ne.symm hne] using hseen'
      exact step_known hnew hname' v'
    have hbefore : ∀ value, shape.step get { value, seen := name' :: draft.seen } name v =
        (get m v).map fun change =>
          { value := change value, seen := name :: name' :: draft.seen } := by
      intro value
      have hnew : (Draft.mk value (name' :: draft.seen)).seen.contains name = false := by
        simpa [hne] using hseen
      exact step_known hnew hname v
    have hcons : (name' :: name :: draft.seen).contains =
        (name :: name' :: draft.seen).contains := by
      funext n
      simp only [List.contains_cons]
      exact Bool.or_left_comm ..
    cases hf : get m v with
    | none => cases get m' v' <;> simp [hbefore, hf]
    | some f =>
        cases hg : get m' v' with
        | none => simp [hafter, hg]
        | some g =>
            have hswap := h.swap hget hne hname hname' hf hg draft.value
            simp only [Option.map_some, Option.bind_some, hafter, hbefore, hf, hg, draftKey,
              hswap, hcons]

theorem step_swap (h : shape.Apart) (hget : Finds get) (e e' : String × V) (draft : Draft ρ) :
    ((shape.step get draft e.1 e.2).bind fun d => shape.step get d e'.1 e'.2).map draftKey =
      ((shape.step get draft e'.1 e'.2).bind fun d => shape.step get d e.1 e.2).map draftKey := by
  have hafter : ∀ {name name' : String} {v v' : V}, draft.seen.contains name = true →
      ((shape.step get draft name' v').bind fun d => shape.step get d name v) = none := by
    intro name name' v v' hseen
    cases hother : shape.step get draft name' v' with
    | none => rfl
    | some draft' =>
        obtain ⟨-, ⟨-, rfl⟩ | ⟨m, change, -, -, rfl⟩⟩ := step_keeps hother
        · exact step_seen hseen v
        · exact step_seen (by rw [List.contains_cons, hseen, Bool.or_true]) v
  cases hseen : draft.seen.contains e.1 with
  | true => rw [hafter hseen, step_seen hseen]; rfl
  | false =>
      cases hseen' : draft.seen.contains e'.1 with
      | true => rw [hafter hseen', step_seen hseen']; rfl
      | false =>
          cases hname : shape.member? e.1 with
          | none => rw [step_unknown_comm hseen hname]
          | some m =>
              cases hname' : shape.member? e'.1 with
              | none => rw [step_unknown_comm hseen' hname']
              | some m' => exact step_known_comm h hget hseen hname hseen' hname'

theorem fill_congr {members : List (Member ρ)} {seen seen' : List String} {value : ρ}
    (h : ∀ m ∈ members, seen.contains m.name = seen'.contains m.name) :
    fill members seen value = fill members seen' value := by
  induction members generalizing value with
  | nil => rfl
  | cons m members ih =>
      have hlater : ∀ {value : ρ}, fill members seen value = fill members seen' value :=
        ih fun m hm => h m (by simp [hm])
      rw [fill, fill, h m (by simp)]
      split
      · exact hlater
      · cases m.lacking with
        | none => rfl
        | some change => exact hlater

theorem finish_congr {draft draft' : Draft ρ} (h : draftKey draft = draftKey draft') :
    shape.finish draft = shape.finish draft' := by
  obtain ⟨hvalue, hseen⟩ := Prod.ext_iff.mp h
  simp only [draftKey] at hvalue hseen
  rw [finish, finish, hvalue]
  exact fill_congr fun m _ => congrFun hseen m.name

theorem drafted_perm (h : shape.Apart) (hget : Finds get) {entries entries' : List (String × V)}
    (hperm : entries.Perm entries') :
    (shape.drafted get entries).map draftKey = (shape.drafted get entries').map draftKey :=
  foldlM_perm (fun e _ _ => step_same e.1 e.2) (step_swap h hget) hperm _

/-- The record does not depend on the order of the members. -/
theorem gather_perm (h : shape.Apart) (hget : Finds get) {entries entries' : List (String × V)}
    (hperm : entries.Perm entries') : shape.gather get entries = shape.gather get entries' := by
  have hkey := drafted_perm h hget hperm
  unfold gather
  cases hdraft : shape.drafted get entries with
  | none =>
      rw [hdraft] at hkey
      rw [Option.map_eq_none_iff.mp hkey.symm]
  | some draft =>
      rw [hdraft] at hkey
      obtain ⟨draft', hdraft', hsame⟩ := Option.map_eq_some_iff.mp hkey.symm
      rw [hdraft']
      simp only [Option.bind_some, finish_congr hsame]

theorem gather_replaced {R : V → V → Prop}
    (hget : ∀ m ∈ shape.members, ∀ v v', R v v' → get m v = get m v')
    {entries entries' : List (String × V)} (h : Replaced (MemberRel R) entries entries') :
    shape.gather get entries = shape.gather get entries' := by
  obtain ⟨before, ⟨name, v⟩, ⟨_, v'⟩, after, rfl, rfl, rfl, hv⟩ := h
  have hstep : ∀ draft, shape.step get draft name v = shape.step get draft name v' := by
    intro draft
    unfold step
    cases hmember : shape.member? name with
    | none => rfl
    | some m => simp only [hget m (member?_eq_some hmember).1 v v' hv]
  simp only [gather, drafted, List.foldlM_append, List.foldlM_cons, hstep]

theorem rowOf_replaced {R : V → V → Prop} {members : List (Member ρ)}
    (hget : ∀ m ∈ members, ∀ v v', R v v' → get m v = get m v') {items items' : List V}
    (h : Replaced R items items') (value : ρ) :
    rowOf get members items value = rowOf get members items' value := by
  obtain ⟨before, v, v', after, rfl, rfl, hv⟩ := h
  induction before generalizing members value with
  | nil =>
      cases members with
      | nil => rfl
      | cons m members =>
          simp only [List.nil_append, rowOf, hget m (by simp) v v' hv]
  | cons first before ih =>
      cases members with
      | nil => rfl
      | cons m members =>
          simp only [List.cons_append, rowOf]
          cases get m first with
          | none => rfl
          | some change => exact ih (fun m hm => hget m (by simp [hm])) (change value)

/-! ## Further members -/

/-- A member that the record does not know changes nothing. -/
theorem gather_unknown {name : String} (hname : shape.member? name = none) (v : V)
    (entries : List (String × V)) :
    shape.gather get ((name, v) :: entries) = shape.gather get entries := by
  unfold gather drafted
  rw [List.foldlM_cons, step_unknown rfl hname]
  rfl

theorem drafted_seen {entries : List (String × V)} {draft : Draft ρ}
    (h : shape.drafted get entries = some draft) {n : String} (hn : n ∈ draft.seen) :
    n ∈ entries.map (·.1) := by
  have hrun : ∀ (entries : List (String × V)) (start : Draft ρ),
      entries.foldlM (fun draft e => shape.step get draft e.1 e.2) start = some draft →
        n ∈ start.seen ∨ n ∈ entries.map (·.1) := by
    intro entries
    induction entries with
    | nil =>
        intro start hstart
        cases hstart
        exact .inl hn
    | cons e entries ih =>
        intro start hstart
        rw [List.foldlM_cons] at hstart
        obtain ⟨next, hnext, hrest⟩ := Option.bind_eq_some_iff.mp hstart
        obtain ⟨-, ⟨-, rfl⟩ | ⟨m, change, -, -, rfl⟩⟩ := step_keeps hnext
        · exact (ih next hrest).imp_right (by simp; tauto)
        · rcases ih _ hrest with hseen | hlater
          · rcases List.mem_cons.mp hseen with rfl | hseen
            · exact .inr (by simp)
            · exact .inl hseen
          · exact .inr (by simp [hlater])
  exact (hrun entries _ h).resolve_left (by simp)

theorem fill_before {members : List (Member ρ)} {m : Member ρ} {change : ρ → ρ}
    {seen : List String} {value : ρ} (hnames : (members.map (·.name)).Nodup) (hm : m ∈ members)
    (hparts : ∀ m' ∈ members, m'.name ≠ m.name → ∀ f, m'.lacking = some f →
      ∀ r, f (change r) = change (f r))
    (hlacking : m.lacking = some change) (hseen : seen.contains m.name = false) :
    fill members (m.name :: seen) (change value) = fill members seen value := by
  induction members generalizing value with
  | nil => cases hm
  | cons first members ih =>
      obtain ⟨hfirst, hnames⟩ := List.nodup_cons.mp hnames
      rcases List.mem_cons.mp hm with rfl | hm
      · have hothers : fill members (m.name :: seen) (change value) =
            fill members seen (change value) := by
          refine fill_congr fun m' hm' => ?_
          have hne : m'.name ≠ m.name := fun heq => hfirst (List.mem_map.mpr ⟨m', hm', heq⟩)
          rw [List.contains_cons, beq_false_of_ne hne, Bool.false_or]
        rw [fill, fill, List.contains_cons, beq_self_eq_true, Bool.true_or, hseen, hlacking]
        exact hothers
      · have hne : first.name ≠ m.name := fun heq =>
          hfirst (List.mem_map.mpr ⟨m, hm, heq.symm⟩)
        have hlater : ∀ {value : ρ}, fill members (m.name :: seen) (change value) =
            fill members seen value :=
          ih hnames hm fun m' hm' => hparts m' (by simp [hm'])
        rw [fill, fill, List.contains_cons, beq_false_of_ne hne, Bool.false_or]
        split
        · exact hlater
        · cases hfill : first.lacking with
          | none => rfl
          | some f =>
              simp only [hparts first (by simp) hne f hfill]
              exact hlater

/-- Where a member may be lacking, a value that changes what its lack does makes no difference. -/
theorem gather_lacking (h : shape.Apart) (hget : Finds get) {m : Member ρ} {change : ρ → ρ}
    (hm : m ∈ shape.members) (hlacking : m.lacking = some change) {v : V}
    (hv : get m v = some change) {entries : List (String × V)}
    (habsent : m.name ∉ entries.map (·.1)) :
    shape.gather get ((m.name, v) :: entries) = shape.gather get entries := by
  have hmember := member?_of_mem h.names hm
  -- the member is met last, right before its lack would be filled
  have hlast : ((m.name, v) :: entries).Perm (entries ++ [(m.name, v)]) :=
    (List.perm_append_singleton _ _).symm
  rw [gather_perm h hget hlast]
  unfold gather
  rw [drafted, List.foldlM_append]
  change ((shape.drafted get entries).bind _).bind _ = _
  cases hdraft : shape.drafted get entries with
  | none => rfl
  | some draft =>
      have hseen : draft.seen.contains m.name = false := by
        rw [List.contains_eq_mem]
        simpa using fun hmem => habsent (drafted_seen hdraft hmem)
      have hparts : ∀ m' ∈ shape.members, m'.name ≠ m.name → ∀ f, m'.lacking = some f →
          ∀ r, f (change r) = change (f r) := by
        intro m' hm' hne f hf r
        have hapart := h.parts.forall hm' hm fun heq => hne (congrArg Member.name heq)
        exact hapart f change (.inr (.inr hf)) (.inr (.inr hlacking)) r
      have hfill : fill shape.members (m.name :: draft.seen) (change draft.value) =
          fill shape.members draft.seen draft.value :=
        fill_before h.names hm hparts hlacking hseen
      have hstep : shape.step get draft m.name v =
          some { value := change draft.value, seen := m.name :: draft.seen } := by
        rw [step_known hseen hmember, hv]
        rfl
      simp only [Option.bind_some, List.foldlM_cons, List.foldlM_nil, hstep]
      exact congrArg Except.toOption hfill

end

end Shape

end WalletBridge.Json
