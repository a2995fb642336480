import WalletBridge.Proofs.Request.Conversion

/-! # What the check of a transaction reports

What can be wrong with a transaction is told by rules that do not mention the
check: a list or a field is absent, a list has a wrong length, an index is out of
range, a text is not an amount. The check reports every broken rule once, under
the path of its field, and nothing else. The absent lists come first, then the
list of inputs with its entries by position, then the list of outputs.
-/

namespace WalletBridge.Request

open Text

/-! ## Paths -/

/-- One of the two lists of a transaction. -/
inductive Side where
  | inputs
  | outputs
deriving DecidableEq

def Side.name : Side → String
  | .inputs => "transaction_inputs"
  | .outputs => "transaction_outputs"

def Side.rank : Side → Nat
  | .inputs => 0
  | .outputs => 1

/-- What an error is about: a whole list, or a field of the entry at a position. -/
inductive FieldPath where
  | list (side : Side)
  | entry (side : Side) (i : Nat) (field : String)

/-- The path with dots between its parts. -/
def FieldPath.text : FieldPath → String
  | .list side => side.name
  | .entry side i field => side.name ++ "." ++ decimal i ++ "." ++ field

theorem Side.name_injective {p q : Side} (h : p.name = q.name) : p = q := by
  cases p <;> cases q <;> first | rfl | exact absurd h (by decide)

theorem Side.dot_not_mem (side : Side) : '.' ∉ side.name.toList := by
  cases side <;> decide

theorem dot_not_mem_decimal (n : Nat) : '.' ∉ (decimal n).toList := by
  intro h
  rw [decimal, String.toList_ofList] at h
  exact absurd (decimalChars_all_isDigit n '.' h) (by decide)

/-- Lists are split in one way at the first place of an element. -/
theorem append_cons_inj {a : α} {xs ys us vs : List α} (hxs : a ∉ xs) (hys : a ∉ ys)
    (h : xs ++ a :: us = ys ++ a :: vs) : xs = ys ∧ us = vs := by
  induction xs generalizing ys with
  | nil =>
      cases ys with
      | nil => exact ⟨rfl, (List.cons.inj h).2⟩
      | cons y ys =>
          obtain ⟨rfl, -⟩ := List.cons.inj h
          simp at hys
  | cons x xs ih =>
      cases ys with
      | nil =>
          obtain ⟨rfl, -⟩ := List.cons.inj h
          simp at hxs
      | cons y ys =>
          simp only [List.mem_cons, not_or] at hxs hys
          obtain ⟨rfl, hrest⟩ := List.cons.inj h
          obtain ⟨rfl, rfl⟩ := ih hxs.2 hys.2 hrest
          exact ⟨rfl, rfl⟩

theorem FieldPath.entry_toList (side : Side) (i : Nat) (field : String) :
    (entry side i field).text.toList =
      side.name.toList ++ '.' :: ((decimal i).toList ++ '.' :: field.toList) := by
  simp [text]

theorem FieldPath.text_injective {p q : FieldPath} (h : p.text = q.text) : p = q := by
  have hlists : ∀ {side side' : Side} {i : Nat} {field : String},
      (list side).text ≠ (entry side' i field).text := by
    intro side side' i field heq
    have hdot : '.' ∈ (list side).text.toList := by
      rw [heq, entry_toList]
      simp
    exact side.dot_not_mem hdot
  cases p with
  | list side =>
      cases q with
      | list side' => rw [Side.name_injective h]
      | entry side' j field' => exact absurd h hlists
  | entry side i field =>
      cases q with
      | list side' => exact absurd h.symm hlists
      | entry side' j field' =>
          have hchars := congrArg String.toList h
          rw [entry_toList, entry_toList] at hchars
          obtain ⟨hname, hrest⟩ := append_cons_inj side.dot_not_mem side'.dot_not_mem hchars
          obtain ⟨hnumber, hfield⟩ :=
            append_cons_inj (dot_not_mem_decimal i) (dot_not_mem_decimal j) hrest
          rw [Side.name_injective (String.toList_inj.mp hname),
            decimal_injective (String.toList_inj.mp hnumber), String.toList_inj.mp hfield]

/-! ## Findings and their turns -/

structure Finding where
  path : FieldPath
  problem : Problem

namespace Finding

def error (f : Finding) : FieldError := ⟨f.path.text, .body, f.problem⟩

/-- Its turn in the report: absent lists, then the inputs, then the outputs; of a list its length,
then its entries. -/
def turn (f : Finding) : Nat × Nat :=
  match f.path, f.problem with
  | .list side, .required => (0, side.rank)
  | .list side, .invalid _ => (side.rank + 1, 0)
  | .entry side i _, _ => (side.rank + 1, i + 1)

/-- Whether the turn of a finding is before that of another. -/
def Precedes (f g : Finding) : Prop :=
  f.turn.1 < g.turn.1 ∨ f.turn.1 = g.turn.1 ∧ f.turn.2 < g.turn.2

theorem not_precedes_self (f : Finding) : ¬ f.Precedes f := by
  unfold Precedes
  omega

theorem Precedes.not_precedes {f g : Finding} (h : f.Precedes g) : ¬ g.Precedes f := by
  unfold Precedes at *
  omega

end Finding

/-- The errors report the findings with a property, each of them once and none before its turn. -/
def Lists (errors : Errors) (P : Finding → Prop) : Prop :=
  ∃ findings : List Finding, errors = findings.map Finding.error ∧ findings.Nodup ∧
    (∀ f, f ∈ findings ↔ P f) ∧ findings.Pairwise fun f g => ¬ g.Precedes f

namespace Lists

variable {P Q : Finding → Prop} {errors more : Errors}

theorem congr (h : Lists errors P) (hiff : ∀ f, P f ↔ Q f) : Lists errors Q := by
  obtain ⟨findings, herrors, hnodup, hmem, horder⟩ := h
  exact ⟨findings, herrors, hnodup, fun f => (hmem f).trans (hiff f), horder⟩

theorem nothing (hP : ∀ f, ¬ P f) : Lists [] P :=
  ⟨[], rfl, List.nodup_nil, by simpa using hP, .nil⟩

theorem single {f : Finding} (hP : ∀ g, P g ↔ g = f) : Lists [f.error] P :=
  ⟨[f], rfl, List.nodup_singleton f, by simp [hP], List.pairwise_singleton _ f⟩

/-- Reports are joined when everything in the first precedes everything in the second. -/
theorem append (hP : Lists errors P) (hQ : Lists more Q)
    (hbefore : ∀ f g, P f → Q g → f.Precedes g) :
    Lists (errors ++ more) fun f => P f ∨ Q f := by
  obtain ⟨fs, rfl, hfs, hmemP, horderP⟩ := hP
  obtain ⟨gs, rfl, hgs, hmemQ, horderQ⟩ := hQ
  have hacross : ∀ f ∈ fs, ∀ g ∈ gs, f.Precedes g := fun f hf g hg =>
    hbefore f g ((hmemP f).mp hf) ((hmemQ g).mp hg)
  refine ⟨fs ++ gs, by rw [List.map_append], ?_, ?_, ?_⟩
  · rw [List.nodup_append]
    refine ⟨hfs, hgs, ?_⟩
    rintro f hf g hg rfl
    exact f.not_precedes_self (hacross f hf f hg)
  · intro f
    rw [List.mem_append, hmemP, hmemQ]
  · rw [List.pairwise_append]
    exact ⟨horderP, horderQ, fun f hf g hg => (hacross f hf g hg).not_precedes⟩

end Lists

/-! ## The rules for an entry -/

/-- The rules that an input can break. -/
inductive TransactionInput.Breaks (r : TransactionInput) : String → Problem → Prop where
  | hash : r.hash = none → Breaks r "hash" .required
  | index : r.index = none → Breaks r "index" .required
  | range {n : Int} : r.index = some n → ¬ (0 ≤ n ∧ n < 2 ^ 32) →
    Breaks r "index" (.invalid "must be between 0 and 4294967295")

/-- The text spells a number of 64 bits. -/
def IsAmount (s : String) : Prop := ∃ n, Spells s n ∧ n < 2 ^ 64

/-- The rules that an output can break. -/
inductive TransactionOutput.Breaks (r : TransactionOutput) : String → Problem → Prop where
  | address : r.address = none → Breaks r "address" .required
  | coins : r.coins = none → Breaks r "coins" .required
  | hours : r.hours = none → Breaks r "hours" .required
  | coinsAmount {s : String} : r.coins = some s → ¬ IsAmount s →
    Breaks r "coins" (.invalid "not an unsigned integer")
  | hoursAmount {s : String} : r.hours = some s → ¬ IsAmount s →
    Breaks r "hours" (.invalid "not an unsigned integer")

/-- The errors of an entry are those of the rules that it breaks, each once. -/
def Tells (errors : Errors) (breaks : String → Problem → Prop) : Prop :=
  ∃ broken : List (String × Problem), errors = broken.map (fun x => ⟨x.1, .body, x.2⟩) ∧
    broken.Nodup ∧ ∀ field problem, (field, problem) ∈ broken ↔ breaks field problem

namespace Tells

variable {P Q : String → Problem → Prop} {errors more : Errors}

theorem congr (h : Tells errors P) (hiff : ∀ field problem, P field problem ↔ Q field problem) :
    Tells errors Q := by
  obtain ⟨broken, herrors, hnodup, hmem⟩ := h
  exact ⟨broken, herrors, hnodup, fun field problem =>
    (hmem field problem).trans (hiff field problem)⟩

theorem append (hP : Tells errors P) (hQ : Tells more Q)
    (hapart : ∀ field problem, P field problem → ¬ Q field problem) :
    Tells (errors ++ more) fun field problem => P field problem ∨ Q field problem := by
  obtain ⟨fs, rfl, hfs, hmemP⟩ := hP
  obtain ⟨gs, rfl, hgs, hmemQ⟩ := hQ
  refine ⟨fs ++ gs, by rw [List.map_append], ?_, ?_⟩
  · rw [List.nodup_append]
    refine ⟨hfs, hgs, ?_⟩
    rintro ⟨field, problem⟩ hf _ hg rfl
    exact hapart field problem ((hmemP field problem).mp hf) ((hmemQ field problem).mp hg)
  · intro field problem
    rw [List.mem_append, hmemP, hmemQ]

theorem check {name : String} {reason : Problem} {c : Prop}
    (hfails : c → errors = [⟨name, .body, reason⟩]) (hpasses : ¬ c → errors = []) :
    Tells errors fun field problem => c ∧ field = name ∧ problem = reason := by
  by_cases hc : c
  · exact ⟨[(name, reason)], hfails hc, List.nodup_singleton _, by simp [hc]⟩
  · exact ⟨[], hpasses hc, List.nodup_nil, by simp [hc]⟩

theorem required (name : String) (value : Option β) :
    Tells (Errors.required name .body value)
      fun field problem => value = none ∧ field = name ∧ problem = .required := by
  refine check ?_ ?_
  · rintro rfl
    rfl
  · intro hvalue
    obtain ⟨b, rfl⟩ := Option.ne_none_iff_exists'.mp hvalue
    rfl

end Tells

theorem TransactionInput.tells (r : TransactionInput) : Tells (Body.errors r) r.Breaks := by
  have hrange : Tells (indexErrors r.index) fun field problem =>
      (∃ n, r.index = some n ∧ ¬ (0 ≤ n ∧ n < 2 ^ 32)) ∧ field = "index" ∧
        problem = .invalid "must be between 0 and 4294967295" := by
    refine Tells.check ?_ ?_
    · rintro ⟨n, hn, hout⟩
      have hbad : ¬ (0 ≤ n ∧ n ≤ greatestIndex) := by
        unfold greatestIndex
        omega
      simp [hn, indexErrors, Errors.invalid, hbad]
    · intro hin
      cases hindex : r.index with
      | none => rfl
      | some n =>
          have hgood : 0 ≤ n ∧ n ≤ greatestIndex := by
            by_contra hbad
            refine hin ⟨n, hindex, ?_⟩
            unfold greatestIndex at hbad
            omega
          simp [indexErrors, hgood]
  refine (((Tells.required "hash" r.hash).append (Tells.required "index" r.index) ?_).append
    hrange ?_).congr ?_
  · rintro _ _ ⟨-, rfl, -⟩ ⟨-, hname, -⟩
    exact absurd hname (by decide)
  · rintro _ _ hbefore ⟨-, -, rfl⟩
    rcases hbefore with ⟨-, -, hproblem⟩ | ⟨-, -, hproblem⟩ <;> cases hproblem
  · intro field problem
    constructor
    · rintro ((⟨h, rfl, rfl⟩ | ⟨h, rfl, rfl⟩) | ⟨⟨n, hn, hout⟩, rfl, rfl⟩)
      · exact .hash h
      · exact .index h
      · exact .range hn hout
    · rintro (h | h | ⟨hn, hout⟩)
      · exact .inl (.inl ⟨h, rfl, rfl⟩)
      · exact .inl (.inr ⟨h, rfl, rfl⟩)
      · exact .inr ⟨⟨_, hn, hout⟩, rfl, rfl⟩

theorem TransactionOutput.tells_amount (name : String) (value : Option String) :
    Tells (amountErrors name value) fun field problem =>
      (∃ s, value = some s ∧ ¬ IsAmount s) ∧ field = name ∧
        problem = .invalid "not an unsigned integer" := by
  refine Tells.check ?_ ?_
  · rintro ⟨s, rfl, hbad⟩
    have hnone : (amount? s).isSome = false := by
      rw [← Bool.not_eq_true, Option.isSome_iff_exists]
      rintro ⟨n, hn⟩
      exact hbad ⟨n, amount?_eq_some_iff.mp hn⟩
    simp [amountErrors, hnone, Errors.invalid]
  · intro hgood
    cases value with
    | none => rfl
    | some s =>
        rw [amountErrors_eq_nil]
        by_contra hbad
        exact hgood ⟨s, rfl, hbad⟩

theorem TransactionOutput.tells (r : TransactionOutput) : Tells (Body.errors r) r.Breaks := by
  refine (((((Tells.required "address" r.address).append (Tells.required "coins" r.coins) ?_).append
    (Tells.required "hours" r.hours) ?_).append (tells_amount "coins" r.coins) ?_).append
    (tells_amount "hours" r.hours) ?_).congr ?_
  · rintro _ _ ⟨-, rfl, -⟩ ⟨-, hname, -⟩
    exact absurd hname (by decide)
  · rintro _ _ (⟨-, rfl, -⟩ | ⟨-, rfl, -⟩) ⟨-, hname, -⟩ <;> exact absurd hname (by decide)
  · rintro _ _ ((⟨-, -, rfl⟩ | ⟨-, -, rfl⟩) | ⟨-, -, rfl⟩) ⟨-, -, hproblem⟩ <;> cases hproblem
  · rintro _ _ (((⟨-, -, rfl⟩ | ⟨-, -, rfl⟩) | ⟨-, -, rfl⟩) | ⟨-, rfl, -⟩) ⟨-, hname, hproblem⟩
    · cases hproblem
    · cases hproblem
    · cases hproblem
    · exact absurd hname (by decide)
  · intro field problem
    constructor
    · rintro ((((⟨h, rfl, rfl⟩ | ⟨h, rfl, rfl⟩) | ⟨h, rfl, rfl⟩) | ⟨⟨s, hs, hbad⟩, rfl, rfl⟩) |
        ⟨⟨s, hs, hbad⟩, rfl, rfl⟩)
      · exact .address h
      · exact .coins h
      · exact .hours h
      · exact .coinsAmount hs hbad
      · exact .hoursAmount hs hbad
    · rintro (h | h | h | ⟨hs, hbad⟩ | ⟨hs, hbad⟩)
      · exact .inl (.inl (.inl (.inl ⟨h, rfl, rfl⟩)))
      · exact .inl (.inl (.inl (.inr ⟨h, rfl, rfl⟩)))
      · exact .inl (.inl (.inr ⟨h, rfl, rfl⟩))
      · exact .inl (.inr ⟨⟨_, hs, hbad⟩, rfl, rfl⟩)
      · exact .inr ⟨⟨_, hs, hbad⟩, rfl, rfl⟩

theorem TransactionInput.Breaks.eq {r : TransactionInput} {field field' : String} {p q : Problem}
    (hp : r.Breaks field p) (hq : r.Breaks field' q) (h : field = field') : p = q := by
  cases hp <;> cases hq <;> simp_all

theorem TransactionOutput.Breaks.eq {r : TransactionOutput} {field field' : String} {p q : Problem}
    (hp : r.Breaks field p) (hq : r.Breaks field' q) (h : field = field') : p = q := by
  cases hp <;> cases hq <;> simp_all

/-! ## The rules for a list -/

/-- The rules that a list of a transaction can break, with those for its entries. -/
inductive ListBreaks (breaks : α → String → Problem → Prop) (side : Side) :
    Option (List α) → Finding → Prop where
  | absent : ListBreaks breaks side none ⟨.list side, .required⟩
  | length {entries : List α} : ¬ (1 ≤ entries.length ∧ entries.length ≤ 8) →
    ListBreaks breaks side (some entries)
      ⟨.list side, .invalid "must contain between 1 and 8 entries"⟩
  | entry {entries : List α} {i : Nat} {r : α} {field : String} {problem : Problem} :
    entries[i]? = some r → breaks r field problem →
    ListBreaks breaks side (some entries) ⟨.entry side i field, problem⟩

section
variable {breaks : α → String → Problem → Prop}

theorem ListBreaks.path {side : Side} {entries : Option (List α)} {f : Finding}
    (h : ListBreaks breaks side entries f) :
    f.path = .list side ∨ ∃ i field, f.path = .entry side i field := by
  cases h with
  | absent | length hlength => exact .inl rfl
  | entry hr hbreaks => exact .inr ⟨_, _, rfl⟩

theorem ListBreaks.eq {side : Side} {entries : Option (List α)} {f g : Finding}
    (heq : ∀ r field field' p q, breaks r field p → breaks r field' q → field = field' → p = q)
    (hf : ListBreaks breaks side entries f) (hg : ListBreaks breaks side entries g)
    (hpath : f.path = g.path) : f = g := by
  cases hf with
  | absent =>
      cases hg
      rfl
  | length hlength =>
      cases hg with
      | length hlength' => rfl
      | entry hr hbreaks => cases hpath
  | entry hr hbreaks =>
      cases hg with
      | length hlength => cases hpath
      | entry hr' hbreaks' =>
          cases hpath
          rw [hr] at hr'
          cases hr'
          rw [heq _ _ _ _ _ hbreaks hbreaks' rfl]

variable (side : Side)

open TransactionSign in
theorem lists_length (n : Nat) :
    Lists (lengthErrors side.name n) fun f => ¬ (1 ≤ n ∧ n ≤ 8) ∧
      f = ⟨.list side, .invalid "must contain between 1 and 8 entries"⟩ := by
  by_cases hn : 1 ≤ n ∧ n ≤ 8
  · have hgood : (n == 0 || decide (mostEntries < n)) = false := by
      unfold mostEntries
      simp
      omega
    rw [lengthErrors, hgood]
    exact Lists.nothing fun f hf => hf.1 hn
  · have hbad : (n == 0 || decide (mostEntries < n)) = true := by
      unfold mostEntries
      simp
      omega
    have hreason : "must contain between 1 and " ++ decimal mostEntries ++ " entries" =
        "must contain between 1 and 8 entries" := by decide +kernel
    rw [lengthErrors, hbad, hreason]
    refine Lists.single (f := ⟨.list side, .invalid "must contain between 1 and 8 entries"⟩) ?_
    intro f
    exact ⟨And.right, And.intro hn⟩

def Absent (entries : Option (List α)) (f : Finding) : Prop :=
  entries = none ∧ f = ⟨.list side, .required⟩

def Faulty (breaks : α → String → Problem → Prop) (entries : Option (List α)) (f : Finding) :
    Prop :=
  ∃ given, entries = some given ∧ ListBreaks breaks side (some given) f

theorem listBreaks_iff {entries : Option (List α)} {f : Finding} :
    ListBreaks breaks side entries f ↔ Absent side entries f ∨ Faulty side breaks entries f := by
  constructor
  · intro h
    cases entries with
    | none =>
        cases h
        exact .inl ⟨rfl, rfl⟩
    | some given => exact .inr ⟨given, rfl, h⟩
  · rintro (⟨rfl, rfl⟩ | ⟨given, rfl, h⟩)
    · exact .absent
    · exact h

theorem lists_absent (entries : Option (List α)) :
    Lists (Errors.required side.name .body entries) (Absent side entries) := by
  cases entries with
  | none => exact Lists.single (f := ⟨.list side, .required⟩) fun f => ⟨And.right, And.intro rfl⟩
  | some given =>
      refine Lists.nothing ?_
      rintro f ⟨⟨⟩, -⟩

theorem Absent.turn {entries : Option (List α)} {f : Finding} (h : Absent side entries f) :
    f.turn = (0, side.rank) := by
  rw [h.2]
  rfl

theorem Faulty.turn {entries : Option (List α)} {f : Finding} (h : Faulty side breaks entries f) :
    f.turn.1 = side.rank + 1 := by
  obtain ⟨given, -, hbroken⟩ := h
  cases hbroken <;> rfl

variable [Body α]

theorem lists_nested (i : Nat) {r : α} (h : Tells (Body.errors r) (breaks r)) :
    Lists (Errors.nest (side.name ++ "." ++ decimal i) (Body.errors r))
      fun f => ∃ field problem, breaks r field problem ∧ f = ⟨.entry side i field, problem⟩ := by
  obtain ⟨broken, herrors, hnodup, hmem⟩ := h
  refine ⟨broken.map fun x => ⟨.entry side i x.1, x.2⟩, ?_, ?_, ?_, ?_⟩
  · rw [herrors, Errors.nest, List.map_map, List.map_map]
    rfl
  · refine hnodup.map_on ?_
    rintro ⟨field, problem⟩ - ⟨field', problem'⟩ - heq
    simp only [Finding.mk.injEq, FieldPath.entry.injEq] at heq
    obtain ⟨⟨-, -, rfl⟩, rfl⟩ := heq
    rfl
  · intro f
    rw [List.mem_map]
    constructor
    · rintro ⟨⟨field, problem⟩, hx, rfl⟩
      exact ⟨field, problem, (hmem field problem).mp hx, rfl⟩
    · rintro ⟨field, problem, hbreaks, rfl⟩
      exact ⟨(field, problem), (hmem field problem).mpr hbreaks, rfl⟩
  · -- the fields of one entry have the same turn
    rw [List.pairwise_map]
    refine List.pairwise_of_forall ?_
    intro x y
    simp [Finding.Precedes, Finding.turn]

theorem precedes_entry {i j : Nat} (h : i < j) (field field' : String) (p q : Problem) :
    Finding.Precedes ⟨.entry side i field, p⟩ ⟨.entry side j field', q⟩ := by
  simp [Finding.Precedes, Finding.turn, h]

open TransactionSign in
theorem lists_entries (h : ∀ r : α, Tells (Body.errors r) (breaks r)) (i : Nat)
    (entries : List α) :
    Lists (entryErrors side.name i entries) fun f => ∃ k r field problem,
      entries[k]? = some r ∧ breaks r field problem ∧
        f = ⟨.entry side (i + k) field, problem⟩ := by
  induction entries generalizing i with
  | nil => exact Lists.nothing (by simp)
  | cons entry entries ih =>
      refine ((lists_nested side i (h entry)).append (ih (i + 1)) ?_).congr ?_
      · rintro _ _ ⟨field, problem, -, rfl⟩ ⟨k, r, field', problem', -, -, rfl⟩
        exact precedes_entry side (by omega) _ _ _ _
      · intro f
        constructor
        · rintro (⟨field, problem, hbreaks, rfl⟩ | ⟨k, r, field, problem, hr, hbreaks, rfl⟩)
          · exact ⟨0, entry, field, problem, rfl, hbreaks, rfl⟩
          · rw [Nat.add_assoc, Nat.add_comm 1 k]
            exact ⟨k + 1, r, field, problem, hr, hbreaks, rfl⟩
        · rintro ⟨k, r, field, problem, hr, hbreaks, rfl⟩
          cases k with
          | zero =>
              cases hr
              exact .inl ⟨field, problem, hbreaks, rfl⟩
          | succ k =>
              rw [Nat.add_comm k 1, ← Nat.add_assoc]
              exact .inr ⟨k, r, field, problem, hr, hbreaks, rfl⟩

open TransactionSign in
theorem lists_faulty (h : ∀ r : α, Tells (Body.errors r) (breaks r)) (entries : Option (List α)) :
    Lists (listErrors side.name entries) (Faulty side breaks entries) := by
  cases entries with
  | none =>
      refine Lists.nothing ?_
      rintro f ⟨given, ⟨⟩, -⟩
  | some given =>
      refine ((lists_length side given.length).append (lists_entries side h 0 given) ?_).congr ?_
      · rintro _ _ ⟨-, rfl⟩ ⟨k, r, field, problem, -, -, rfl⟩
        simp [Finding.Precedes, Finding.turn]
      · intro f
        constructor
        · rintro (⟨hlength, rfl⟩ | ⟨k, r, field, problem, hr, hbreaks, rfl⟩)
          · exact ⟨given, rfl, .length hlength⟩
          · rw [Nat.zero_add]
            exact ⟨given, rfl, .entry hr hbreaks⟩
        · rintro ⟨_, ⟨⟩, hbroken⟩
          cases hbroken with
          | length hlength => exact .inl ⟨hlength, rfl⟩
          | entry hr hbreaks => exact .inr ⟨_, _, _, _, hr, hbreaks, by rw [Nat.zero_add]⟩

end

/-! ## The rules for a transaction -/

namespace TransactionInput

/-- The input breaks no rule. -/
structure Complete (r : TransactionInput) : Prop where
  hash : ∃ hash, r.hash = some hash
  index : ∃ n, r.index = some n ∧ 0 ≤ n ∧ n < 2 ^ 32

theorem complete_iff (r : TransactionInput) :
    r.Complete ↔ ∀ field problem, ¬ r.Breaks field problem := by
  constructor
  · rintro ⟨⟨hash, hhash⟩, n, hn, hrange⟩ field problem hbreaks
    cases hbreaks with
    | hash h => simp [hhash] at h
    | index h => simp [hn] at h
    | range h hout =>
        rw [hn] at h
        cases h
        exact hout hrange
  · intro h
    obtain ⟨n, hn⟩ : ∃ n, r.index = some n :=
      Option.ne_none_iff_exists'.mp fun hnone => h _ _ (.index hnone)
    refine ⟨Option.ne_none_iff_exists'.mp fun hnone => h _ _ (.hash hnone), n, hn, ?_⟩
    by_contra hout
    exact h _ _ (.range hn hout)

end TransactionInput

namespace TransactionOutput

/-- The output breaks no rule. -/
structure Complete (r : TransactionOutput) : Prop where
  address : ∃ address, r.address = some address
  coins : ∃ s, r.coins = some s ∧ IsAmount s
  hours : ∃ s, r.hours = some s ∧ IsAmount s

theorem complete_iff (r : TransactionOutput) :
    r.Complete ↔ ∀ field problem, ¬ r.Breaks field problem := by
  constructor
  · rintro ⟨⟨address, haddress⟩, ⟨c, hc, hcoins⟩, d, hd, hhours⟩ field problem hbreaks
    cases hbreaks with
    | address h => simp [haddress] at h
    | coins h => simp [hc] at h
    | hours h => simp [hd] at h
    | coinsAmount h hbad =>
        rw [hc] at h
        cases h
        exact hbad hcoins
    | hoursAmount h hbad =>
        rw [hd] at h
        cases h
        exact hbad hhours
  · intro h
    obtain ⟨c, hc⟩ : ∃ s, r.coins = some s :=
      Option.ne_none_iff_exists'.mp fun hnone => h _ _ (.coins hnone)
    obtain ⟨d, hd⟩ : ∃ s, r.hours = some s :=
      Option.ne_none_iff_exists'.mp fun hnone => h _ _ (.hours hnone)
    refine ⟨Option.ne_none_iff_exists'.mp fun hnone => h _ _ (.address hnone), ⟨c, hc, ?_⟩,
      d, hd, ?_⟩
    · by_contra hbad
      exact h _ _ (.coinsAmount hc hbad)
    · by_contra hbad
      exact h _ _ (.hoursAmount hd hbad)

end TransactionOutput

def CompleteList (complete : α → Prop) (entries : Option (List α)) : Prop :=
  ∃ given, entries = some given ∧ (1 ≤ given.length ∧ given.length ≤ 8) ∧
    ∀ r ∈ given, complete r

theorem completeList_iff {breaks : α → String → Problem → Prop} {complete : α → Prop} (side : Side)
    (h : ∀ r, complete r ↔ ∀ field problem, ¬ breaks r field problem)
    (entries : Option (List α)) :
    CompleteList complete entries ↔ ∀ f, ¬ ListBreaks breaks side entries f := by
  constructor
  · rintro ⟨given, rfl, hlength, hall⟩ f hbreaks
    cases hbreaks with
    | length hbad => exact hbad hlength
    | entry hr hbad => exact (h _).mp (hall _ (List.mem_of_getElem? hr)) _ _ hbad
  · intro hnone
    cases entries with
    | none => exact absurd .absent (hnone _)
    | some given =>
        refine ⟨given, rfl, ?_, ?_⟩
        · by_contra hbad
          exact hnone _ (.length hbad)
        · intro r hr
          obtain ⟨i, hi⟩ := List.mem_iff_getElem?.mp hr
          exact (h r).mpr fun field problem hbad => hnone _ (.entry hi hbad)

namespace TransactionSign

/-- Both lists have one to eight entries, and each entry is complete. -/
structure Complete (b : TransactionSign) : Prop where
  inputs : CompleteList TransactionInput.Complete b.inputs
  outputs : CompleteList TransactionOutput.Complete b.outputs

/-- The rules that a transaction can break are those for its lists. -/
def Breaks (b : TransactionSign) (f : Finding) : Prop :=
  ListBreaks TransactionInput.Breaks .inputs b.inputs f ∨
    ListBreaks TransactionOutput.Breaks .outputs b.outputs f

theorem complete_iff {b : TransactionSign} : b.Complete ↔ ∀ f, ¬ b.Breaks f := by
  have hinputs := completeList_iff .inputs (fun r => r.complete_iff) b.inputs
  have houtputs := completeList_iff .outputs (fun r => r.complete_iff) b.outputs
  constructor
  · rintro ⟨hins, houts⟩ f (hf | hf)
    · exact hinputs.mp hins f hf
    · exact houtputs.mp houts f hf
  · intro h
    exact ⟨hinputs.mpr fun f hf => h f (.inl hf), houtputs.mpr fun f hf => h f (.inr hf)⟩

theorem Breaks.eq {b : TransactionSign} {f g : Finding} (hf : b.Breaks f) (hg : b.Breaks g)
    (hpath : f.path = g.path) : f = g := by
  have hsides : ∀ {f g : Finding}, ListBreaks TransactionInput.Breaks .inputs b.inputs f →
      ListBreaks TransactionOutput.Breaks .outputs b.outputs g → f.path ≠ g.path := by
    intro f g hf hg
    rcases hf.path with hf | ⟨_, _, hf⟩ <;> rcases hg.path with hg | ⟨_, _, hg⟩ <;> simp [hf, hg]
  rcases hf with hf | hf <;> rcases hg with hg | hg
  · exact ListBreaks.eq (fun _ _ _ _ _ hp hq => hp.eq hq) hf hg hpath
  · exact absurd hpath (hsides hf hg)
  · exact absurd hpath.symm (hsides hg hf)
  · exact ListBreaks.eq (fun _ _ _ _ _ hp hq => hp.eq hq) hf hg hpath

theorem lists_errors (b : TransactionSign) : Lists (Body.errors b) b.Breaks := by
  refine ((((lists_absent .inputs b.inputs).append (lists_absent .outputs b.outputs) ?_).append
    (lists_faulty .inputs TransactionInput.tells b.inputs) ?_).append
    (lists_faulty .outputs TransactionOutput.tells b.outputs) ?_).congr ?_
  · intro f g hf hg
    rw [Finding.Precedes, hf.turn, hg.turn]
    decide
  -- absent lists are told before anything that is wrong with a list
  · intro f g hf hg
    have hstage : f.turn.1 = 0 := by rcases hf with hf | hf <;> rw [hf.turn]
    exact .inl (by rw [hstage, hg.turn]; omega)
  · rintro f g ((hf | hf) | hf) hg <;>
      exact .inl (by rw [hf.turn, hg.turn]; decide)
  · intro f
    simp only [Breaks, listBreaks_iff]
    tauto

theorem errors_eq_nil_iff (b : TransactionSign) : Body.errors b = [] ↔ b.Complete := by
  obtain ⟨findings, herrors, -, hmem, -⟩ := lists_errors b
  rw [herrors, List.map_eq_nil_iff, List.eq_nil_iff_forall_not_mem, complete_iff]
  simp only [hmem]

theorem errors_names (b : TransactionSign) : ((Body.errors b).map (·.name)).Nodup := by
  obtain ⟨findings, herrors, hnodup, hmem, -⟩ := lists_errors b
  rw [herrors, List.map_map]
  refine hnodup.map_on ?_
  intro f hf g hg heq
  exact Breaks.eq ((hmem f).mp hf) ((hmem g).mp hg) (FieldPath.text_injective heq)

/-- The check accepts a transaction exactly when it is complete, and otherwise reports each rule
that it breaks: once, under a name that no other error has, in turn, and nothing else. -/
theorem validate_reports (b : TransactionSign) :
    (b.Complete ∧ validate b = .ok ()) ∨
    (¬ b.Complete ∧ ∃ errors, validate b = .error errors ∧ Lists errors b.Breaks ∧
      (errors.map (·.name)).Nodup) := by
  by_cases hcomplete : b.Complete
  · exact .inl ⟨hcomplete, (Errors.toResult_ok_iff _).mpr (b.errors_eq_nil_iff.mpr hcomplete)⟩
  · refine .inr ⟨hcomplete, Body.errors b, ?_, b.lists_errors, b.errors_names⟩
    have hsome : Body.errors b ≠ [] := fun hnil => hcomplete (b.errors_eq_nil_iff.mp hnil)
    unfold validate
    cases herrors : Body.errors b with
    | nil => exact absurd herrors hsome
    | cons e errors => rfl

example : validate (⟨some [⟨none, some (-1)⟩], none⟩ : TransactionSign) = .error [
    ⟨"transaction_outputs", .body, .required⟩,
    ⟨"transaction_inputs.0.hash", .body, .required⟩,
    ⟨"transaction_inputs.0.index", .body, .invalid "must be between 0 and 4294967295"⟩] := by
  decide +kernel

end TransactionSign

end WalletBridge.Request
