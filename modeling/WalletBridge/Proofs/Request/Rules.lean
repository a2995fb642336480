import WalletBridge.Proofs.Request.Findings

/-! # What a check reports, and in which words

The rules for the requests that are not transactions are told like those for
transactions, without the checks, and the check of each request reports exactly
the rules that the request breaks. The words of a report are told apart from the
functions that write them: a line for each broken rule, under a heading when
there are several.
-/

namespace WalletBridge.Request

open Text

/-! ## The rules -/

inductive GenerateAddresses.Breaks (b : GenerateAddresses) : String → Problem → Prop where
  | absent : b.addressCount = none → Breaks b "address_n" .required
  | range {n : Nat} : b.addressCount = some n → ¬ (1 ≤ n ∧ n ≤ 99) →
    Breaks b "address_n" (.invalid "must be between 1 and 99")

inductive SignMessage.Breaks (b : SignMessage) : String → Problem → Prop where
  | addressIndex : b.addressIndex = none → Breaks b "address_index" .required
  | message : b.message = none → Breaks b "message" .required

inductive CheckMessageSignature.Breaks (b : CheckMessageSignature) : String → Problem → Prop where
  | address : b.address = none → Breaks b "address" .required
  | message : b.message = none → Breaks b "message" .required
  | signature : b.signature = none → Breaks b "signature" .required

/-- The rules for a transaction, with the path of a field as its name. -/
inductive TransactionSign.Violates (b : TransactionSign) : String → Problem → Prop where
  | finding {f : Finding} : b.Breaks f → Violates b f.path.text f.problem

/-! ## Each check reports its rules -/

theorem Tells.append_required {P : String → Problem → Prop} {errors : Errors}
    (hP : Tells errors P) (name : String) (value : Option β)
    (hnew : ∀ field problem, P field problem → field ≠ name) :
    Tells (errors ++ Errors.required name .body value) fun field problem =>
      P field problem ∨ (value = none ∧ field = name ∧ problem = .required) :=
  hP.append (required name value) fun field problem hfield hlast =>
    hnew field problem hfield hlast.2.1

theorem SignMessage.tells (b : SignMessage) : Tells (Body.errors b) b.Breaks := by
  refine ((Tells.required "address_index" b.addressIndex).append_required "message" b.message
    ?_).congr ?_
  · rintro _ _ ⟨-, rfl, -⟩
    decide
  · intro field problem
    constructor
    · rintro (⟨h, rfl, rfl⟩ | ⟨h, rfl, rfl⟩)
      · exact .addressIndex h
      · exact .message h
    · rintro (h | h)
      · exact .inl ⟨h, rfl, rfl⟩
      · exact .inr ⟨h, rfl, rfl⟩

theorem CheckMessageSignature.tells (b : CheckMessageSignature) :
    Tells (Body.errors b) b.Breaks := by
  refine (((Tells.required "address" b.address).append_required "message" b.message
    ?_).append_required "signature" b.signature ?_).congr ?_
  · rintro _ _ ⟨-, rfl, -⟩
    decide
  · rintro _ _ (⟨-, rfl, -⟩ | ⟨-, rfl, -⟩) <;> decide
  · intro field problem
    constructor
    · rintro ((⟨h, rfl, rfl⟩ | ⟨h, rfl, rfl⟩) | ⟨h, rfl, rfl⟩)
      · exact .address h
      · exact .message h
      · exact .signature h
    · rintro (h | h | h)
      · exact .inl (.inl ⟨h, rfl, rfl⟩)
      · exact .inl (.inr ⟨h, rfl, rfl⟩)
      · exact .inr ⟨h, rfl, rfl⟩

theorem GenerateAddresses.tells (b : GenerateAddresses) : Tells (Body.errors b) b.Breaks := by
  have hreason :
      "must be between 1 and " ++ decimal mostAddresses = "must be between 1 and 99" := by
    decide +kernel
  have hmore : ∃ more, Body.errors b = Errors.required "address_n" .body b.addressCount ++ more ∧
      Tells more fun field problem => (∃ n, b.addressCount = some n ∧ ¬ (1 ≤ n ∧ n ≤ 99)) ∧
        field = "address_n" ∧ problem = .invalid "must be between 1 and 99" := by
    refine ⟨_, rfl, Tells.check ?_ ?_⟩
    · rintro ⟨n, hn, hout⟩
      have hbad : (n == 0 || decide (mostAddresses < n)) = true := by
        unfold mostAddresses
        simp
        omega
      simp only [hn, hbad, if_true, hreason, Errors.invalid]
    · intro hin
      cases hcount : b.addressCount with
      | none => rfl
      | some n =>
          have hgood : (n == 0 || decide (mostAddresses < n)) = false := by
            by_contra hbad
            refine hin ⟨n, hcount, ?_⟩
            simp only [Bool.not_eq_false, Bool.or_eq_true, beq_iff_eq, decide_eq_true_eq] at hbad
            unfold mostAddresses at hbad
            omega
          simp only [hgood, Bool.false_eq_true, if_false]
  obtain ⟨more, herrors, hrange⟩ := hmore
  rw [herrors]
  refine ((Tells.required "address_n" b.addressCount).append hrange ?_).congr ?_
  · rintro _ _ ⟨-, -, rfl⟩ ⟨-, -, hproblem⟩
    cases hproblem
  · intro field problem
    constructor
    · rintro (⟨h, rfl, rfl⟩ | ⟨⟨n, hn, hout⟩, rfl, rfl⟩)
      · exact .absent h
      · exact .range hn hout
    · rintro (h | ⟨hn, hout⟩)
      · exact .inl ⟨h, rfl, rfl⟩
      · exact .inr ⟨⟨_, hn, hout⟩, rfl, rfl⟩

theorem TransactionSign.tells (b : TransactionSign) : Tells (Body.errors b) b.Violates := by
  obtain ⟨findings, herrors, hnodup, hmem, -⟩ := b.lists_errors
  refine ⟨findings.map fun f => (f.path.text, f.problem), ?_, ?_, ?_⟩
  · rw [herrors, List.map_map]
    rfl
  · refine hnodup.map_on fun f hf g hg heq => ?_
    have hpath := FieldPath.text_injective (congrArg Prod.fst heq)
    exact Breaks.eq ((hmem f).mp hf) ((hmem g).mp hg) hpath
  · intro field problem
    constructor
    · intro hin
      obtain ⟨f, hf, heq⟩ := List.mem_map.mp hin
      cases heq
      exact .finding ((hmem f).mp hf)
    · rintro ⟨hbreaks⟩
      exact List.mem_map_of_mem ((hmem _).mpr hbreaks)

/-! ## The words -/

inductive FieldError.Says : FieldError → String → Prop where
  | missing (name : String) : Says ⟨name, .body, .required⟩ (name ++ " in body is required")
  | missingQuery (name : String) : Says ⟨name, .query, .required⟩ (name ++ " in query is required")
  | invalid (name reason : String) :
      Says ⟨name, .body, .invalid reason⟩ (name ++ " in body is invalid: " ++ reason)
  | invalidQuery (name reason : String) :
      Says ⟨name, .query, .invalid reason⟩ (name ++ " in query is invalid: " ++ reason)

/-- The text of all that is wrong with a request. -/
inductive Errors.Say : Errors → String → Prop where
  | single {e : FieldError} {text : String} (htext : e.Says text) : Errors.Say [e] text
  | several {errors : Errors} {texts : List String} (hmany : 2 ≤ errors.length)
      (hsay : List.Forall₂ FieldError.Says errors texts) :
      Errors.Say errors ("validation failure list:" ++ String.join (texts.map ("\n" ++ ·)))

theorem FieldError.says_describe (e : FieldError) : e.Says e.describe := by
  obtain ⟨name, location, problem⟩ := e
  cases problem with
  | required =>
      have htext : describe ⟨name, location, .required⟩ =
          name ++ (" in " ++ location.name ++ " is required") := by
        simp only [describe, String.append_assoc]
      rw [htext]
      cases location with
      | body => exact .missing name
      | query => exact .missingQuery name
  | invalid reason =>
      have htext : describe ⟨name, location, .invalid reason⟩ =
          name ++ (" in " ++ location.name ++ " is invalid: ") ++ reason := by
        simp only [describe, String.append_assoc]
      rw [htext]
      cases location with
      | body => exact .invalid name reason
      | query => exact .invalidQuery name reason

theorem Errors.say_describe {errors : Errors} (h : errors ≠ []) :
    Errors.Say errors errors.describe := by
  obtain _ | ⟨first, _ | ⟨second, rest⟩⟩ := errors
  · exact absurd rfl h
  · exact .single first.says_describe
  · have hsay : List.Forall₂ FieldError.Says (first :: second :: rest)
        ((first :: second :: rest).map FieldError.describe) := by
      rw [List.forall₂_map_right_iff]
      exact List.forall₂_same.mpr fun e _ => e.says_describe
    have htext := Errors.Say.several (by simp) hsay
    rw [List.map_map] at htext
    exact htext

end WalletBridge.Request
