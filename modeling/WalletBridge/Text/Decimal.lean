/-!
# Whole numbers in decimal

`decimal` writes a number without leading zeros; `natural?` and `integer?` read one that may carry
a sign and leading zeros. Reading has no upper bound: `naturalUpTo?` and `integerIn?` add it.
-/

namespace WalletBridge.Text

def digitChar (d : Nat) : Char := Char.ofNat (48 + d % 10)

def decimalChars (n : Nat) : List Char :=
  if n < 10 then [digitChar n] else decimalChars (n / 10) ++ [digitChar n]
termination_by n

/-- A number in decimal, without leading zeros. -/
def decimal (n : Nat) : String := String.ofList (decimalChars n)

def signedDecimal : Int → String
  | .ofNat n => decimal n
  | .negSucc n => "-" ++ decimal (n + 1)

/-- A number in decimal, filled up with zeros on the left to `width` digits. -/
def padded (width n : Nat) : String :=
  let digits := decimalChars n
  String.ofList (List.replicate (width - digits.length) '0' ++ digits)

def isDigit (c : Char) : Bool := 48 ≤ c.toNat && c.toNat ≤ 57

def digitValue (c : Char) : Nat := c.toNat - 48

def digitsValue (cs : List Char) : Nat := cs.foldl (fun n c => n * 10 + digitValue c) 0

/-- The value of a non-empty row of digits and nothing else. -/
def digits? (cs : List Char) : Option Nat :=
  if !cs.isEmpty && cs.all isDigit then some (digitsValue cs) else none

theorem digitsValue_concat (cs : List Char) (c : Char) :
    digitsValue (cs ++ [c]) = digitsValue cs * 10 + digitValue c := by
  simp [digitsValue]

theorem digitValue_digitChar (d : Nat) : digitValue (digitChar d) = d % 10 := by
  have hdigits : ∀ r < 10, digitValue (Char.ofNat (48 + r)) = r := by decide
  exact hdigits (d % 10) (Nat.mod_lt d (by decide))

theorem digitsValue_decimalChars (n : Nat) : digitsValue (decimalChars n) = n := by
  induction n using decimalChars.induct with
  | case1 n hsmall =>
      rw [decimalChars, if_pos hsmall]
      have hvalue := digitValue_digitChar n
      simp only [digitsValue, List.foldl_cons, List.foldl_nil]
      omega
  | case2 n hlarge ih =>
      rw [decimalChars, if_neg hlarge, digitsValue_concat, ih, digitValue_digitChar]
      omega

theorem decimal_injective {m n : Nat} (h : decimal m = decimal n) : m = n := by
  have hchars : decimalChars m = decimalChars n := String.ofList_injective h
  rw [← digitsValue_decimalChars m, hchars, digitsValue_decimalChars]

theorem decimalChars_all_isDigit (n : Nat) : ∀ c ∈ decimalChars n, isDigit c := by
  have hdigit : ∀ d, isDigit (digitChar d) := by
    intro d
    have hall : ∀ r < 10, isDigit (Char.ofNat (48 + r)) := by decide
    exact hall (d % 10) (Nat.mod_lt d (by decide))
  induction n using decimalChars.induct with
  | case1 n hsmall =>
      rw [decimalChars, if_pos hsmall]
      simpa using hdigit n
  | case2 n hlarge ih =>
      rw [decimalChars, if_neg hlarge]
      intro c hc
      rcases List.mem_append.mp hc with hc | hc
      · exact ih c hc
      · rw [List.mem_singleton.mp hc]
        exact hdigit n

theorem digits?_eq_some_iff {cs : List Char} {n : Nat} :
    digits? cs = some n ↔ cs ≠ [] ∧ (∀ c ∈ cs, isDigit c) ∧ n = digitsValue cs := by
  unfold digits?
  split
  · rename_i hdigits
    simp only [Bool.and_eq_true, Bool.not_eq_true', List.isEmpty_eq_false_iff,
      List.all_eq_true] at hdigits
    constructor
    · intro h
      exact ⟨hdigits.1, hdigits.2, (Option.some.inj h).symm⟩
    · rintro ⟨-, -, rfl⟩
      rfl
  · rename_i hdigits
    simp only [Bool.and_eq_true, Bool.not_eq_true', List.isEmpty_eq_false_iff,
      List.all_eq_true, not_and] at hdigits
    simp only [reduceCtorEq, false_iff]
    rintro ⟨hne, hall, -⟩
    exact hdigits hne hall

/-- Reads a number of at least one digit, with an optional plus sign. -/
def natural? (s : String) : Option Nat :=
  match s.toList with
  | '+' :: cs => digits? cs
  | cs => digits? cs

def integer? (s : String) : Option Int :=
  match s.toList with
  | '-' :: cs => (digits? cs).map fun n => -(n : Int)
  | '+' :: cs => (digits? cs).map fun n => (n : Int)
  | cs => (digits? cs).map fun n => (n : Int)

/-- Reads a number no greater than `greatest`. -/
def naturalUpTo? (greatest : Nat) (s : String) : Option Nat :=
  (natural? s).filter (· ≤ greatest)

def integerIn? (least greatest : Int) (s : String) : Option Int :=
  (integer? s).filter fun n => least ≤ n && n ≤ greatest

end WalletBridge.Text
