import Mathlib.Data.List.TakeWhile
import WalletBridge.Http.Uri
import WalletBridge.Proofs.Net.Literal

/-! # Hosts and ports in addresses

A host as it is written, with or without a port, is an authority, and its parts
are found again whatever stands before it up to an `@`: the host after the last
`@`, the port after the last colon. A colon that belongs to a bracketed address,
or to what stands before an `@`, is followed by a character of no number, so it is
never taken for the colon of a port.
-/

namespace WalletBridge.Http

open Net Text

/-- The characters of a host's name: the unreserved ones and the sub-delimiters. -/
def isNameChar (c : Char) : Bool :=
  Uri.isLetter c || isDigit c || "-._~!$&\x27()*+,;=".toList.contains c

/-- The characters name a host, or are a long address in brackets, which may name its zone. -/
inductive IsHost : List Char → Prop where
  | name {cs : List Char} (some : cs ≠ []) (chars : ∀ c ∈ cs, isNameChar c = true) : IsHost cs
  | address {cs zone : List Char} {groups : List Nat} (reads : longAddress? cs = some groups)
      (zoned : zone = [] ∨ ∃ name, zone = '%' :: name ∧ ∀ c ∈ name, isNameChar c = true) :
      IsHost ('[' :: (cs ++ zone ++ [']']))

structure Port where
  digits : List Char
  some : digits ≠ []
  chars : ∀ c ∈ digits, isDigit c = true
  small : digitsValue digits ≤ 65535

def Port.number (p : Port) : Nat := digitsValue p.digits

/-- A host, with or without a port, as it is written. -/
structure Place where
  host : List Char
  isHost : IsHost host
  port : Option Port := none

def portChars : Option Port → List Char
  | none => []
  | some port => ':' :: port.digits

def Place.chars (p : Place) : List Char := p.host ++ portChars p.port

/-! ## Splitting at a character -/

section
variable {x : Char} {before after cs : List Char}

theorem takeWhile_ne_append (h : x ∉ before) :
    (before ++ x :: after).takeWhile (· != x) = before := by
  rw [List.takeWhile_append_of_pos]
  · simp
  · intro c hc
    simpa using fun hsame : c = x => h (hsame ▸ hc)

theorem takeWhile_ne_self (h : x ∉ cs) : cs.takeWhile (· != x) = cs := by
  rw [List.takeWhile_eq_self_iff]
  intro c hc
  simpa using fun hsame : c = x => h (hsame ▸ hc)

theorem exists_last (h : x ∈ cs) : ∃ before after, cs = before ++ x :: after ∧ x ∉ after := by
  obtain ⟨after, before, hsplit, hfirst⟩ := List.eq_append_cons_of_mem (List.mem_reverse.mpr h)
  refine ⟨before.reverse, after.reverse, ?_, by simpa using hfirst⟩
  have hcs := congrArg List.reverse hsplit
  simpa using hcs

theorem splitLastColon_append (h : ':' ∉ after) :
    splitLastColon (before ++ ':' :: after) = some (before, after) := by
  have hreverse : (before ++ ':' :: after).reverse = after.reverse ++ ':' :: before.reverse := by
    simp
  have htail : (before ++ ':' :: after).reverse.takeWhile (· != ':') = after.reverse := by
    rw [hreverse]
    exact takeWhile_ne_append (by simpa using h)
  unfold splitLastColon
  rw [htail]
  have hlonger : (after.reverse.length == (before ++ ':' :: after).length) = false := by
    simp
    omega
  have hbefore : (before ++ ':' :: after).length - after.reverse.length - 1 = before.length := by
    simp
    omega
  simp only [hlonger, Bool.false_eq_true, if_false, hbefore, List.take_left, List.reverse_reverse]

theorem splitLastColon_of_not_mem (h : ':' ∉ cs) : splitLastColon cs = none := by
  unfold splitLastColon
  rw [takeWhile_ne_self (by simpa using h)]
  simp

theorem afterAt_append (h : '@' ∉ after) : Uri.afterAt (before ++ '@' :: after) = after := by
  have hreverse : (before ++ '@' :: after).reverse = after.reverse ++ '@' :: before.reverse := by
    simp
  rw [Uri.afterAt, hreverse, takeWhile_ne_append (by simpa using h), List.reverse_reverse]

theorem afterAt_of_not_mem (h : '@' ∉ cs) : Uri.afterAt cs = cs := by
  rw [Uri.afterAt, takeWhile_ne_self (by simpa using h), List.reverse_reverse]

end

/-! ## Numbers of ports -/

theorem not_mem_digits {cs : List Char} {x : Char} (h : ∀ c ∈ cs, isDigit c = true)
    (hx : isDigit x = false) : x ∉ cs := by
  intro hmem
  rw [h x hmem] at hx
  cases hx

theorem digits?_eq_none {cs : List Char} {x : Char} (hx : x ∈ cs) (hdigit : isDigit x = false) :
    digits? cs = none := by
  unfold digits?
  rw [if_neg]
  intro hall
  simp only [Bool.and_eq_true, List.all_eq_true] at hall
  exact not_mem_digits hall.2 hdigit hx

/-- A character that belongs to no number makes the whole unreadable. -/
theorem naturalUpTo?_eq_none {greatest : Nat} {cs : List Char} {x : Char} (hx : x ∈ cs)
    (hdigit : isDigit x = false) (hplus : x ≠ '+') :
    naturalUpTo? greatest (String.ofList cs) = none := by
  have hnone : natural? (String.ofList cs) = none := by
    unfold natural?
    rw [String.toList_ofList]
    split
    · next rest =>
        have hrest : x ∈ rest := by simpa [hplus] using hx
        exact digits?_eq_none hrest hdigit
    · exact digits?_eq_none hx hdigit
  rw [naturalUpTo?, hnone]
  rfl

theorem Port.naturalUpTo? (p : Port) :
    Text.naturalUpTo? 65535 (String.ofList p.digits) = .some p.number := by
  have hnatural : natural? (String.ofList p.digits) = .some p.number := by
    have hdigits : digits? p.digits = .some p.number :=
      digits?_eq_some_iff.mpr ⟨p.some, p.chars, rfl⟩
    unfold natural?
    rw [String.toList_ofList]
    split
    · next rest hrest =>
        have hplus : '+' ∈ p.digits := by simp [hrest]
        exact absurd hplus (not_mem_digits p.chars rfl)
    · exact hdigits
  rw [Text.naturalUpTo?, hnatural]
  simpa [Option.filter_some, Port.number] using p.small

/-! ## Characters of hosts -/

theorem isNameChar_of_digit {c : Char} (h : isDigit c = true) : isNameChar c = true := by
  simp [isNameChar, h]

theorem isNameChar_of_hexDigit {c : Char} (h : (hexDigit? c).isSome = true) :
    isNameChar c = true := by
  have hletters : Uri.isLetter c = true → isNameChar c = true := by
    intro hletter
    simp [isNameChar, hletter]
  unfold hexDigit? at h
  split at h
  · next hdigit =>
      simp only [Bool.and_eq_true, decide_eq_true_eq] at hdigit
      apply isNameChar_of_digit
      simp only [isDigit, Bool.and_eq_true, decide_eq_true_eq]
      exact hdigit
  split at h
  · next hsmall =>
      simp only [Bool.and_eq_true, decide_eq_true_eq] at hsmall
      have hlast : c ≤ 'z' := Char.le_trans hsmall.2 (by decide)
      exact hletters (by simp [Uri.isLetter, hsmall.1, hlast])
  split at h
  · next hcapital =>
      simp only [Bool.and_eq_true, decide_eq_true_eq] at hcapital
      have hlast : c ≤ 'Z' := Char.le_trans hcapital.2 (by decide)
      exact hletters (by simp [Uri.isLetter, hcapital.1, hlast])
  · cases h

theorem isNameChar_of_literal {c : Char} (h : isLiteralChar c = true) :
    isNameChar c = true ∨ c = ':' := by
  simp only [isLiteralChar, Bool.or_eq_true, beq_iff_eq] at h
  rcases h with (hdigit | hcolon) | hpoint
  · exact .inl (isNameChar_of_hexDigit hdigit)
  · exact .inr hcolon
  · exact .inl (by rw [hpoint]; decide)

def isInnerChar (c : Char) : Bool := isNameChar c || c == ':' || c == '%'

theorem isInnerChar_of_name {c : Char} (h : isNameChar c = true) : isInnerChar c = true := by
  simp [isInnerChar, h]

theorem ne_of_isNameChar {c x : Char} (h : isNameChar c = true) (hx : isNameChar x = false) :
    c ≠ x := by
  rintro rfl
  rw [h] at hx
  cases hx

theorem isHost_inner {cs zone : List Char} {groups : List Nat}
    (reads : longAddress? cs = some groups)
    (zoned : zone = [] ∨ ∃ name, zone = '%' :: name ∧ ∀ c ∈ name, isNameChar c = true) :
    (∀ c ∈ cs ++ zone, isInnerChar c = true) ∧ (cs ++ zone).count ':' ≤ 8 := by
  obtain ⟨hliteral, hcolons⟩ := longAddress?_written reads
  have hchars : ∀ c ∈ cs, isInnerChar c = true := by
    intro c hc
    rcases isNameChar_of_literal (hliteral c hc) with hname | rfl
    · exact isInnerChar_of_name hname
    · rfl
  rcases zoned with rfl | ⟨name, rfl, hname⟩
  · simpa using ⟨hchars, hcolons⟩
  · constructor
    · intro c hc
      simp only [List.mem_append, List.mem_cons] at hc
      rcases hc with hmem | rfl | hmem
      · exact hchars c hmem
      · rfl
      · exact isInnerChar_of_name (hname c hmem)
    · have hnone : name.count ':' = 0 := by
        rw [List.count_eq_zero]
        intro hmem
        exact ne_of_isNameChar (hname ':' hmem) rfl rfl
      simp [List.count_append, hnone, hcolons]

/-! ## Scanning -/

open Uri

theorem push_name {s : AuthorityScan} {c : Char} (h : isNameChar c = true) :
    s.push c = some { s with atSign := false } := by
  have hcolon : c ≠ ':' := ne_of_isNameChar h rfl
  have hopen : c ≠ '[' := ne_of_isNameChar h rfl
  have hclose : c ≠ ']' := ne_of_isNameChar h rfl
  have hat : c ≠ '@' := ne_of_isNameChar h rfl
  have hpercent : c ≠ '%' := ne_of_isNameChar h rfl
  have hchar : isAuthorityChar c = true := by
    simp only [isNameChar, Bool.or_eq_true, List.contains_iff_mem] at h
    rcases h with (hletter | hdigit) | hmark
    · simp [isAuthorityChar, hletter]
    · simp [isAuthorityChar, hdigit]
    · have hmarks : "-._~!$&'()*+,;=".toList.all isAuthorityChar = true := by decide
      exact List.all_eq_true.mp hmarks c hmark
  simp [AuthorityScan.push, hcolon, hopen, hclose, hat, hpercent, hchar]

/-- Inside brackets, and in names, a scan counts the colons and looks out for percent signs. -/
theorem scan_inner (colons : Nat) (opened closed percent : Bool) {cs : List Char}
    (h : ∀ c ∈ cs, isInnerChar c = true) (hcolons : colons + cs.count ':' ≤ 8) :
    cs.foldlM AuthorityScan.push ⟨colons, opened, closed, percent, false⟩ =
      some ⟨colons + cs.count ':', opened, closed, percent || cs.contains '%', false⟩ := by
  induction cs generalizing colons percent with
  | nil => simp
  | cons c cs ih =>
      have hc := h c (by simp)
      have hrest : ∀ c ∈ cs, isInnerChar c = true := fun c hc => h c (by simp [hc])
      simp only [isInnerChar, Bool.or_eq_true, beq_iff_eq] at hc
      rw [List.foldlM_cons]
      rcases hc with (hname | rfl) | rfl
      · have hcolon : c ≠ ':' := ne_of_isNameChar hname rfl
        have hpercent : '%' ≠ c := (ne_of_isNameChar hname rfl).symm
        rw [List.count_cons_of_ne hcolon] at hcolons ⊢
        rw [push_name hname]
        simpa [hpercent] using ih colons percent hrest hcolons
      · have hfew : ¬ 8 ≤ colons := by
          rw [List.count_cons_self] at hcolons
          omega
        have hpush : AuthorityScan.push ⟨colons, opened, closed, percent, false⟩ ':' =
            some ⟨colons + 1, opened, closed, percent, false⟩ := by
          simp [AuthorityScan.push, hfew]
        rw [List.count_cons_self] at hcolons ⊢
        rw [hpush, ← Nat.add_assoc, Nat.add_right_comm]
        simpa using ih (colons + 1) percent hrest (by omega)
      · have hpush : AuthorityScan.push ⟨colons, opened, closed, percent, false⟩ '%' =
            some ⟨colons, opened, closed, true, false⟩ := rfl
        rw [List.count_cons_of_ne (by decide)] at hcolons ⊢
        rw [hpush]
        simpa using ih colons true hrest hcolons

theorem scan_name (colons : Nat) (opened closed percent : Bool) {cs : List Char}
    (h : ∀ c ∈ cs, isNameChar c = true) (hcolons : colons ≤ 8) :
    cs.foldlM AuthorityScan.push ⟨colons, opened, closed, percent, false⟩ =
      some ⟨colons, opened, closed, percent, false⟩ := by
  have hnone : cs.count ':' = 0 := by
    rw [List.count_eq_zero]
    intro hmem
    exact ne_of_isNameChar (h ':' hmem) rfl rfl
  have hpercent : cs.contains '%' = false := by
    rw [← Bool.not_eq_true, List.contains_iff_mem]
    intro hmem
    exact ne_of_isNameChar (h '%' hmem) rfl rfl
  have hscan := scan_inner colons opened closed percent
    (fun c hc => isInnerChar_of_name (h c hc)) (by omega)
  rw [hscan, hnone, hpercent]
  simp

/-- After a host the brackets are closed and nothing is left to be settled. -/
theorem scan_host {cs : List Char} (h : IsHost cs) :
    ∃ brackets, cs.foldlM AuthorityScan.push {} = some ⟨0, brackets, brackets, false, false⟩ := by
  cases h with
  | name some chars => exact ⟨false, scan_name 0 false false false chars (by omega)⟩
  | address reads zoned =>
      obtain ⟨hchars, hcolons⟩ := isHost_inner reads zoned
      refine ⟨true, ?_⟩
      have hopen : AuthorityScan.push {} '[' = some ⟨0, true, false, false, false⟩ := rfl
      have hclose : ∀ n p, AuthorityScan.push ⟨n, true, false, p, false⟩ ']' =
          some ⟨0, true, true, false, false⟩ := fun _ _ => rfl
      rw [List.foldlM_cons, hopen]
      simp only [Option.bind_eq_bind, Option.bind_some]
      rw [List.foldlM_append, scan_inner 0 true false false hchars (by omega)]
      simp [hclose]

theorem isAuthority_place (p : Place) : isAuthority p.chars = true := by
  obtain ⟨brackets, hhost⟩ := scan_host p.isHost
  have hplace : ∃ colons, colons ≤ 1 ∧ p.chars.foldlM AuthorityScan.push {} =
      some ⟨colons, brackets, brackets, false, false⟩ := by
    rw [Place.chars, List.foldlM_append, hhost]
    simp only [Option.bind_eq_bind, Option.bind_some]
    cases p.port with
    | none => exact ⟨0, by omega, rfl⟩
    | some port =>
        refine ⟨1, by omega, ?_⟩
        rw [portChars, List.foldlM_cons]
        exact scan_name 1 brackets brackets false
          (fun c hc => isNameChar_of_digit (port.chars c hc)) (by omega)
  obtain ⟨colons, hfew, hscan⟩ := hplace
  simp [isAuthority, hscan, hfew]

/-! ## Host and port are found again -/

/-- What may stand before a host: nothing, or anything up to an `@`. -/
def IsFront (front : List Char) : Prop := front = [] ∨ ∃ user, front = user ++ ['@']

theorem isHost_chars {cs : List Char} (h : IsHost cs) :
    ∀ c ∈ cs, isInnerChar c = true ∨ c = '[' ∨ c = ']' := by
  intro c hc
  cases h with
  | name some chars => exact .inl (isInnerChar_of_name (chars c hc))
  | address reads zoned =>
      simp only [List.mem_cons, List.mem_append, List.not_mem_nil, or_false] at hc
      rcases hc with rfl | hinner | rfl
      · exact .inr (.inl rfl)
      · exact .inl ((isHost_inner reads zoned).1 c (by simpa using hinner))
      · exact .inr (.inr rfl)

theorem place_chars (p : Place) : ∀ c ∈ p.chars, isInnerChar c = true ∨ c = '[' ∨ c = ']' := by
  intro c hc
  rcases List.mem_append.mp hc with hhost | hport
  · exact isHost_chars p.isHost c hhost
  · cases hp : p.port with
    | none => simp [hp, portChars] at hport
    | some port =>
        rw [hp] at hport
        rcases List.mem_cons.mp hport with rfl | hdigit
        · exact .inl rfl
        · exact .inl (isInnerChar_of_name (isNameChar_of_digit (port.chars c hdigit)))

theorem not_mem_place (p : Place) {x : Char} (hinner : isInnerChar x = false) (hopen : x ≠ '[')
    (hclose : x ≠ ']') : x ∉ p.chars := by
  intro hx
  rcases place_chars p x hx with h | h | h
  · rw [hinner] at h
    cases h
  · exact hopen h
  · exact hclose h

theorem place_ne_nil (p : Place) : p.chars ≠ [] := by
  obtain ⟨cs, hhost, port⟩ := p
  cases hhost with
  | name some _ => simp [Place.chars, some]
  | address _ _ => simp [Place.chars]

theorem afterAt_place {front : List Char} (hfront : IsFront front) (p : Place) :
    afterAt (front ++ p.chars) = p.chars := by
  have hat : '@' ∉ p.chars := not_mem_place p rfl (by decide) (by decide)
  rcases hfront with rfl | ⟨user, rfl⟩
  · exact afterAt_of_not_mem hat
  · rw [List.append_assoc]
    exact afterAt_append hat

/-- The host is found behind whatever stands before it. -/
theorem host_place {front : List Char} (hfront : IsFront front) (p : Place) (scheme : Option String)
    (path : List Char) : Uri.host ⟨scheme, front ++ p.chars, path⟩ = p.host := by
  simp only [Uri.host, afterAt_place hfront]
  obtain ⟨cs, hhost, port⟩ := p
  simp only [Place.chars]
  cases hhost with
  | name some chars =>
      have hcolon : ':' ∉ cs := fun h => ne_of_isNameChar (chars ':' h) rfl rfl
      have hwhole : (cs ++ portChars port).takeWhile (· != ':') = cs := by
        cases port with
        | none => rw [portChars, List.append_nil, takeWhile_ne_self hcolon]
        | some port => exact takeWhile_ne_append hcolon
      split
      · next rest hopen =>
          have hbracket : '[' ∈ cs := by
            cases cs with
            | nil => exact absurd rfl some
            | cons c cs =>
                rw [List.cons_append, List.cons.injEq] at hopen
                simp [hopen.1]
          exact absurd rfl (ne_of_isNameChar (chars '[' hbracket) rfl)
      · exact hwhole
  | @address cs zone _ reads zoned =>
      have hclose : ']' ∉ '[' :: (cs ++ zone) := by
        intro h
        rcases List.mem_cons.mp h with hsame | hinner
        · cases hsame
        · have hchar := (isHost_inner reads zoned).1 ']' hinner
          cases hchar
      have hsplit : '[' :: (cs ++ zone ++ [']']) ++ portChars port =
          '[' :: (cs ++ zone) ++ ']' :: portChars port := by simp
      rw [hsplit, takeWhile_ne_append hclose]
      simp

theorem port?_eq (scheme : Option String) (authority path : List Char) :
    Uri.port? ⟨scheme, authority, path⟩ = (splitLastColon authority).bind fun parts =>
      naturalUpTo? 65535 (String.ofList parts.2) := rfl

/-- A last colon that is followed by a character of no number is the colon of no port. -/
theorem port?_eq_none {before after : List Char} {x : Char} (hcolon : ':' ∉ after) (hx : x ∈ after)
    (hdigit : isDigit x = false) (hplus : x ≠ '+') (scheme : Option String) (path : List Char) :
    Uri.port? ⟨scheme, before ++ after, path⟩ = none := by
  rw [port?_eq]
  by_cases h : ':' ∈ before
  · obtain ⟨earlier, later, rfl, hlater⟩ := exists_last h
    have hsplit : earlier ++ ':' :: later ++ after = earlier ++ ':' :: (later ++ after) := by simp
    have hlast : ':' ∉ later ++ after := by simp [hlater, hcolon]
    rw [hsplit, splitLastColon_append hlast]
    exact naturalUpTo?_eq_none (List.mem_append_right later hx) hdigit hplus
  · have hnone : ':' ∉ before ++ after := by simp [h, hcolon]
    rw [splitLastColon_of_not_mem hnone]
    rfl

/-- The port is found behind whatever stands before it, and none is found where none is written. -/
theorem port?_place {front : List Char} (hfront : IsFront front) (p : Place)
    (scheme : Option String) (path : List Char) :
    Uri.port? ⟨scheme, front ++ p.chars, path⟩ = p.port.map (·.number) := by
  obtain ⟨cs, hhost, port⟩ := p
  simp only [Place.chars]
  cases port with
  | some port =>
      have hcolon : ':' ∉ port.digits := not_mem_digits port.chars rfl
      have hsplit :
          front ++ (cs ++ portChars (some port)) = (front ++ cs) ++ ':' :: port.digits := by
        simp [portChars]
      rw [port?_eq, hsplit, splitLastColon_append hcolon]
      exact port.naturalUpTo?
  | none =>
      rw [portChars, List.append_nil]
      cases hhost with
      | name some chars =>
          have hcolon : ':' ∉ cs := fun h => ne_of_isNameChar (chars ':' h) rfl rfl
          rcases hfront with rfl | ⟨user, rfl⟩
          · rw [port?_eq, List.nil_append, splitLastColon_of_not_mem hcolon]
            rfl
          · have hafter : ':' ∉ '@' :: cs := by simpa using hcolon
            rw [List.append_assoc]
            exact port?_eq_none hafter List.mem_cons_self rfl (by decide) scheme path
      | @address cs zone _ reads zoned =>
          have hsplit : front ++ '[' :: (cs ++ zone ++ [']']) =
              (front ++ '[' :: (cs ++ zone)) ++ [']'] := by simp
          rw [hsplit]
          exact port?_eq_none (by decide) List.mem_cons_self rfl (by decide) scheme path

end WalletBridge.Http
