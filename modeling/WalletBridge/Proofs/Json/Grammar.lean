import Mathlib.Logic.Relation
import WalletBridge.Proofs.Json.Written

/-! # JSON texts as tokens

The grammar of JSON, told without a reader: a value is a tree, a tree is a row of
tokens, and a text spells the tokens with any blanks before, between and after
them. A tree keeps everything that a text shows besides the blanks: how each
character is written, how a number is written, the order of the members.
-/

namespace WalletBridge.Json

/-! ## Texts and numbers -/

def IsHexDigit (b : UInt8) : Prop :=
  (0x30 ≤ b ∧ b ≤ 0x39) ∨ (0x41 ≤ b ∧ b ≤ 0x46) ∨ (0x61 ≤ b ∧ b ≤ 0x66)

/-- A part of a text between its quotation marks. -/
inductive Piece where
  | plain (b : UInt8) (h : Plain b)
  /-- A backslash and one of the letters that may follow it. -/
  | escape (letter : UInt8) (h : letter ∈ [0x22, 0x5C, 0x2F, 0x62, 0x66, 0x6E, 0x72, 0x74])
  /-- A backslash, the letter `u` and four digits. -/
  | hex (a b c d : UInt8)
      (h : IsHexDigit a ∧ IsHexDigit b ∧ IsHexDigit c ∧ IsHexDigit d)

def Piece.bytes : Piece → Bytes
  | .plain b _ => [b]
  | .escape letter _ => [backslash, letter]
  | .hex a b c d _ => [backslash, 0x75, a, b, c, d]

abbrev Spelling := List Piece

def Spelling.inner (s : Spelling) : Bytes := s.flatMap Piece.bytes ++ [quote]

def Spelling.token (s : Spelling) : Bytes := quote :: s.inner

def IsDigits (digits : Bytes) : Prop := digits ≠ [] ∧ ∀ d ∈ digits, isDigitByte d

structure Numeral where
  negative : Bool
  whole : Bytes
  fraction : Option Bytes
  /-- The letter of the exponent, its sign and its digits. -/
  exponent : Option (UInt8 × Option UInt8 × Bytes)
  whole_digits : IsDigits whole
  /-- A zero leads no other digit. -/
  whole_lead : whole.head? = some 0x30 → whole = [0x30]
  fraction_digits : ∀ digits ∈ fraction, IsDigits digits
  exponent_form : ∀ x ∈ exponent, isExponentByte x.1 ∧
    (∀ sign ∈ x.2.1, sign = plus ∨ sign = minus) ∧ IsDigits x.2.2

namespace Numeral

variable (n : Numeral)

def exponentBytes : Bytes :=
  match n.exponent with
  | none => []
  | some (letter, sign, digits) => letter :: (sign.toList ++ digits)

def tail : Bytes :=
  match n.fraction with
  | none => n.exponentBytes
  | some digits => point :: (digits ++ n.exponentBytes)

def size : Bytes := n.whole ++ n.tail

def token : Bytes := if n.negative then minus :: n.size else n.size

end Numeral

/-! ## Trees -/

inductive Tree where
  | null
  | truth (b : Bool)
  | number (n : Numeral)
  | text (s : Spelling)
  | list (items : List Tree)
  | object (members : List (Spelling × Tree))

namespace Tree

theorem induction {P : Tree → Prop} (null : P .null) (truth : ∀ b, P (.truth b))
    (number : ∀ n, P (.number n)) (text : ∀ s, P (.text s))
    (list : ∀ items, (∀ T ∈ items, P T) → P (.list items))
    (object : ∀ members, (∀ m ∈ members, P m.2) → P (.object members)) : ∀ T, P T
  | .null => null
  | .truth b => truth b
  | .number n => number n
  | .text s => text s
  | .list items => list items fun T _ => induction null truth number text list object T
  | .object members =>
    object members fun m _ => induction null truth number text list object m.2
termination_by T => sizeOf T
decreasing_by
  · have := List.sizeOf_lt_of_mem ‹T ∈ items›
    simp only [Tree.list.sizeOf_spec]
    omega
  · have := List.sizeOf_lt_of_mem ‹m ∈ members›
    have : sizeOf m = 1 + sizeOf m.1 + sizeOf m.2 := by cases m; rfl
    simp only [Tree.object.sizeOf_spec]
    omega

mutual

def tokens : Tree → List Bytes
  | .null => [[beginsNull, 0x75, 0x6C, 0x6C]]
  | .truth true => [[beginsTrue, 0x72, 0x75, 0x65]]
  | .truth false => [[beginsFalse, 0x61, 0x6C, 0x73, 0x65]]
  | .number n => [n.token]
  | .text s => [s.token]
  | .list items => [openList] :: itemTokens items
  | .object members => [openObject] :: memberTokens members

def itemTokens : List Tree → List Bytes
  | [] => [[closeList]]
  | T :: items => T.tokens ++ moreItems items

def moreItems : List Tree → List Bytes
  | [] => [[closeList]]
  | T :: items => [comma] :: (T.tokens ++ moreItems items)

def memberTokens : List (Spelling × Tree) → List Bytes
  | [] => [[closeObject]]
  | (name, T) :: members => name.token :: [colon] :: (T.tokens ++ moreMembers members)

def moreMembers : List (Spelling × Tree) → List Bytes
  | [] => [[closeObject]]
  | (name, T) :: members =>
    [comma] :: name.token :: [colon] :: (T.tokens ++ moreMembers members)

end

def plain (T : Tree) : Bytes := T.tokens.flatten

/-- The members of one object in the tree change places. -/
inductive Reorders : Tree → Tree → Prop where
  | here {members members' : List (Spelling × Tree)} (h : members.Perm members') :
      Reorders (.object members) (.object members')
  | item {before after : List Tree} {T T' : Tree} (h : Reorders T T') :
      Reorders (.list (before ++ T :: after)) (.list (before ++ T' :: after))
  | member {before after : List (Spelling × Tree)} {name : Spelling} {T T' : Tree}
      (h : Reorders T T') :
      Reorders (.object (before ++ (name, T) :: after)) (.object (before ++ (name, T') :: after))

theorem Reorders.object {members : List (Spelling × Tree)} {T : Tree}
    (h : Reorders (.object members) T) : ∃ members', T = .object members' := by
  cases h with
  | here => exact ⟨_, rfl⟩
  | member => exact ⟨_, rfl⟩

end Tree

/-! ## Blanks -/

/-- The bytes spell the tokens, with any blanks before, between and after them. -/
def Spread : List Bytes → Bytes → Prop
  | [], bytes => ∀ b ∈ bytes, isSpace b
  | token :: tokens, bytes => ∃ blanks rest, (∀ b ∈ blanks, isSpace b) ∧
    bytes = blanks ++ (token ++ rest) ∧ Spread tokens rest

def Solid (token : Bytes) : Prop := ∃ b more, token = b :: more ∧ isSpace b = false

theorem dropWhile_blanks {blanks : Bytes} (h : ∀ b ∈ blanks, isSpace b) (rest : Bytes) :
    skipSpaces (blanks ++ rest) = skipSpaces rest := by
  induction blanks with
  | nil => rfl
  | cons b blanks ih =>
      rw [List.cons_append, skipSpaces, List.dropWhile_cons, if_pos (h b (by simp))]
      exact ih fun b' hb => h b' (by simp [hb])

namespace Spread

variable {tokens : List Bytes} {token bytes : Bytes} {b : UInt8}

theorem nil_skipSpaces (h : Spread [] bytes) : skipSpaces bytes = [] := by
  have hblank := dropWhile_blanks h []
  rwa [List.append_nil] at hblank

/-- Without the blanks before it, a text begins with its first token. -/
theorem cons_skipSpaces (h : Spread (token :: tokens) bytes) (hsolid : Solid token) :
    ∃ rest, skipSpaces bytes = token ++ rest ∧ Spread tokens rest := by
  obtain ⟨blanks, rest, hblanks, rfl, hrest⟩ := h
  obtain ⟨b, more, rfl, hb⟩ := hsolid
  refine ⟨rest, ?_, hrest⟩
  rw [dropWhile_blanks hblanks, List.cons_append, skipSpaces_cons hb]

theorem of_append (token : Bytes) {rest : Bytes} (h : Spread tokens rest) :
    Spread (token :: tokens) (token ++ rest) :=
  ⟨[], rest, by simp, rfl, h⟩

theorem flatten (tokens : List Bytes) : Spread tokens tokens.flatten := by
  induction tokens with
  | nil => simp [Spread]
  | cons token tokens ih => exact of_append token ih

theorem of_blank {b : UInt8} (hb : isSpace b = true) (tokens : List Bytes) :
    Spread tokens (tokens.flatMap (b :: ·) ++ [b]) := by
  induction tokens with
  | nil => simpa [Spread] using hb
  | cons token tokens ih =>
      exact ⟨[b], tokens.flatMap (b :: ·) ++ [b], by simpa using hb, by simp, ih⟩

end Spread

end WalletBridge.Json
