/-!
# Text as bytes

Every message and file of the bridge is a list of bytes; a `String` appears only where those
bytes were valid UTF-8. The main statement is `ofUtf8?_utf8`: reading back the bytes of a text
gives that text.
-/

namespace WalletBridge

abbrev Bytes := List UInt8

namespace Text

def utf8 (s : String) : Bytes := s.toByteArray.data.toList

def ofUtf8? (bytes : Bytes) : Option String := String.fromUTF8? ⟨bytes.toArray⟩

theorem fromUTF8?_toByteArray (s : String) : String.fromUTF8? s.toByteArray = some s := by
  simp only [String.fromUTF8?, dif_pos s.isValidUTF8]
  rfl

theorem ofUtf8?_utf8 (s : String) : ofUtf8? (utf8 s) = some s := by
  have h : (⟨(utf8 s).toArray⟩ : ByteArray) = s.toByteArray := by simp [utf8]
  rw [ofUtf8?, h, fromUTF8?_toByteArray]

def isTail (b : UInt8) : Bool := 0x80 ≤ b && b ≤ 0xBF

/-- The bytes allowed second after a lead byte; `none` for a byte that leads nothing longer. -/
def secondRange (lead : UInt8) : Option (UInt8 × UInt8) :=
  if 0xC2 ≤ lead && lead ≤ 0xDF then some (0x80, 0xBF)
  else if lead == 0xE0 then some (0xA0, 0xBF)
  else if lead == 0xED then some (0x80, 0x9F)
  else if 0xE1 ≤ lead && lead ≤ 0xEF then some (0x80, 0xBF)
  else if lead == 0xF0 then some (0x90, 0xBF)
  else if 0xF1 ≤ lead && lead ≤ 0xF3 then some (0x80, 0xBF)
  else if lead == 0xF4 then some (0x80, 0x8F)
  else none

def tailBits (b : UInt8) : Nat := b.toNat % 64

/-- What stands at the head of a byte sequence: the first character, or the replacement character
for the longest beginning that no character continues, and the bytes after it. -/
def lossyStep (lead : UInt8) (rest : Bytes) : Char × Bytes :=
  if lead < 0x80 then (Char.ofNat lead.toNat, rest)
  else match secondRange lead, rest with
    | some (low, high), b :: more =>
      if !(low ≤ b && b ≤ high) then ('\uFFFD', rest)
      else if lead < 0xE0 then (Char.ofNat (lead.toNat % 32 * 64 + tailBits b), more)
      else match more with
        | [] => ('\uFFFD', more)
        | c :: more' =>
          if !isTail c then ('\uFFFD', more)
          else if lead < 0xF0 then
            (Char.ofNat ((lead.toNat % 16 * 64 + tailBits b) * 64 + tailBits c), more')
          else match more' with
            | [] => ('\uFFFD', more')
            | d :: more'' =>
              if !isTail d then ('\uFFFD', more')
              else (Char.ofNat (((lead.toNat % 8 * 64 + tailBits b) * 64 + tailBits c) * 64
                + tailBits d), more'')
    | _, _ => ('\uFFFD', rest)

/-- Decodes at most `fuel` characters. -/
def lossyChars : Nat → Bytes → List Char → List Char
  | 0, _, read => read.reverse
  | _, [], read => read.reverse
  | fuel + 1, lead :: rest, read =>
    let step := lossyStep lead rest
    lossyChars fuel step.2 (step.1 :: read)

/-- The text of any bytes: what is not UTF-8 reads as U+FFFD. -/
def ofUtf8Lossy (bytes : Bytes) : String := String.ofList (lossyChars bytes.length bytes [])

end Text

end WalletBridge
