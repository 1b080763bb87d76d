/-
  Bytes and the text they spell. `decodeUtf8_encodeUtf8`: text comes back from its own bytes. A byte
  position in a text counts bytes of UTF-8; where it lies inside a character, or behind the end, a
  text has no part.
-/

namespace MidiCi

/-- The bytes of a property body. -/
abbrev Bytes := List UInt8

namespace Text

/-- The UTF-8 bytes of a text. -/
def encodeUtf8 (s : String) : Bytes :=
  s.toByteArray.data.toList

/-- The text that bytes spell, if they are valid UTF-8. -/
def decodeUtf8 (bytes : Bytes) : Option String :=
  String.fromUTF8? ⟨bytes.toArray⟩

theorem decodeUtf8_encodeUtf8 (s : String) : decodeUtf8 (encodeUtf8 s) = some s := by
  have h : (⟨(s.toByteArray.data.toList).toArray⟩ : ByteArray) = s.toByteArray := by
    cases s.toByteArray; simp
  simp only [decodeUtf8, encodeUtf8, h, String.fromUTF8?, dif_pos s.isValidUTF8]
  rfl

/-! ## Byte positions -/

/-- How many bytes a text takes. -/
def byteLength : List Char → Nat
  | [] => 0
  | c :: cs => c.utf8Size + byteLength cs

/-- The text before a byte position and the text behind it, if no character lies across it. -/
def splitAtByte? : Nat → List Char → Option (List Char × List Char)
  | 0, cs => some ([], cs)
  | _ + 1, [] => none
  | n + 1, c :: cs =>
    if c.utf8Size ≤ n + 1 then
      (splitAtByte? (n + 1 - c.utf8Size) cs).map fun (before, behind) => (c :: before, behind)
    else none

/-- The text from one byte position to another. -/
def slice? (cs : List Char) (start stop : Nat) : Option (List Char) :=
  if start ≤ stop then
    (splitAtByte? start cs).bind fun (_, behind) =>
      (splitAtByte? (stop - start) behind).map fun (part, _) => part
  else none

end Text

end MidiCi
