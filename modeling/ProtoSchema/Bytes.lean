/-!
# Byte strings

Byte strings are lists, so that every reader is a recursion on what is left of its input. Text and
bytes meet in UTF-8: `utf8` writes a text, `text?` reads one and refuses whatever is not UTF-8.
-/

namespace ProtoSchema

/-- A string of bytes. -/
abbrev Bytes := List UInt8

/-- The UTF-8 form of a text. -/
def utf8 (s : String) : Bytes := s.toUTF8.data.toList

/-- The text whose UTF-8 form the bytes are, if there is one. -/
def text? (bs : Bytes) : Option String := String.fromUTF8? ⟨bs.toArray⟩

/-- Reading back what was written gives the text. -/
theorem text?_utf8 (s : String) : text? (utf8 s) = some s := by
  cases s with
  | ofByteArray b h => simp [text?, utf8, String.fromUTF8?, String.fromUTF8, h]

end ProtoSchema
