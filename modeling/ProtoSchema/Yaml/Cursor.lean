/-!
# Characters and places of a YAML text

A cursor is what is left of a text with the place it has reached: lines and columns decide what is
nested in what. Line breaks are the line feed, the return (alone or before a line feed), the next-line
character and the line and paragraph separators; all but the last two read as a line feed.
-/

namespace ProtoSchema.Yaml

/-- Whether the character ends a line. -/
def isBreak (c : Char) : Bool :=
  c = '\n' || c = '\x0d' || c = '\x85' || c = '\u2028' || c = '\u2029'

/-- Whether the character is a space or a tab. -/
def isBlank (c : Char) : Bool := c = ' ' || c = '\t'

/-- Whether a word ends in front of this: a blank, a line break or the end of the text. -/
def endsWord : Option Char → Bool
  | none => true
  | some c => isBlank c || isBreak c

/-- Whether the character may stand in the name of an anchor. -/
def isWord (c : Char) : Bool := c.isAlphanum || c = '-' || c = '_'

/-- Whether a YAML text may hold the character. -/
def isAllowed (c : Char) : Bool :=
  let n := c.toNat
  n = 0x9 || n = 0xA || n = 0xD || (0x20 ≤ n && n ≤ 0x7E) || n = 0x85 ||
  (0xA0 ≤ n && n ≤ 0xFFFD) || 0x10000 ≤ n

/-- A place in a text. -/
structure Cursor where
  /-- What is left of the text. -/
  rest : List Char
  line : Nat
  column : Nat
  /-- How many bytes stand in front. -/
  index : Nat
deriving Repr

namespace Cursor

/-- The start of a text. -/
def start (s : String) : Cursor := ⟨s.toList, 0, 0, 0⟩

/-- The character at the place. -/
def head? (c : Cursor) : Option Char := c.rest.head?

/-- The character some way ahead. -/
def ahead? (c : Cursor) (n : Nat) : Option Char := c.rest[n]?

/-- Whether the character at the place is the given one. -/
def sees (c : Cursor) (ch : Char) : Bool := c.head? = some ch

/-- Whether the character at the place satisfies the condition. -/
def seesAny (c : Cursor) (p : Char → Bool) : Bool := c.head?.any p

/-- How many bytes the characters have in UTF-8. -/
def byteCount (cs : List Char) : Nat := cs.foldl (fun n ch => n + ch.utf8Size) 0

/-- The place some characters further on the same line. -/
def skip (c : Cursor) (n : Nat) : Cursor :=
  { c with
    rest := c.rest.drop n
    column := c.column + n
    index := c.index + byteCount (c.rest.take n) }

/-- The characters up to the first that does not satisfy the condition, none of which ends a line. -/
def run (c : Cursor) (p : Char → Bool) : List Char := c.rest.takeWhile p

/-- The place behind such characters. -/
def skipWhile (c : Cursor) (p : Char → Bool) : Cursor := c.skip (c.run p).length

/-- The place behind everything on the line. -/
def skipLine (c : Cursor) : Cursor := c.skipWhile fun ch => !isBreak ch

/-- A line break as it is read, and the start of the next line. -/
def readBreak (c : Cursor) : List Char × Cursor :=
  match c.rest with
  | '\x0d' :: '\n' :: rest => (['\n'], ⟨rest, c.line + 1, 0, c.index + 2⟩)
  | ch :: rest =>
    let next : Cursor := ⟨rest, c.line + 1, 0, c.index + ch.utf8Size⟩
    if ch = '\u2028' ∨ ch = '\u2029' then ([ch], next)
    else if isBreak ch then (['\n'], next)
    else ([], c)
  | [] => ([], c)

/-- Whether the sign, three times, stands at the start of the line as a word of its own. -/
def seesMark (c : Cursor) (sign : Char) : Bool :=
  c.column = 0 && c.rest.take 3 = [sign, sign, sign] && endsWord (c.ahead? 3)

/-- Whether a document starts or ends here. -/
def seesDocumentMark (c : Cursor) : Bool := c.seesMark '-' || c.seesMark '.'

end Cursor

end ProtoSchema.Yaml
