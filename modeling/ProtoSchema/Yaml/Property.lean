import ProtoSchema.Bytes
import ProtoSchema.Numeral
import ProtoSchema.Yaml.Cursor
import ProtoSchema.Yaml.Token

/-!
# Anchors, tags and directives

The parts of a YAML text that say something about nodes or documents.
-/

namespace ProtoSchema.Yaml

/-! ## Anchors -/

/-- Whether the name of an anchor may end in front of this. -/
def endsAnchor : Option Char → Bool
  | none => true
  | some c =>
    isBlank c || isBreak c || c = '?' || c = ':' || c = ',' || c = ']' || c = '\x7d' || c = '%' ||
      c = '@' || c.toNat = 0x60

/-- Reads the name of an anchor or an alias behind its sign. -/
def readAnchor (c : Cursor) : Option (String × Cursor) :=
  let name := c.run isWord
  let next := c.skip name.length
  if name = [] ∨ !endsAnchor next.head? then none else some (String.ofList name, next)

/-! ## Tags -/

/-- Whether the character may stand in a tag; some only between angle brackets. -/
def isTagChar (bracketed : Bool) (c : Char) : Bool :=
  isWord c || c = ';' || c = '/' || c = '?' || c = ':' || c = '@' || c = '&' || c = '=' || c = '+' ||
    c = '$' || c = '.' || c = '%' || c = '!' || c = '~' || c = '*' || c.toNat = 0x27 || c = '(' ||
    c = ')' || (bracketed && (c = ',' || c = '[' || c = ']'))

/-- The bytes that begin the text in hexadecimal, each behind a percent sign. -/
def percentBytes : List Char → Option Bytes
  | [] => some []
  | '%' :: a :: b :: rest => do
    let n ← Numeral.natural? 16 [a, b]
    return UInt8.ofNat n :: (← percentBytes rest)
  | _ => none

/-- How many bytes the UTF-8 form has that begins with the byte. -/
def widthOf (b : UInt8) : Nat :=
  if b < 0x80 then 1 else if b < 0xC0 then 0 else if b < 0xE0 then 2 else if b < 0xF0 then 3
  else if b < 0xF8 then 4 else 0

/-- Whether the byte may follow the first one of a UTF-8 form. -/
def isContinuation (b : UInt8) : Bool := 0x80 ≤ b && b < 0xC0

/-- Reads bytes that are written in hexadecimal, as many as the first of them announces. That they are
the UTF-8 form of a character is not asked. -/
def percentRun (cs : List Char) : Option Bytes := do
  let first ← (← percentBytes (cs.take 3)).head?
  let width := widthOf first
  if width = 0 then none
  let bs ← percentBytes (cs.take (3 * width))
  if bs.length = width ∧ bs.tail.all isContinuation then some bs else none

/-- Reads the bytes of a tag. -/
def readTagBytes (bracketed : Bool) :
    (fuel : Nat) → (read : Bytes) → Cursor → Option (Bytes × Cursor)
  | 0, _, _ => none
  | fuel + 1, read, c =>
    match c.head? with
    | none => some (read, c)
    | some ch =>
      if !isTagChar bracketed ch then some (read, c)
      else if ch = '%' then do
        let bs ← percentRun c.rest
        readTagBytes bracketed fuel (read ++ bs) (c.skip (3 * bs.length))
      else readTagBytes bracketed fuel (read ++ [UInt8.ofNat ch.toNat]) (c.skip 1)

/-- What counts of the bytes of a tag: those in front of the first that is zero. -/
def upToZero (bs : Bytes) : Bytes := bs.takeWhile (· ≠ 0)

/-- Reads the bytes of a tag, at least one. -/
def readTagPart (bracketed : Bool) (c : Cursor) : Option (Bytes × Cursor) := do
  let (bs, next) ← readTagBytes bracketed (c.rest.length + 1) [] c
  if bs = [] then none
  return (upToZero bs, next)

/-- Reads a tag: its handle and what follows it. Without a handle the sign is one, and a sign alone is
the whole tag. -/
def readTag (flow : Bool) (c : Cursor) : Option (Token × Cursor) := do
  let (handle, suffix, next) ←
    if c.ahead? 1 = some '<' then do
      let (suffix, next) ← readTagPart true (c.skip 2)
      if !next.sees '>' then none
      pure ("", suffix, next.skip 1)
    else do
      let name := (c.skip 1).run isWord
      let next := c.skip (1 + name.length)
      if next.sees '!' then do
        let (suffix, next) ← readTagPart false (next.skip 1)
        pure (String.ofList ('!' :: name ++ ['!']), suffix, next)
      else do
        let (bs, next) ←
          readTagBytes false (next.rest.length + 1) (utf8 (String.ofList name)) next
        let suffix := upToZero bs
        if suffix = [] then pure ("", utf8 "!", next) else pure ("!", suffix, next)
  if endsWord next.head? || (flow && next.sees ',') then return (.tag handle suffix, next) else none

/-! ## Directives -/

/-- Reads a number of at most nine digits. -/
def readVersionPart (c : Cursor) : Option (Nat × Cursor) :=
  let digits := c.run (Numeral.isDigit 10)
  if digits = [] ∨ 9 < digits.length then none
  else some (Numeral.value 10 digits, c.skip digits.length)

/-- Reads what follows the name of a version directive. -/
def readVersion (c : Cursor) : Option (Token × Cursor) := do
  let (major, c) ← readVersionPart (c.skipWhile isBlank)
  if !c.sees '.' then none
  let (minor, c) ← readVersionPart (c.skip 1)
  return (.version major minor, c)

/-- Reads what follows the name of a tag directive. -/
def readTagHandle (c : Cursor) : Option (Token × Cursor) := do
  let c := c.skipWhile isBlank
  if !c.sees '!' then none
  let name := (c.skip 1).run isWord
  let next := c.skip (1 + name.length)
  let (handle, next) ←
    if next.sees '!' then some ('!' :: name ++ ['!'], next.skip 1)
    else if name = [] then some (['!'], next)
    else none
  if !next.seesAny isBlank then none
  let (meaning, next) ← readTagPart true (next.skipWhile isBlank)
  if !endsWord next.head? then none
  return (.tagHandle (String.ofList handle) meaning, next)

/-- Reads a directive to the end of its line. -/
def readDirective (c : Cursor) : Option (Token × Cursor) := do
  let name := (c.skip 1).run isWord
  let next := c.skip (1 + name.length)
  if !endsWord next.head? then none
  let (t, next) ←
    if name = "YAML".toList then readVersion next
    else if name = "TAG".toList then readTagHandle next
    else none
  let next := next.skipWhile isBlank
  let next := if next.sees '#' then next.skipLine else next
  if next.rest = [] || next.seesAny isBreak then return (t, next.readBreak.2) else none

end ProtoSchema.Yaml
