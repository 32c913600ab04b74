import ProtoSchema.Yaml.Property
import ProtoSchema.Yaml.ScalarText

/-!
# From a YAML text to tokens

The tokens of a text in their order. Block collections have no signs of their own at their start and
end: a sequence starts at a `-` and a mapping at a key that stands to the right of everything around
it, and both end in front of whatever stands to the left of them.

That something is a key shows only at the `:` behind it. So the place of anything that may be a key is
kept (`SimpleKey`), one for the block context and one for each open flow collection, and at a `:` the
key's token is put in there. A key stands on one line and is not long.
-/

namespace ProtoSchema.Yaml

/-- The place of something that may turn out to be a key. -/
structure SimpleKey where
  /-- How many tokens stand in front of it. -/
  tokens : Nat
  /-- Whether nothing else than a key can stand there. -/
  required : Bool
  line : Nat
  column : Nat
  index : Nat
deriving Repr

/-- How far a text has been read. -/
structure Lexer where
  cursor : Cursor
  tokens : Array Token
  /-- The column of the innermost block collection; less than zero outside of all. -/
  indent : Int
  /-- The columns of the collections around it. -/
  indents : List Int
  /-- Whether a key may start here. -/
  keyAllowed : Bool
  /-- What may be a key, in each open flow collection and last in the block context. -/
  keys : List (Option SimpleKey)
deriving Repr

namespace Lexer

def start (s : String) : Lexer := ⟨.start s, #[], -1, [], true, [none]⟩

/-- Whether the place is inside a flow collection. -/
def inFlow (l : Lexer) : Bool := 1 < l.keys.length

def push (l : Lexer) (t : Token) : Lexer := { l with tokens := l.tokens.push t }

/-- Puts a token in behind the first `n`. -/
def insert (l : Lexer) (n : Nat) (t : Token) : Lexer :=
  { l with tokens := l.tokens.insertIdxIfInBounds n t }

/-- Appends a token and goes on behind it. -/
def pushTo (l : Lexer) (t : Token) (c : Cursor) : Lexer := { l.push t with cursor := c }

def allowKey (l : Lexer) (allowed : Bool) : Lexer := { l with keyAllowed := allowed }

/-! ## Block collections -/

/-- The ends of the collections that stand to the right of the column, and what is left open. -/
def closed (column : Int) : (indent : Int) → (indents : List Int) → List Token × Int × List Int
  | indent, [] => ([], indent, [])
  | indent, outer :: rest =>
    if column < indent then
      let (ends, open') := closed column outer rest
      (.blockEnd :: ends, open')
    else ([], indent, outer :: rest)

/-- Ends the collections that stand to the right of the column. -/
def unroll (l : Lexer) (column : Int) : Lexer :=
  if l.inFlow then l
  else
    let (ends, indent, indents) := closed column l.indent l.indents
    { l with tokens := l.tokens.appendList ends, indent, indents }

/-- Starts a collection at the column, behind the first `n` tokens, unless one stands there. -/
def roll (l : Lexer) (column n : Nat) (t : Token) : Lexer :=
  if l.inFlow || column ≤ l.indent then l
  else { l.insert n t with indent := column, indents := l.indent :: l.indents }

/-! ## Keys -/

/-- Gives up what may have been a key here. -/
def dropKey (l : Lexer) : Option Lexer :=
  match l.keys with
  | some k :: rest => if k.required then none else some { l with keys := none :: rest }
  | _ => some l

/-- Keeps the place as that of a key, if one may start here. -/
def saveKey (l : Lexer) : Option Lexer :=
  if !l.keyAllowed then some l
  else do
    let l ← l.dropKey
    let c := l.cursor
    let required := !l.inFlow && l.indent = c.column
    return { l with
      keys := some ⟨l.tokens.size, required, c.line, c.column, c.index⟩ :: l.keys.drop 1 }

/-- Whether the place is too far behind to be that of a key. -/
def isStale (c : Cursor) (k : SimpleKey) : Bool := k.line < c.line || k.index + 1024 < c.index

/-- Gives up all places that are too far behind. -/
def dropStale (l : Lexer) : Option Lexer :=
  if l.keys.any (·.any fun k => isStale l.cursor k && k.required) then none
  else some { l with keys := l.keys.map (·.filter fun k => !isStale l.cursor k) }

/-! ## Tokens -/

/-- Goes to the next token, past blanks, comments and line breaks. -/
def skipSpace : (fuel : Nat) → Lexer → Lexer
  | 0, l => l
  | fuel + 1, l =>
    let c := l.cursor
    let c := if c.column = 0 ∧ c.sees '\ufeff' then c.skip 1 else c
    let tabs := l.inFlow || !l.keyAllowed
    let c := c.skipWhile fun ch => ch = ' ' || (tabs && ch = '\t')
    let c := if c.sees '#' then c.skipLine else c
    if c.seesAny isBreak then
      skipSpace fuel { l with cursor := c.readBreak.2, keyAllowed := l.keyAllowed || !l.inFlow }
    else { l with cursor := c }

/-- Reads a directive, or the start or end of a document. -/
def boundary (l : Lexer) (read : Cursor → Option (Token × Cursor)) : Option Lexer := do
  let l ← (l.unroll (-1)).dropKey
  let (t, c) ← read l.cursor
  return (l.allowKey false).pushTo t c

/-- Reads the start of a flow collection. -/
def openFlow (l : Lexer) (t : Token) : Option Lexer := do
  let l ← l.saveKey
  return ({ l with keys := none :: l.keys, keyAllowed := true }).pushTo t (l.cursor.skip 1)

/-- Reads the end of a flow collection. -/
def closeFlow (l : Lexer) (t : Token) : Option Lexer := do
  let l ← l.dropKey
  let keys := if l.inFlow then l.keys.drop 1 else l.keys
  return ({ l with keys, keyAllowed := false }).pushTo t (l.cursor.skip 1)

/-- Reads the sign between the parts of a flow collection. -/
def flowEntry (l : Lexer) : Option Lexer := do
  let l ← l.dropKey
  return (l.allowKey true).pushTo .flowEntry (l.cursor.skip 1)

/-- Starts a block collection at the cursor, if one may start there. -/
def enter (l : Lexer) (t : Token) : Option Lexer :=
  if l.inFlow then some l
  else if !l.keyAllowed then none
  else some (l.roll l.cursor.column l.tokens.size t)

/-- Reads the sign in front of an item of a block sequence. -/
def blockEntry (l : Lexer) : Option Lexer := do
  let l ← (← l.enter .blockSequenceStart).dropKey
  return (l.allowKey true).pushTo .blockEntry (l.cursor.skip 1)

/-- Reads the sign in front of a key. -/
def key (l : Lexer) : Option Lexer := do
  let l ← (← l.enter .blockMappingStart).dropKey
  return (l.allowKey !l.inFlow).pushTo .key (l.cursor.skip 1)

/-- Reads the sign in front of a value. What stands in front of it becomes a key. -/
def value (l : Lexer) : Option Lexer := do
  match l.keys with
  | some k :: rest =>
    let l := (l.insert k.tokens .key).roll k.column k.tokens .blockMappingStart
    return ({ l with keys := none :: rest, keyAllowed := false }).pushTo .value (l.cursor.skip 1)
  | _ =>
    let l ← l.enter .blockMappingStart
    return (l.allowKey !l.inFlow).pushTo .value (l.cursor.skip 1)

/-- Reads something that may be a key or the start of one. -/
def node (l : Lexer) (read : Cursor → Option (Token × Cursor)) : Option Lexer := do
  let l ← l.saveKey
  let (t, c) ← read l.cursor
  return (l.allowKey false).pushTo t c

/-- Reads an anchor or an alias. -/
def anchor (l : Lexer) (make : String → Token) : Option Lexer :=
  l.node fun c => (readAnchor (c.skip 1)).map fun (name, c) => (make name, c)

/-- Reads a quoted scalar. -/
def quoted (l : Lexer) (fuel : Nat) (single : Bool) : Option Lexer :=
  l.node fun c =>
    (readQuoted single fuel [] (c.skip 1)).map fun (text, c) =>
      (.scalar (String.ofList text) .quoted, c)

/-- Reads a plain scalar. Behind one that ends with its line, a key may start. -/
def plain (l : Lexer) (fuel : Nat) : Option Lexer := do
  let l ← l.saveKey
  let (text, crossed, c) ← readPlain l.inFlow (l.indent + 1) fuel [] .none l.cursor
  return (l.allowKey crossed).pushTo (.scalar (String.ofList text) .plain) c

/-- Reads a block scalar. -/
def block (l : Lexer) (fuel : Nat) (folded : Bool) : Option Lexer := do
  let l ← l.dropKey
  let (text, c) ← readBlock folded l.indent fuel (l.cursor.skip 1)
  let style := if folded then Style.folded else Style.literal
  return (l.allowKey true).pushTo (.scalar (String.ofList text) style) c

/-- Whether the character begins something else than a plain scalar wherever it stands. -/
def isIndicator (c : Char) : Bool :=
  isFlowIndicator c || c = '#' || c = '&' || c = '*' || c = '!' || c = '|' || c = '>' || c = '%' ||
    c = '@' || c.toNat = 0x22 || c.toNat = 0x27 || c.toNat = 0x60

/-- Whether a plain scalar may begin with the character in front of the other. -/
def startsPlain (flow : Bool) (c : Char) (next : Option Char) : Bool :=
  if c = '-' then !next.any isBlank
  else if c = '?' ∨ c = ':' then !flow && !endsWord next
  else !(isBlank c || isBreak c || isIndicator c)

/-- Reads the token at the cursor, which begins with the character. -/
def token (l : Lexer) (fuel : Nat) (ch : Char) : Option Lexer :=
  let c := l.cursor
  let next := c.ahead? 1
  if c.column = 0 ∧ ch = '%' then l.boundary readDirective
  else if c.seesMark '-' then l.boundary fun c => some (.documentStart, c.skip 3)
  else if c.seesMark '.' then l.boundary fun c => some (.documentEnd, c.skip 3)
  else if ch = '[' then l.openFlow .flowSequenceStart
  else if ch = '\x7b' then l.openFlow .flowMappingStart
  else if ch = ']' then l.closeFlow .flowSequenceEnd
  else if ch = '\x7d' then l.closeFlow .flowMappingEnd
  else if ch = ',' then l.flowEntry
  else if ch = '-' && endsWord next then l.blockEntry
  else if ch = '?' && (l.inFlow || endsWord next) then l.key
  else if ch = ':' && (l.inFlow || endsWord next) then l.value
  else if ch = '*' then l.anchor .reference
  else if ch = '&' then l.anchor .anchor
  else if ch = '!' then l.node (readTag l.inFlow)
  else if ch = '|' && !l.inFlow then l.block fuel false
  else if ch = '>' && !l.inFlow then l.block fuel true
  else if ch.toNat = 0x27 then l.quoted fuel true
  else if ch.toNat = 0x22 then l.quoted fuel false
  else if startsPlain l.inFlow ch next then l.plain fuel
  else none

/-- Reads to the end of the text. The fuel is more than the number of characters that are left, here
and in the readers of single tokens. -/
def finish : (fuel : Nat) → Lexer → Option (List Token)
  | 0, _ => none
  | fuel + 1, l => do
    let l ← (skipSpace (fuel + 1) l).dropStale
    let l := l.unroll l.cursor.column
    match l.cursor.head? with
    | some ch => finish fuel (← l.token (fuel + 1) ch)
    | none => return (← (l.unroll (-1)).dropKey).tokens.toList

end Lexer

/-- The tokens of a text. -/
def tokens? (s : String) : Option (List Token) :=
  if s.toList.all isAllowed then (Lexer.start s).finish (s.length + 1) else none

end ProtoSchema.Yaml
