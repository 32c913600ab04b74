import ProtoSchema.Numeral
import ProtoSchema.Yaml.Cursor

/-!
# Scalars of a YAML text

The text that a plain, a quoted or a block scalar stands for. Where a plain or quoted scalar goes over
several lines, a single line break reads as a space, and of several the first is left out (`Gap.fold`).

The readers take as fuel more than the number of characters that are left; each round uses at least
one.
-/

namespace ProtoSchema.Yaml

/-! ## White space inside a scalar -/

/-- White space between two runs of a scalar. -/
structure Gap where
  /-- Whether it goes over the end of a line. -/
  crossed : Bool
  /-- Whether the first line break is escaped and does not count. -/
  escaped : Bool
  blanks : List Char
  breaks : List Char
deriving Repr

namespace Gap

def none : Gap := ⟨false, false, [], []⟩

/-- White space that begins with an escaped line break. -/
def escapedBreak : Gap := ⟨true, true, [], []⟩

/-- The characters that it stands for. -/
def fold (g : Gap) : List Char :=
  if !g.crossed then g.blanks
  else if g.escaped then g.breaks
  else
    match g.breaks with
    | ['\n'] => [' ']
    | '\n' :: more => more
    | breaks => breaks

/-- Reads on through white space. A tab left of the column `least` on a new line is refused. -/
def read (least : Int) : (fuel : Nat) → Gap → Cursor → Option (Gap × Cursor)
  | 0, g, c => some (g, c)
  | fuel + 1, g, c =>
    match c.head? with
    | some ch =>
      if isBlank ch then
        if !g.crossed then read least fuel { g with blanks := g.blanks ++ [ch] } (c.skip 1)
        else if ch = '\t' ∧ (c.column : Int) < least then Option.none
        else read least fuel g (c.skip 1)
      else if isBreak ch then
        let (b, next) := c.readBreak
        read least fuel { g with crossed := true, blanks := [], breaks := g.breaks ++ b } next
      else some (g, c)
    | Option.none => some (g, c)

end Gap

/-! ## Plain scalars -/

/-- Whether the character has a meaning inside flow collections. -/
def isFlowIndicator (c : Char) : Bool :=
  c = ',' || c = '[' || c = ']' || c = '\x7b' || c = '\x7d'

/-- The characters of a plain scalar up to white space or to what ends it. -/
def plainRun (flow : Bool) : List Char → Option (List Char)
  | [] => some []
  | c :: rest =>
    if isBlank c || isBreak c then some []
    else if flow && c = ':' && rest.head?.any (fun d => isFlowIndicator d || d = '?') then none
    else if c = ':' && endsWord rest.head? then some []
    else if flow && isFlowIndicator c then some []
    else (plainRun flow rest).map (c :: ·)

/-- Reads a plain scalar; `gap` stands in front of the cursor. Also says whether the white space behind
the scalar goes over the end of a line. -/
def readPlain (flow : Bool) (least : Int) :
    (fuel : Nat) → (text : List Char) → Gap → Cursor → Option (List Char × Bool × Cursor)
  | 0, _, _, _ => none
  | fuel + 1, text, gap, c =>
    if c.seesDocumentMark || c.sees '#' then some (text, gap.crossed, c)
    else do
      let run ← plainRun flow c.rest
      if run = [] then return (text, gap.crossed, c)
      let text := text ++ gap.fold ++ run
      let stop := c.skip run.length
      let (gap, next) ← Gap.read least fuel .none stop
      if next.index = stop.index || (!flow && (next.column : Int) < least) then
        return (text, gap.crossed, next)
      readPlain flow least fuel text gap next

/-! ## Quoted scalars -/

/-- The character that a sign behind a backslash stands for. -/
def escapedSign? : Char → Option Char
  | '0' => some '\x00'
  | 'a' => some '\x07'
  | 'b' => some '\x08'
  | 't' => some '\t'
  | '\t' => some '\t'
  | 'n' => some '\n'
  | 'v' => some '\x0b'
  | 'f' => some '\x0c'
  | 'r' => some '\x0d'
  | 'e' => some '\x1b'
  | ' ' => some ' '
  | '/' => some '/'
  | '\\' => some '\\'
  | 'N' => some '\x85'
  | '_' => some '\xa0'
  | 'L' => some '\u2028'
  | 'P' => some '\u2029'
  | c => if c.toNat = 0x22 then some c else none

/-- How many hexadecimal digits follow the sign behind a backslash. -/
def escapedDigits? : Char → Option Nat
  | 'x' => some 2
  | 'u' => some 4
  | 'U' => some 8
  | _ => none

/-- The character with the number, if there is one. -/
def ofCodePoint? (n : Nat) : Option Char := if n.isValidChar then some (Char.ofNat n) else none

/-- Reads what follows a backslash: the character, and how many characters it took. -/
def escape? : List Char → Option (Char × Nat)
  | [] => none
  | sign :: rest =>
    match escapedSign? sign, escapedDigits? sign with
    | some c, _ => some (c, 1)
    | none, some count => do
      let digits := rest.take count
      if digits.length < count then none
      let n ← Numeral.natural? 16 digits
      return (← ofCodePoint? n, count + 1)
    | none, none => none

/-- The double quote, and the single one. -/
def quoteSign (single : Bool) : Char := Char.ofNat (if single then 0x27 else 0x22)

/-- Reads the characters of a quoted scalar up to white space, the quote or an escaped line break, and
says whether it was the last. -/
def quotedRun (single : Bool) : (fuel : Nat) → Cursor → Option (List Char × Bool × Cursor)
  | 0, c => some ([], false, c)
  | fuel + 1, c =>
    let goOn (ch : Char) (n : Nat) : Option (List Char × Bool × Cursor) := do
      let (run, escaped, next) ← quotedRun single fuel (c.skip n)
      return (ch :: run, escaped, next)
    match c.rest with
    | [] => some ([], false, c)
    | ch :: rest =>
      if isBlank ch || isBreak ch then some ([], false, c)
      else if single && ch = quoteSign true && rest.head? = some (quoteSign true) then goOn ch 2
      else if ch = quoteSign single then some ([], false, c)
      else if !single && ch = '\\' then
        if rest.head?.any isBreak then some ([], true, (c.skip 1).readBreak.2)
        else
          match escape? rest with
          | some (d, n) => goOn d (n + 1)
          | none => none
      else goOn ch 1

/-- Reads a quoted scalar behind its first quote. -/
def readQuoted (single : Bool) :
    (fuel : Nat) → (text : List Char) → Cursor → Option (List Char × Cursor)
  | 0, _, _ => none
  | fuel + 1, text, c =>
    if c.seesDocumentMark || c.rest = [] then none
    else do
      let (run, escaped, next) ← quotedRun single fuel c
      let text := text ++ run
      if next.sees (quoteSign single) then return (text, next.skip 1)
      let start := if escaped then Gap.escapedBreak else Gap.none
      let (gap, next) ← Gap.read 0 fuel start next
      readQuoted single fuel (text ++ gap.fold) next

/-! ## Block scalars -/

/-- What becomes of the line breaks at the end of a block scalar. -/
inductive Chomping
  | strip
  | clip
  | keep
deriving DecidableEq, Repr

/-- The chomping that the sign asks for. -/
def Chomping.ofSign? : Option Char → Option Chomping
  | some '-' => some strip
  | some '+' => some keep
  | _ => none

/-- The step of indentation that the digit asks for; zero is refused. -/
def stepOf (c : Char) : Option Nat :=
  let n := Numeral.digitValue c
  if n = 0 then none else some n

/-- Reads the signs behind the indicator of a block scalar, in either order. -/
def blockHeader (c : Cursor) : Option (Chomping × Option Nat × Cursor) :=
  let isDigit (ch : Char) : Bool := Numeral.isDigit 10 ch
  match Chomping.ofSign? c.head? with
  | some chomping =>
    let c := c.skip 1
    match c.head?.filter isDigit with
    | some d => (stepOf d).map fun n => (chomping, some n, c.skip 1)
    | none => some (chomping, none, c)
  | none =>
    match c.head?.filter isDigit with
    | some d =>
      (stepOf d).map fun n =>
        let c := c.skip 1
        match Chomping.ofSign? c.head? with
        | some chomping => (chomping, some n, c.skip 1)
        | none => (.clip, some n, c)
    | none => some (.clip, none, c)

/-- Reads indentation and empty lines of a block scalar, indented by `indent` if that is known yet;
`widest` is the largest column met. -/
def blockBreaks (indent : Option Nat) :
    (fuel : Nat) → (breaks : List Char) → (widest : Nat) → Cursor →
      Option (List Char × Nat × Cursor)
  | 0, breaks, widest, c => some (breaks, widest, c)
  | fuel + 1, breaks, widest, c =>
    let spaces := (c.run (· = ' ')).length
    let c := c.skip <| match indent with
      | some n => min spaces (n - c.column)
      | none => spaces
    let widest := max widest c.column
    if c.sees '\t' && indent.all (c.column < ·) then none
    else if c.seesAny isBreak then
      let (b, next) := c.readBreak
      blockBreaks indent fuel (breaks ++ b) widest next
    else some (breaks, widest, c)

/-- The parts of a block scalar that wait to be joined to its text. -/
structure BlockEnd where
  /-- The line break behind the last line. -/
  last : List Char
  /-- The line breaks of the empty lines behind it. -/
  empty : List Char
  /-- Whether the last line begins with a blank. -/
  blank : Bool
deriving Repr

/-- Reads the lines of a block scalar that are indented by `indent`. -/
def blockLines (folded : Bool) (indent : Nat) :
    (fuel : Nat) → (text : List Char) → BlockEnd → Cursor →
      Option (List Char × BlockEnd × Cursor)
  | 0, text, e, c => some (text, e, c)
  | fuel + 1, text, e, c =>
    if c.column = indent ∧ c.rest ≠ [] then do
      let blank := c.seesAny isBlank
      let joint :=
        if folded && e.last = ['\n'] && !e.blank && !blank then
          if e.empty = [] then [' '] else []
        else e.last
      let line := c.run fun ch => !isBreak ch
      let (last, next) := (c.skip line.length).readBreak
      let (empty, _, next) ← blockBreaks (some indent) (fuel + 1) [] 0 next
      blockLines folded indent fuel (text ++ joint ++ e.empty ++ line) ⟨last, empty, blank⟩ next
    else some (text, e, c)

/-- Reads a block scalar behind its indicator; `parent` is the indentation around it. -/
def readBlock (folded : Bool) (parent : Int) (fuel : Nat) (c : Cursor) :
    Option (List Char × Cursor) := do
  let (chomping, step?, c) ← blockHeader c
  let c := c.skipWhile isBlank
  let c := if c.sees '#' then c.skipLine else c
  if !(c.rest = [] || c.seesAny isBreak) then none
  let c := c.readBreak.2
  let known := step?.map fun n => (max parent 0).toNat + n
  let (empty, widest, c) ← blockBreaks known fuel [] 0 c
  let indent := known.getD (max widest (max (parent + 1) 1).toNat)
  let (text, e, c) ← blockLines folded indent fuel [] ⟨[], empty, false⟩ c
  let last := if chomping = .strip then [] else e.last
  let more := if chomping = .keep then e.empty else []
  return (text ++ last ++ more, c)

end ProtoSchema.Yaml
