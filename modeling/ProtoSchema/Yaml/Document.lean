import ProtoSchema.Yaml.Lexer
import ProtoSchema.Yaml.Node

/-!
# From tokens to the node of a document

A text holds one document, and a document one node. What is left out (a value behind its key, an item
behind its sign, the node of an empty text) is the blank node.

An anchor gets the number of names that were in use in front of it, and stands for its node from its
own start on. A name that is used again means the later node.
-/

namespace ProtoSchema.Yaml

/-- How far the tokens have been read. -/
structure Progress where
  rest : List Token
  /-- The names of anchors in use, each with its number. -/
  anchors : List (String × Nat)

/-- Reads from the tokens, or refuses them. -/
abbrev TokenReader := StateT Progress Option

namespace TokenReader

/-- The token that comes next. -/
def peek : TokenReader (Option Token) := return (← get).rest.head?

/-- Whether the token that comes next satisfies the condition. -/
def sees (p : Token → Bool) : TokenReader Bool := return (← peek).any p

/-- Goes past a token. -/
def skip : TokenReader Unit := modify fun s => { s with rest := s.rest.drop 1 }

/-- Reads a token. -/
def next : TokenReader Token := do
  match ← peek with
  | some t => skip; return t
  | none => failure

/-- Reads the token that comes next if it is the given one. -/
def accept (t : Token) : TokenReader Bool := do
  if ← sees (· = t) then skip; return true
  else return false

/-- Reads the given token. -/
def expect (t : Token) : TokenReader Unit := do
  if ← accept t then return () else failure

/-! ## Properties -/

/-- Takes a name for an anchor into use. -/
def declare (name : String) : TokenReader Nat := do
  let s ← get
  let anchor := s.anchors.length
  set { s with anchors := (name, anchor) :: s.anchors.filter (·.1 ≠ name) }
  return anchor

/-- The number of an anchor in use. -/
def anchor (name : String) : TokenReader Nat := do
  match (← get).anchors.lookup name with
  | some n => return n
  | none => failure

/-- The handles of tags that need no declaration. -/
def knownHandles : List (String × Bytes) := [("!", utf8 "!"), ("!!", utf8 "tag:yaml.org,2002:")]

/-- A tag with what its handle stands for. -/
def resolve (handles : List (String × Bytes)) (handle : String) (suffix : Bytes) :
    TokenReader Bytes :=
  if handle = "" then return suffix
  else
    match (handles ++ knownHandles).lookup handle with
    | some meaning => return meaning ++ suffix
    | none => failure

/-- Reads an anchor. -/
def anchor? : TokenReader (Option Nat) := do
  match ← peek with
  | some (.anchor name) => skip; return some (← declare name)
  | _ => return none

/-- Reads a tag. -/
def tag? (handles : List (String × Bytes)) : TokenReader (Option Bytes) := do
  match ← peek with
  | some (.tag handle suffix) => skip; return some (← resolve handles handle suffix)
  | _ => return none

/-- Reads an anchor and a tag, in either order; each may be missing. -/
def properties (handles : List (String × Bytes)) : TokenReader Properties := do
  match ← anchor? with
  | some n => return ⟨some n, ← tag? handles⟩
  | none =>
    let t ← tag? handles
    return ⟨← anchor?, t⟩

/-! ## Nodes -/

/-- Where a node stands. -/
inductive Place
  /-- Inside a flow collection: nothing in block style can stand here. -/
  | flow
  | block
  /-- A key or value of a block mapping: a sequence may stand here without being indented. -/
  | entry
deriving DecidableEq, Repr

/-- Reads a node that is left out in front of the given tokens. -/
def blankBefore (stops : List Token) (read : TokenReader Node) : TokenReader Node := do
  if ← sees (stops.contains ·) then return .blank else read

mutual

/-- Reads a node. -/
def node (handles : List (String × Bytes)) : (fuel : Nat) → Place → TokenReader Node
  | 0, _ => failure
  | fuel + 1, place => do
    if let some (.reference name) ← peek then
      skip
      return .reference (← anchor name)
    let p ← properties handles
    let block := place ≠ .flow
    match ← peek with
    | some (.scalar text style) =>
      skip
      return .scalar p text style
    | some .flowSequenceStart =>
      skip
      return .sequence p (← flowItems handles fuel true)
    | some .flowMappingStart =>
      skip
      return .mapping p (← flowEntries handles fuel true)
    | some .blockSequenceStart =>
      if block then
        skip
        return .sequence p (← blockItems handles fuel)
      else blankNode p
    | some .blockMappingStart =>
      if block then
        skip
        return .mapping p (← blockEntries handles fuel)
      else blankNode p
    | some .blockEntry =>
      if place = .entry then return .sequence p (← indentlessItems handles fuel) else blankNode p
    | _ => blankNode p
where
  /-- What has properties only is blank. -/
  blankNode (p : Properties) : TokenReader Node :=
    if p.anchor?.isSome || p.tag?.isSome then return .scalar p "" .plain else failure

/-- Reads the items of a block sequence. -/
def blockItems (handles : List (String × Bytes)) : (fuel : Nat) → TokenReader (List Node)
  | 0 => failure
  | fuel + 1 => do
    match ← next with
    | .blockEnd => return []
    | .blockEntry =>
      let item ← blankBefore [.blockEntry, .blockEnd] (node handles fuel .block)
      return item :: (← blockItems handles fuel)
    | _ => failure

/-- Reads the items of a sequence that is not indented. -/
def indentlessItems (handles : List (String × Bytes)) : (fuel : Nat) → TokenReader (List Node)
  | 0 => failure
  | fuel + 1 => do
    if ← accept .blockEntry then
      let item ← blankBefore [.blockEntry, .key, .value, .blockEnd] (node handles fuel .block)
      return item :: (← indentlessItems handles fuel)
    else return []

/-- Reads the entries of a block mapping. -/
def blockEntries (handles : List (String × Bytes)) : (fuel : Nat) → TokenReader (List (Node × Node))
  | 0 => failure
  | fuel + 1 => do
    match ← next with
    | .blockEnd => return []
    | .key =>
      let key ← blankBefore [.key, .value, .blockEnd] (node handles fuel .entry)
      let value ←
        if ← accept .value then blankBefore [.key, .value, .blockEnd] (node handles fuel .entry)
        else pure .blank
      return (key, value) :: (← blockEntries handles fuel)
    | _ => failure

/-- Reads the items of a flow sequence. Each but the first follows a sign. -/
def flowItems (handles : List (String × Bytes)) :
    (fuel : Nat) → (first : Bool) → TokenReader (List Node)
  | 0, _ => failure
  | fuel + 1, first => do
    if ← accept .flowSequenceEnd then return []
    if !first then
      expect .flowEntry
      if ← accept .flowSequenceEnd then return []
    let item ←
      if ← accept .key then pure (.mapping ⟨none, none⟩ [← flowPair handles fuel])
      else node handles fuel .flow
    return item :: (← flowItems handles fuel false)

/-- Reads the one entry of a mapping that is an item of a flow sequence. Where the key is left out,
what stands in its place is passed over. -/
def flowPair (handles : List (String × Bytes)) : (fuel : Nat) → TokenReader (Node × Node)
  | 0 => failure
  | fuel + 1 => do
    let key ←
      if ← sees ([.value, .flowEntry, .flowSequenceEnd].contains ·) then
        skip
        pure .blank
      else node handles fuel .flow
    let value ←
      if ← accept .value then blankBefore [.flowEntry, .flowSequenceEnd] (node handles fuel .flow)
      else pure .blank
    return (key, value)

/-- Reads the entries of a flow mapping. Each but the first follows a sign. -/
def flowEntries (handles : List (String × Bytes)) :
    (fuel : Nat) → (first : Bool) → TokenReader (List (Node × Node))
  | 0, _ => failure
  | fuel + 1, first => do
    if ← accept .flowMappingEnd then return []
    if !first then
      expect .flowEntry
      if ← accept .flowMappingEnd then return []
    let entry ←
      if ← accept .key then do
        let key ← blankBefore [.value, .flowEntry, .flowMappingEnd] (node handles fuel .flow)
        let value ←
          if ← accept .value then blankBefore [.flowEntry, .flowMappingEnd] (node handles fuel .flow)
          else pure .blank
        pure (key, value)
      else pure (← node handles fuel .flow, .blank)
    return entry :: (← flowEntries handles fuel false)

end

/-! ## Documents -/

/-- Reads the directives in front of a document: the handles of tags that they declare, and whether
there are any. -/
def directives : (rest : List Token) → (version : Bool) → (handles : List (String × Bytes)) →
    TokenReader (Bool × List (String × Bytes))
  | .version major minor :: rest, version, handles => do
    skip
    if version || major ≠ 1 || (minor ≠ 1 && minor ≠ 2) then failure
    directives rest true handles
  | .tagHandle handle meaning :: rest, version, handles => do
    skip
    if (handles.lookup handle).isSome then failure
    directives rest version (handles ++ [(handle, meaning)])
  | _, version, handles => return (version || !handles.isEmpty, handles)

/-- Whether a document without a node ends in front of the token. -/
def endsDocument : Option Token → Bool
  | none | some (.version ..) | some (.tagHandle ..) | some .documentStart | some .documentEnd => true
  | _ => false

/-- Reads past the ends of documents, up to the end of the tokens. -/
def finish : TokenReader Unit := do
  if (← get).rest.all (· = .documentEnd) then return () else failure

/-- Reads one document. -/
def document : TokenReader Node := do
  let tokens := (← get).rest
  if tokens.isEmpty then return .blank
  let fuel := 4 * tokens.length + 4
  let (declared, handles) ← directives tokens false []
  let explicit ← accept .documentStart
  if declared && !explicit then failure
  let root ←
    if explicit && endsDocument (← peek) then pure Node.blank
    else node handles fuel .block
  finish
  return root

end TokenReader

/-- The node of the document that the text is. -/
def Node.ofText? (text : String) : Option Node := do
  let tokens ← tokens? text
  (TokenReader.document.run' ⟨tokens, []⟩)

end ProtoSchema.Yaml
