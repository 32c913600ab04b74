import ProtoSchema.Yaml.Document
import ProtoSchema.Yaml.Value

/-!
# Reading nodes

Nodes are read as what is expected in their place: a text, an integer, a sequence, a record with named
members, or any value. An alias reads as the node that it stands for.

Two limits hold for a document. Collections may be nested 128 deep, along aliases too, so that a node
that contains itself cannot be read; and aliases may be followed a hundred times for each part of the
document, so that a small document does not read as an enormous one.
-/

namespace ProtoSchema.Yaml

/-- What a reader may use. -/
structure Scope where
  /-- The nodes that have an anchor. -/
  anchored : List (Nat × Node)
  /-- How many collections may still be opened inside each other. -/
  depth : Nat

/-- A reader of nodes; the state is how many aliases may still be followed. -/
abbrev NodeReader := ReaderT Scope (StateT Nat Option)

namespace NodeReader

/-- How deep collections may be nested. -/
def maxDepth : Nat := 128

/-- How many aliases may be followed for each part of a document. -/
def maxRepetition : Nat := 100

/-- Reads the root of a document. -/
def run? {α : Type} (reader : Node → NodeReader α) (root : Node) : Option α :=
  (reader root ⟨root.anchored, maxDepth⟩).run' (maxRepetition * root.size)

/-- The node itself or the one that it stands for. Of nodes with one number the last is meant. -/
def follow : Node → NodeReader Node
  | .reference anchor => do
    match ← get with
    | 0 => failure
    | left + 1 =>
      set left
      match (← read).anchored.reverse.lookup anchor with
      | some n => return n
      | none => failure
  | n => return n

/-- Reads inside a collection. -/
def inside {α : Type} (reader : NodeReader α) : NodeReader α := do
  match (← read).depth with
  | 0 => failure
  | depth + 1 => withReader (fun scope => { scope with depth }) reader

/-! ## Scalars -/

/-- Reads any scalar as it is written. -/
def text (n : Node) : NodeReader String := do
  match ← follow n with
  | .scalar _ s _ => return s
  | _ => failure

/-- Whether the scalar may be read as an integer: it is plain, or a literal block that has the tag. -/
def mayBeInteger (p : Properties) : Style → Bool
  | .plain => true
  | .literal => p.tag? = some (Value.coreTag "int")
  | _ => false

/-- Reads the characters of a scalar that may be an integer. -/
def numeral (n : Node) : NodeReader (List Char) := do
  match ← follow n with
  | .scalar p s style => if mayBeInteger p style then return s.toList else failure
  | _ => failure

/-- Reads an integer. -/
def integer (n : Node) : NodeReader Int := do
  match Number.integer? (← numeral n) with
  | some i => return i
  | none => failure

/-- Reads an integer without a minus sign. -/
def natural (n : Node) : NodeReader Nat := do
  match ← numeral n with
  | '-' :: _ => failure
  | cs =>
    match Number.integer? cs with
    | some i => return i.toNat
    | none => failure

/-! ## Collections -/

/-- Reads the items of a sequence. A blank node has none. -/
def items {α : Type} (reader : Node → NodeReader α) (n : Node) : NodeReader (List α) := do
  match ← follow n with
  | .sequence _ nodes => inside (nodes.mapM reader)
  | .scalar _ "" .plain => return []
  | _ => failure

/-- The members of a record by name; no known name occurs twice. Others are not read. -/
def membersOf (known : List String) :
    List (Node × Node) → NodeReader (List (String × Node))
  | [] => return []
  | (k, v) :: rest => do
    let name ← text k
    let others ← membersOf known rest
    if !known.contains name then return others
    if (others.lookup name).isSome then failure
    return (name, v) :: others

/-- Reads a record whose members have the known names. A blank node has no members. -/
def record {α : Type} (known : List String) (reader : List (String × Node) → NodeReader α) (n : Node) :
    NodeReader α := do
  match ← follow n with
  | .mapping _ entries => inside do reader (← membersOf known entries)
  | .scalar _ "" .plain => reader []
  | _ => failure

/-- Reads a member that must be there. -/
def need {α : Type} (members : List (String × Node)) (name : String) (reader : Node → NodeReader α) :
    NodeReader α :=
  match members.lookup name with
  | some n => reader n
  | none => failure

/-- Reads a member, or takes what stands for one that is missing. -/
def getD {α : Type} (members : List (String × Node)) (name : String) (reader : Node → NodeReader α)
    (missing : α) : NodeReader α :=
  match members.lookup name with
  | some n => reader n
  | none => return missing

/-! ## Values -/

/-- Whether the tag is one of the application, which a sign begins. -/
def isOwn (tag : Bytes) : Bool := tag.head? = some 0x21

/-- What stands behind a sign, unless nothing does. -/
def bare : Bytes → Bytes
  | 0x21 :: b :: rest => b :: rest
  | bs => bs

/-- The tag of the application that stands in front of a node, without its sign or signs. One that is
not UTF-8 does not count. -/
def ownTag? (p : Properties) : Option String :=
  match p.tag? with
  | some tag => if isOwn tag then text? (bare (bare tag)) else none
  | none => none

/-- What a scalar means whose tag has been taken off. -/
def untagged (word : String) (style : Style) : Option Value :=
  if style = .plain then Value.ofPlain word else some (.string word)

/-- What a scalar means. -/
def scalar (p : Properties) (word : String) (style : Style) : Option Value :=
  match ownTag? p with
  | some tag => (untagged word style).map (Value.tagged tag)
  | none =>
    match p.tag?.filter fun tag => !isOwn tag with
    | some tag => Value.ofTagged tag word
    | none => untagged word style

/-- The value with the tag of the application in front, if there is one. -/
def withTag (p : Properties) (v : Value) : Value :=
  match ownTag? p with
  | some tag => .tagged tag v
  | none => v

/-- Entries with different keys. -/
def distinct : List (Value × Value) → Bool
  | [] => true
  | (k, _) :: rest => !rest.any (fun e => k.same e.1) && distinct rest

/-- Reads any value that is nested less than `levels` deep. -/
def value : (levels : Nat) → Node → NodeReader Value
  | 0, _ => failure
  | levels + 1, n => do
    match ← follow n with
    | .scalar p word style =>
      match scalar p word style with
      | some v => return v
      | none => failure
    | .sequence p nodes => return withTag p (.sequence (← inside (nodes.mapM (value levels))))
    | .mapping p nodes =>
      let entries ← inside (nodes.mapM fun (k, v) => return (← value levels k, ← value levels v))
      if distinct entries then return withTag p (.mapping entries) else failure
    | .reference _ => failure

/-- Whether the scalar says that there is nothing. A tag that says so is refused on other words. -/
def isNothing (p : Properties) (word : String) (style : Style) : Option Bool :=
  if style ≠ .plain then some false
  else
    match p.tag? with
    | some tag =>
      if tag = Value.coreTag "null" then if Value.isNull word then some true else none
      else some false
    | none => some (word = "" || Value.isNull word)

/-- Reads any value, or nothing. -/
def value? (n : Node) : NodeReader (Option Value) := do
  let n ← follow n
  if let .scalar p word style := n then
    match isNothing p word style with
    | some true => return none
    | some false => pure ()
    | none => failure
  return some (← value (maxDepth + 1) n)

end NodeReader

end ProtoSchema.Yaml
