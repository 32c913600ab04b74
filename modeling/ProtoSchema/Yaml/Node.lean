import ProtoSchema.Yaml.Token

/-!
# Nodes

The tree of a YAML document. Anchors are numbered; a node that stands for another one holds the number
of its anchor, and `Node.anchored` lists the nodes that have one.
-/

namespace ProtoSchema.Yaml

/-- What is said about a node in front of it. -/
structure Properties where
  anchor? : Option Nat
  /-- The tag with its handle resolved. -/
  tag? : Option Bytes
deriving DecidableEq, Repr

/-- A node of a document. -/
inductive Node
  | scalar (properties : Properties) (text : String) (style : Style)
  | sequence (properties : Properties) (items : List Node)
  | mapping (properties : Properties) (entries : List (Node × Node))
  | reference (anchor : Nat)
deriving Repr, Inhabited

namespace Node

/-- What stands for a node that is left out. -/
def blank : Node := .scalar ⟨none, none⟩ "" .plain

/-- The node under the number of its anchor, if it has one. -/
def entry (p : Properties) (n : Node) : List (Nat × Node) :=
  match p.anchor? with
  | some anchor => [(anchor, n)]
  | none => []

mutual

/-- The nodes that have an anchor, each with its number, in the order in which they start. -/
def anchored : Node → List (Nat × Node)
  | scalar p text style => entry p (scalar p text style)
  | sequence p items => entry p (sequence p items) ++ anchoredItems items
  | mapping p entries => entry p (mapping p entries) ++ anchoredEntries entries
  | reference _ => []

def anchoredItems : List Node → List (Nat × Node)
  | [] => []
  | n :: rest => anchored n ++ anchoredItems rest

def anchoredEntries : List (Node × Node) → List (Nat × Node)
  | [] => []
  | (k, v) :: rest => anchored k ++ anchored v ++ anchoredEntries rest

end

mutual

/-- How much there is to read: scalars and aliases count once, collections once for either end. -/
def size : Node → Nat
  | scalar .. | reference _ => 1
  | sequence _ items => sizeItems items + 2
  | mapping _ entries => sizeEntries entries + 2

def sizeItems : List Node → Nat
  | [] => 0
  | n :: rest => size n + sizeItems rest

def sizeEntries : List (Node × Node) → Nat
  | [] => 0
  | (k, v) :: rest => size k + size v + sizeEntries rest

end

end Node

end ProtoSchema.Yaml
