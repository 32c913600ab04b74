import ProtoSchema.Pool.Basic

/-!
# Equality of pools

Pools are equal when they agree in every part. Defaults that are floating-point numbers compare as
numbers, so a pool with a default that is not a number is not equal even to itself.
-/

namespace ProtoSchema

/-- Whether two defaults are equal. -/
def FieldDefault.equal : FieldDefault → FieldDefault → Bool
  | scalar v, scalar w => v.equal w
  | a, b => a = b

/-- Whether two fields are equal. -/
def FieldDef.equal (f g : FieldDef) : Bool :=
  { f with default := g.default } = g && f.default.equal g.default

/-- Whether two lists are equal, given when their elements are. -/
def equalLists {α : Type} (equal : α → α → Bool) : List α → List α → Bool
  | [], [] => true
  | a :: as, b :: bs => equal a b && equalLists equal as bs
  | _, _ => false

/-- Whether two messages are equal. -/
def MessageDef.equal (m n : MessageDef) : Bool :=
  { m with fields := n.fields } = n && equalLists FieldDef.equal m.fields n.fields

/-- Whether two pools are equal. -/
def Pool.equal (p q : Pool) : Bool :=
  p.records = q.records && p.enums = q.enums && equalLists MessageDef.equal p.messages q.messages

end ProtoSchema
