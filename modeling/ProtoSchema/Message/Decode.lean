import ProtoSchema.Message.Basic
import ProtoSchema.Message.Merge
import ProtoSchema.Wire.Scalar
import ProtoSchema.Wire.Skip

/-!
# Reading messages

A message is read record by record. Each record gives a content of its own (`Decode.record`), which is
merged into what the records before it gave; reading it into that comes to the same
(`Decode.contentInto_eq`). Unknown fields are read past, and numbers that an enum does not declare are
dropped. Nested messages are cut out first and then read from their own bytes; each level takes one
from a budget, and at zero nothing is read.
-/

namespace ProtoSchema

namespace Decode

/-- How deep messages may nest, the outermost included. -/
def nestingBudget : Nat := 101

/-- How deep groups of unknown fields may nest. -/
def groupBudget : Nat := 100

/-- Reads one value, or several packed ones where the field takes them. -/
def values {α : Type} (packs : Bool) (actual expected : WireType) (r : Reader WireFault α) :
    Reader WireFault (List α) :=
  if packs ∧ actual = .delimited then Reader.packed id r
  else (r.ofType actual expected).map fun a => [a]

/-- Reads the values of a record of the field; `body` reads a nested message of a type. -/
def elements (p : Pool) (f : FieldDef) (type : WireType)
    (body : Nat → Bytes → Except WireFault Content) : Reader WireFault (List Element) :=
  match f.kind with
  | .scalar t =>
    (values (f.isRepeated && t.isPackable) type t.wireType (Reader.scalar t)).map
      (·.map .scalar)
  | .enum i =>
    (values f.isRepeated type .varint Reader.int32).map
      (·.filterMap fun n => ((p.enum i).numbered? n).map .enum)
  | .message t =>
    (Reader.delimited.ofType type .delimited).check fun bs =>
      (body t bs).map fun c => [.message c]

/-- Reads one record of a message of the type. -/
def record (p : Pool) (t : Nat) (body : Nat → Bytes → Except WireFault Content) :
    Reader WireFault Content :=
  Reader.key.bind fun k =>
    match (p.message t).field? k.tag with
    | some f => (elements p f k.type body).map (·.map (f.number, ·))
    | none => (Reader.skip groupBudget k).map fun _ => []

/-- The content of a message of the type that the bytes hold. -/
def content (p : Pool) : (budget : Nat) → (t : Nat) → Bytes → Except WireFault Content
  | 0, _, _ => .error .recursionLimit
  | budget + 1, t, bs =>
    ((record p t (content p budget)).all bs).map (·.foldl (Content.merge p t) [])

end Decode

/-- The message of the type that the bytes hold. Required fields need not be there. -/
def Message.decode (type : MessageType) (bs : Bytes) : Except WireFault Message :=
  (Decode.content type.schema.pool Decode.nestingBudget type.index bs).map (⟨type, ·⟩)

end ProtoSchema
