import ProtoSchema.Message.Basic
import ProtoSchema.Wire.Scalar

/-!
# Writing messages

A content is written value by value, each as one record: a key and what stands behind it. Repeated
fields are not packed.
-/

namespace ProtoSchema

mutual

/-- The record of a value of the field. -/
def Element.encode (p : Pool) (f : FieldDef) : Element → Bytes
  | .scalar v =>
    match f.kind with
    | .scalar t => Wire.key f.number t.wireType ++ v.payload t
    | _ => []
  | .enum i =>
    match f.kind with
    | .enum t => Wire.key f.number .varint ++ Wire.signed ((p.enum t).value i).number.toInt
    | _ => []
  | .message c =>
    match f.kind with
    | .message t => Wire.key f.number .delimited ++ Wire.delimited (Content.encode p t c)
    | _ => []

/-- The records of a content of the message type. -/
def Content.encode (p : Pool) (t : Nat) : Content → Bytes
  | [] => []
  | (n, e) :: rest =>
    (match (p.message t).field? n with
      | some f => e.encode p f
      | none => []) ++ Content.encode p t rest

end

/-- The bytes of a message. -/
def Message.encode (m : Message) : Bytes := Content.encode m.type.schema.pool m.type.index m.content

end ProtoSchema
