import ProtoSchema.Decimal.Text
import ProtoSchema.Message.Basic
import ProtoSchema.Pool.Render
import ProtoSchema.Text.Escape

/-!
# Messages as text

One line for each value, `name: value`, and for a nested message its lines between braces, indented.
-/

namespace ProtoSchema

/-- Numbers from 0.0001 up to, and without, 10 to the 16th are written positionally. -/
def Message.floatStyle : Decimal.Style where
  lowest := -3
  highest := 16
  tie := .up
  nan := "nan"
  infinite := "inf"
  minusInfinite := "-inf"

/-- The text of a scalar. -/
def Scalar.text : Scalar → String
  | bool b => if b then "true" else "false"
  | int32 n => toString n.toInt
  | int64 n => toString n.toInt
  | uint32 n => toString n.toNat
  | uint64 n => toString n.toNat
  | float bits => Decimal.ofBits Binary.single Message.floatStyle bits.toNat
  | double bits => Decimal.ofBits Binary.double Message.floatStyle bits.toNat
  | string s => "\"" ++ Text.escape (utf8 s) ++ "\""
  | bytes bs => "\"" ++ Text.escape bs ++ "\""

mutual

/-- The lines of a value of the field. -/
def Element.text (p : Pool) (depth : Nat) (f : FieldDef) : Element → String
  | .scalar v => s!"{indent depth}{f.name}: {v.text}\n"
  | .enum i =>
    let value := (p.enum f.kind.index).value i
    s!"{indent depth}{f.name}: {value.name}\n"
  | .message c =>
    s!"{indent depth}{f.name} \x7b\n" ++ Content.text p (depth + 1) f.kind.index c ++
      s!"{indent depth}\x7d\n"

/-- The lines of a content of the message type. -/
def Content.text (p : Pool) (depth : Nat) (t : Nat) : Content → String
  | [] => ""
  | (n, e) :: rest =>
    (match (p.message t).field? n with
      | some f => e.text p depth f
      | none => "") ++ Content.text p depth t rest

end

/-- The text of a message. -/
def Message.text (m : Message) : String :=
  Content.text m.type.schema.pool 0 m.type.index m.content

end ProtoSchema
