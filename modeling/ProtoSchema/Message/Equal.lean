import ProtoSchema.Message.Basic

/-!
# Equality of messages

Messages of different schemas are equal when their types have the same full name and the same fields
hold equal values. Enum values go by the full name of the enum and the number, and floating-point
numbers compare as numbers.
-/

namespace ProtoSchema

mutual

/-- Whether values of fields of the two kinds, in the two pools, are equal. -/
def Element.equal (p q : Pool) (k l : FieldKind) : Element → Element → Bool
  | .scalar v, .scalar w => v.equal w
  | .enum i, .enum j =>
    let e := p.enum k.index
    let f := q.enum l.index
    e.fullName = f.fullName && (e.value i).number = (f.value j).number
  | .message c, .message d =>
    (p.message k.index).fullName = (q.message l.index).fullName &&
      Content.equal p q (p.message k.index) (q.message l.index) c d
  | _, _ => false

/-- Whether contents of the two message types, in the two pools, are equal. -/
def Content.equal (p q : Pool) (t u : MessageDef) : Content → Content → Bool
  | [], [] => true
  | (n, e) :: c, (m, f) :: d =>
    n = m &&
      (match t.field? n, u.field? m with
        | some g, some h => g.isRepeated = h.isRepeated && e.equal p q g.kind h.kind f
        | _, _ => false) &&
      Content.equal p q t u c d
  | _, _ => false

end

/-- Whether two messages are equal. -/
def Message.equal (m n : Message) : Bool :=
  Element.equal m.type.schema.pool n.type.schema.pool (.message m.type.index)
    (.message n.type.index) (.message m.content) (.message n.content)

namespace Value

mutual

/-- Whether two values are equal. -/
def equal : Value → Value → Bool
  | scalar v, scalar w => v.equal w
  | enum v, enum w => v.equal w
  | message m, message n => m.equal n
  | list vs, list ws => equalList vs ws
  | _, _ => false

def equalList : List Value → List Value → Bool
  | [], [] => true
  | v :: vs, w :: ws => v.equal w && equalList vs ws
  | _, _ => false

end

end Value

end ProtoSchema
