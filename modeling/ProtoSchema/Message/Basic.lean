import ProtoSchema.Message.Content
import ProtoSchema.Schema.Basic

/-!
# Messages and values

A message is a content with the type it belongs to, and a value is what a field is set to and reports:
a scalar, an enum value, a message, or the list of a repeated field's elements. Values carry the types
they belong to; elements of contents do not, because the field they stand in says it.
-/

namespace ProtoSchema

/-- A message of a type. -/
structure Message where
  type : MessageType
  content : Content
deriving Repr, Inhabited

/-- What a field is set to or reports. -/
inductive Value
  | scalar (value : Scalar)
  | enum (value : EnumValue)
  | message (m : Message)
  | list (items : List Value)
deriving Repr, Inhabited

namespace Value

/-- The kind of value in words. -/
def kindName : Value → String
  | scalar v => v.kindName
  | enum v => "enum " ++ v.type.fullName
  | message m => "message " ++ m.type.fullName
  | list _ => "list"

/-- The value that an element of a field of the kind stands for. -/
def ofElement (s : Schema) (kind : FieldKind) (e : Element) : Value :=
  match kind, e with
  | _, .scalar v => scalar v
  | .enum i, .enum j => enum ⟨⟨s, i⟩, j⟩
  | .message i, .message c => message ⟨⟨s, i⟩, c⟩
  | _, _ => list []

/-- The element that a field of the kind can hold for the value: one of the scalar type, a value of
the very enum, a message of the very type. -/
def toElement? (s : Schema) (kind : FieldKind) (v : Value) : Option Element :=
  match kind, v with
  | .scalar t, scalar v => if v.fits t then some (.scalar v) else none
  | .enum i, enum v => if v.type = ⟨s, i⟩ then some (.enum v.index) else none
  | .message i, message m => if m.type = ⟨s, i⟩ then some (.message m.content) else none
  | _, _ => none

end Value

/-- What the field reports when it is not set. -/
def Field.defaultValue (f : Field) : Value :=
  match f.field.default, f.kind with
  | .scalar v, _ => .scalar v
  | .enum i, .enum t => .enum ⟨t, i⟩
  | .emptyMessage, .message t => .message ⟨t, []⟩
  | _, _ => .list []

namespace Message

/-- The message with no field set. -/
def empty (type : MessageType) : Message := ⟨type, []⟩

/-- What the elements of a field stand for. -/
def report (m : Message) (f : FieldDef) : List Value :=
  (Content.values f.number m.content).map (Value.ofElement m.type.schema f.kind)

/-- The fields that are set, by number, with their values. -/
def fields (m : Message) : List (Field × Value) :=
  (Content.numbers m.content).filterMap fun n =>
    (m.type.field? n).bind fun f =>
      if f.field.isRepeated then some (f, .list (m.report f.field))
      else (m.report f.field).head?.map (f, ·)

end Message

end ProtoSchema
