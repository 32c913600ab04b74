import ProtoSchema.Message.Text
import ProtoSchema.Text.Quoted

/-!
# Descriptions for diagnosis

Schemas, types, fields and messages on one line, with every part named.
-/

namespace ProtoSchema

/-- Descriptions write numbers as texts do, but for the one that is no number. -/
def Value.floatStyle : Decimal.Style := { Message.floatStyle with nan := "NaN" }

/-- Parts in brackets. -/
def bracketed (parts : List String) : String := "[" ++ String.intercalate ", " parts ++ "]"

namespace Schema

/-- The schema with its names. -/
def inspect (s : Schema) : String :=
  let name := Text.quote s.name
  let package := Text.quote s.package
  let messages := bracketed (s.messageNames.map Text.quote)
  let enums := bracketed (s.enumNames.map Text.quote)
  s!"ResolvedSchema \x7b name: {name}, package: {package}, messages: {messages}, enums: {enums} \x7d"

end Schema

def MessageType.inspect (t : MessageType) : String :=
  "MessageDescriptor(" ++ Text.quote t.fullName ++ ")"

def EnumType.inspect (t : EnumType) : String :=
  "EnumDescriptor(" ++ Text.quote t.fullName ++ ")"

def EnumValue.inspect (v : EnumValue) : String :=
  s!"EnumValue({v.type.fullName}.{v.name} = {v.number.toInt})"

/-- The name of a label as a part. -/
def Label.inspect : Label → String
  | required => "Required"
  | optional => "Optional"
  | repeated => "Repeated"

def Field.inspect (f : Field) : String :=
  let name := Text.quote f.fullName
  s!"FieldDescriptor \x7b name: {name}, number: {f.number}, label: {f.field.label.inspect} \x7d"

/-- The scalar with the name of its kind. -/
def Scalar.inspect : Scalar → String
  | bool b => if b then "Bool(true)" else "Bool(false)"
  | int32 n => s!"I32({n.toInt})"
  | int64 n => s!"I64({n.toInt})"
  | uint32 n => s!"U32({n.toNat})"
  | uint64 n => s!"U64({n.toNat})"
  | float bits => "F32(" ++ Decimal.ofBits Binary.single Value.floatStyle bits.toNat ++ ")"
  | double bits => "F64(" ++ Decimal.ofBits Binary.double Value.floatStyle bits.toNat ++ ")"
  | string s => "String(" ++ Text.quote s ++ ")"
  | bytes bs => "Bytes(" ++ bracketed (bs.map fun b => toString b.toNat) ++ ")"

/-- A message of the type, given the descriptions of its values. -/
def MessageDef.inspect (t : MessageDef) (values : List (Nat × String)) : String :=
  let part (group : Nat × List String) :=
    let isRepeated := ((t.field? group.1).map FieldDef.isRepeated).getD false
    let shown := if isRepeated then "List(" ++ bracketed group.2 ++ ")" else String.join group.2
    s!"{group.1}: {shown}"
  let name := Text.quote t.fullName
  let fields := String.intercalate ", " ((Content.groups values).map part)
  s!"DynamicMessage \x7b type: {name}, fields: \x7b{fields}\x7d \x7d"

mutual

/-- The value of a field of the kind, with the name of its own kind. -/
def Element.inspect (s : Schema) (kind : FieldKind) : Element → String
  | .scalar v => v.inspect
  | .enum i => "Enum(" ++ (EnumValue.mk ⟨s, kind.index⟩ i).inspect ++ ")"
  | .message c =>
    let t := s.pool.message kind.index
    "Message(" ++ t.inspect (Content.inspect s t c) ++ ")"

/-- The descriptions of the values of a message. -/
def Content.inspect (s : Schema) (t : MessageDef) : Content → List (Nat × String)
  | [] => []
  | (n, e) :: rest =>
    (n, match t.field? n with
      | some f => e.inspect s f.kind
      | none => "") :: Content.inspect s t rest

end

def Message.inspect (m : Message) : String :=
  m.type.define.inspect (Content.inspect m.type.schema m.type.define m.content)

end ProtoSchema
