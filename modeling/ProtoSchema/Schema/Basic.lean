import ProtoSchema.Pool.Equal
import ProtoSchema.Pool.Lookup

/-!
# Schemas and handles

A schema is a pool with an identity: two schemas are the same only if both agree. Handles name a type
or a field of one schema. They are equal when they name the same one of the same schema, whatever
other schemas declare under the same name.
-/

namespace ProtoSchema

/-- A pool that has been given an identity. -/
structure Schema where
  id : Nat
  pool : Pool
deriving DecidableEq, Repr, Inhabited

/-- A message of a schema, by its index. -/
structure MessageType where
  schema : Schema
  index : Nat
deriving DecidableEq, Repr, Inhabited

/-- An enum of a schema, by its index. -/
structure EnumType where
  schema : Schema
  index : Nat
deriving DecidableEq, Repr, Inhabited

/-- A value of an enum, by its index in the enum. -/
structure EnumValue where
  type : EnumType
  index : Nat
deriving DecidableEq, Repr, Inhabited

/-- A field of a message. -/
structure Field where
  message : MessageType
  field : FieldDef
deriving DecidableEq, Repr

/-- What the values of a field are. -/
inductive Kind
  | scalar (type : ScalarType)
  | message (type : MessageType)
  | enum (type : EnumType)
deriving DecidableEq, Repr

namespace MessageType

/-- The message's definition in its pool. -/
def define (t : MessageType) : MessageDef := t.schema.pool.message t.index

def fullName (t : MessageType) : String := t.define.fullName

/-- The name of the record that declares the message. -/
def recordName (t : MessageType) : String := (t.schema.pool.record t.define.record).name

/-- The message it is nested in. -/
def parent? (t : MessageType) : Option MessageType := t.define.parent?.map (⟨t.schema, ·⟩)

def fields (t : MessageType) : List Field := t.define.fields.map (⟨t, ·⟩)

/-- The field with the number. -/
def field? (t : MessageType) (number : Nat) : Option Field := (t.define.field? number).map (⟨t, ·⟩)

/-- The field with the name. -/
def fieldNamed? (t : MessageType) (name : String) : Option Field :=
  (t.define.fields.find? (·.name = name)).map (⟨t, ·⟩)

/-- The messages nested in it. -/
def messages (t : MessageType) : List MessageType := t.define.messages.map (⟨t.schema, ·⟩)

/-- The enums nested in it. -/
def enums (t : MessageType) : List EnumType := t.define.enums.map (⟨t.schema, ·⟩)

end MessageType

namespace EnumType

/-- The enum's definition in its pool. -/
def define (t : EnumType) : EnumDef := t.schema.pool.enum t.index

def fullName (t : EnumType) : String := t.define.fullName

/-- The message it is nested in. -/
def parent? (t : EnumType) : Option MessageType := t.define.parent?.map (⟨t.schema, ·⟩)

/-- The values in the order of declaration. -/
def values (t : EnumType) : List EnumValue := (List.range t.define.values.length).map (⟨t, ·⟩)

/-- The value with the name. -/
def named? (t : EnumType) (name : String) : Option EnumValue := (t.define.named? name).map (⟨t, ·⟩)

/-- The value with the number. -/
def numbered? (t : EnumType) (number : Int32) : Option EnumValue :=
  (t.define.numbered? number).map (⟨t, ·⟩)

/-- The value that a field of the enum reports when it is not set: the first. -/
def first (t : EnumType) : EnumValue := ⟨t, 0⟩

end EnumType

namespace EnumValue

def name (v : EnumValue) : String := (v.type.define.value v.index).name

def number (v : EnumValue) : Int32 := (v.type.define.value v.index).number

/-- Whether both stand for the same number of an enum with the same name. -/
def equal (v w : EnumValue) : Bool := v.number = w.number ∧ v.type.fullName = w.type.fullName

end EnumValue

namespace Field

def name (f : Field) : String := f.field.name

/-- The name behind the full name of the message. -/
def fullName (f : Field) : String := f.message.define.fieldName f.field

def number (f : Field) : Nat := f.field.number

def kind (f : Field) : Kind :=
  match f.field.kind with
  | .scalar t => .scalar t
  | .message i => .message ⟨f.message.schema, i⟩
  | .enum i => .enum ⟨f.message.schema, i⟩

/-- The kind in words. -/
def kindName (f : Field) : String := f.message.schema.pool.kindName f.field.kind

end Field

namespace Schema

/-- Whether two schemas are the same or have equal pools. -/
def equal (s t : Schema) : Bool := s = t || s.pool.equal t.pool

/-- The name of the schema's own record. -/
def name (s : Schema) : String := s.pool.own.name

/-- The package of the schema's own record. -/
def package (s : Schema) : String := s.pool.own.package

/-- The names of the records that the schema's own one uses. -/
def dependencies (s : Schema) : List String := s.pool.own.dependencies

/-- The names of all records, the schema's own last. -/
def recordNames (s : Schema) : List String := s.pool.records.map (·.name)

/-- The full names of all messages. -/
def messageNames (s : Schema) : List String := s.pool.messages.map (·.fullName)

/-- The full names of all enums. -/
def enumNames (s : Schema) : List String := s.pool.enums.map (·.fullName)

def messages (s : Schema) : List MessageType := (List.range s.pool.messages.length).map (⟨s, ·⟩)

def enums (s : Schema) : List EnumType := (List.range s.pool.enums.length).map (⟨s, ·⟩)

/-- The message that the name means. -/
def findMessage (s : Schema) (name : String) : Except LookupError MessageType :=
  (s.pool.findMessage name).map (⟨s, ·⟩)

/-- The enum that the name means. -/
def findEnum (s : Schema) (name : String) : Except LookupError EnumType :=
  (s.pool.findEnum name).map (⟨s, ·⟩)

/-- The value with the name in the enum that the other name means. -/
def findValue (s : Schema) (enum name : String) : Except LookupError EnumValue := do
  let t ← s.findEnum enum
  match t.named? name with
  | some v => .ok v
  | none => .error (.unknownValue name t.fullName)

end Schema

end ProtoSchema
