import ProtoSchema.Decl
import ProtoSchema.Scalar

/-!
# Pools

A pool holds the resolved types of one schema and of everything it imports. Messages and enums stand
in two lists and are referred to by their index in them, so that recursive types need no care. Records
follow one another with the imported ones first; the last is the schema's own.
-/

namespace ProtoSchema

/-- A type of a pool, by its index. -/
inductive TypeRef
  | message (index : Nat)
  | enum (index : Nat)
deriving DecidableEq, Repr

/-- What the values of a field are. -/
inductive FieldKind
  | scalar (type : ScalarType)
  | message (index : Nat)
  | enum (index : Nat)
deriving DecidableEq, Repr, Inhabited

/-- The index of the message or enum that the kind refers to. -/
def FieldKind.index : FieldKind → Nat
  | scalar _ => 0
  | message i => i
  | enum i => i

/-- What a field reports when it is not set. -/
inductive FieldDefault
  | scalar (value : Scalar)
  /-- A value of the field's enum, by its index. -/
  | enum (index : Nat)
  | emptyMessage
  | emptyList
deriving DecidableEq, Repr, Inhabited

/-- A resolved field. -/
structure FieldDef where
  name : String
  number : Nat
  label : Label
  kind : FieldKind
  /-- The declared default, as written. -/
  declared? : Option String
  default : FieldDefault
deriving DecidableEq, Repr, Inhabited

namespace FieldDef

def isRepeated (f : FieldDef) : Bool := f.label = .repeated

def isRequired (f : FieldDef) : Bool := f.label = .required

end FieldDef

/-- A resolved message. -/
structure MessageDef where
  name : String
  fullName : String
  /-- The record that declares it. -/
  record : Nat
  /-- The message it is nested in. -/
  parent? : Option Nat
  fields : List FieldDef
  messages : List Nat
  enums : List Nat
deriving DecidableEq, Repr, Inhabited

namespace MessageDef

/-- The field with the number. -/
def field? (m : MessageDef) (number : Nat) : Option FieldDef := m.fields.find? (·.number = number)

/-- The full name of a field of the message. -/
def fieldName (m : MessageDef) (f : FieldDef) : String := m.fullName ++ "." ++ f.name

end MessageDef

/-- A resolved enum. -/
structure EnumDef where
  name : String
  fullName : String
  record : Nat
  parent? : Option Nat
  values : List ValueDecl
deriving DecidableEq, Repr, Inhabited

namespace EnumDef

/-- The value at the index. -/
def value (e : EnumDef) (index : Nat) : ValueDecl := e.values.getD index default

/-- The index of the value with the name. -/
def named? (e : EnumDef) (name : String) : Option Nat := e.values.findIdx? (·.name = name)

/-- The index of the value with the number. -/
def numbered? (e : EnumDef) (number : Int32) : Option Nat := e.values.findIdx? (·.number = number)

end EnumDef

/-- A record: one schema file with its top-level types. -/
structure RecordDef where
  name : String
  package : String
  dependencies : List String
  messages : List Nat
  enums : List Nat
deriving DecidableEq, Repr, Inhabited

/-- The resolved types of a schema and its imports. -/
structure Pool where
  records : List RecordDef
  messages : List MessageDef
  enums : List EnumDef
deriving DecidableEq, Repr, Inhabited

namespace Pool

def message (p : Pool) (index : Nat) : MessageDef := p.messages.getD index default

def enum (p : Pool) (index : Nat) : EnumDef := p.enums.getD index default

def record (p : Pool) (index : Nat) : RecordDef := p.records.getD index default

/-- The schema's own record. -/
def own (p : Pool) : RecordDef := p.records.getLastD default

/-- The type with the full name. -/
def find? (p : Pool) (name : String) : Option TypeRef :=
  match p.messages.findIdx? (·.fullName = name) with
  | some i => some (.message i)
  | none => (p.enums.findIdx? (·.fullName = name)).map .enum

/-- The word that names a kind of field: a scalar keyword, or the absolute name of the type. -/
def typeName (p : Pool) : FieldKind → String
  | .scalar t => t.keyword
  | .message i => "." ++ (p.message i).fullName
  | .enum i => "." ++ (p.enum i).fullName

/-- The kind of field in words. -/
def kindName (p : Pool) : FieldKind → String
  | .scalar t => t.keyword
  | .message i => "message " ++ (p.message i).fullName
  | .enum i => "enum " ++ (p.enum i).fullName

end Pool

end ProtoSchema
