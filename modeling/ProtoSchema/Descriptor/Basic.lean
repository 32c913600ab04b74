import ProtoSchema.Label
import ProtoSchema.ScalarType

/-!
# Descriptors

Schema files in the form in which they are exchanged: every part may be missing, labels and types are
numbers, and a reference stands beside its field's type. Only the parts that a pool reads are held.
-/

namespace ProtoSchema.Descriptor

/-- The description of a field. -/
structure Field where
  name? : Option String
  number? : Option Int32
  label? : Option Int32
  type? : Option Int32
  /-- The full name of the message or enum that is the type, behind a dot. -/
  typeName? : Option String
  default? : Option String
deriving DecidableEq, Repr, Inhabited

/-- The description of an enum value. -/
structure Value where
  name? : Option String
  number? : Option Int32
deriving DecidableEq, Repr, Inhabited

/-- The description of an enum. -/
structure Enum where
  name? : Option String
  values : List Value
deriving DecidableEq, Repr, Inhabited

/-- The description of a message. -/
structure Message where
  name? : Option String
  fields : List Field
  messages : List Message
  enums : List Enum
deriving Repr, Inhabited

/-- The description of a file. -/
structure File where
  name? : Option String
  package? : Option String
  dependencies : List String
  messages : List Message
  enums : List Enum
deriving Repr, Inhabited

/-- The type of a field. -/
inductive FieldType
  | scalar (type : ScalarType)
  | group
  | message
  | enum
deriving DecidableEq, Repr

namespace FieldType

/-- The number that stands for the type. -/
def number : FieldType → Int32
  | scalar .double => 1
  | scalar .float => 2
  | scalar .int64 => 3
  | scalar .uint64 => 4
  | scalar .int32 => 5
  | scalar .fixed64 => 6
  | scalar .fixed32 => 7
  | scalar .bool => 8
  | scalar .string => 9
  | group => 10
  | message => 11
  | scalar .bytes => 12
  | scalar .uint32 => 13
  | enum => 14
  | scalar .sfixed32 => 15
  | scalar .sfixed64 => 16
  | scalar .sint32 => 17
  | scalar .sint64 => 18

/-- All types. -/
def all : List FieldType := ScalarType.all.map scalar ++ [group, message, enum]

/-- The type that the number stands for. -/
def ofNumber? (n : Int32) : Option FieldType := all.find? (·.number = n)

theorem ofNumber?_number (t : FieldType) : ofNumber? t.number = some t := by
  cases t with
  | scalar t => cases t <;> decide
  | _ => decide

end FieldType

end ProtoSchema.Descriptor

namespace ProtoSchema.Label

/-- The number that stands for the label in a descriptor. -/
def number : Label → Int32
  | optional => 1
  | required => 2
  | repeated => 3

/-- The label that the number stands for. -/
def ofNumber? (n : Int32) : Option Label := [optional, required, repeated].find? (·.number = n)

theorem ofNumber?_number (l : Label) : ofNumber? l.number = some l := by cases l <;> decide

end ProtoSchema.Label
