/-!
# Scalar types
-/

namespace ProtoSchema

/-- The scalar types of a field, one for each keyword. -/
inductive ScalarType
  | double | float
  | int32 | int64 | uint32 | uint64 | sint32 | sint64
  | fixed32 | fixed64 | sfixed32 | sfixed64
  | bool | string | bytes
deriving DecidableEq, Repr, Inhabited

namespace ScalarType

/-- All scalar types. -/
def all : List ScalarType :=
  [double, float, int32, int64, uint32, uint64, sint32, sint64,
   fixed32, fixed64, sfixed32, sfixed64, bool, string, bytes]

/-- The word that names the type in a declaration. -/
def keyword : ScalarType → String
  | double => "double"
  | float => "float"
  | int32 => "int32"
  | int64 => "int64"
  | uint32 => "uint32"
  | uint64 => "uint64"
  | sint32 => "sint32"
  | sint64 => "sint64"
  | fixed32 => "fixed32"
  | fixed64 => "fixed64"
  | sfixed32 => "sfixed32"
  | sfixed64 => "sfixed64"
  | bool => "bool"
  | string => "string"
  | bytes => "bytes"

/-- The type that the word names. -/
def ofKeyword? (word : String) : Option ScalarType := all.find? (·.keyword = word)

theorem ofKeyword?_keyword (t : ScalarType) : ofKeyword? t.keyword = some t := by
  cases t <;> decide

theorem keyword_of_ofKeyword? {word : String} {t : ScalarType} (h : ofKeyword? word = some t) :
    t.keyword = word := by
  simpa using List.find?_some h

end ScalarType

end ProtoSchema
