import ProtoSchema.Pool.Link
import ProtoSchema.Wire.Basic

/-!
# Descriptor errors
-/

namespace ProtoSchema

namespace Descriptor

/-- A fault in the bytes of a descriptor, with the fields that were being read, innermost first. -/
structure ReadError where
  path : List (String × String)
  fault : WireFault
deriving DecidableEq, Repr

namespace ReadError

/-- A fault that no field has been named for. -/
def ofFault (fault : WireFault) : ReadError := ⟨[], fault⟩

/-- The error seen from the message whose field was being read. -/
def inField (message field : String) (e : ReadError) : ReadError :=
  { e with path := e.path ++ [(message, field)] }

/-- The wording of an error. -/
def message (e : ReadError) : String :=
  "failed to decode Protobuf message: " ++
    String.join (e.path.map fun (message, field) => s!"{message}.{field}: ") ++ e.fault.message

end ReadError

/-- What a descriptor may describe without a name. -/
inductive Part
  | message
  | enum
  | value
  | field
deriving DecidableEq, Repr

/-- The word for a part. -/
def Part.word : Part → String
  | message => "message"
  | enum => "enum"
  | value => "enum value"
  | field => "field"

/-- What may be wrong with the description of a field that has a name. -/
inductive FieldFault
  | unknownLabel (n : Int32)
  | missingType
  | unknownType (n : Int32)
  | group
  | notAbsolute (reference : String)
  | missingTypeName
  /-- The number is missing or negative. -/
  | invalidNumber (n? : Option Int32)
deriving DecidableEq, Repr

/-- The wording of a fault. -/
def FieldFault.message : FieldFault → String
  | unknownLabel n => s!"unknown label {n.toInt}"
  | missingType => "missing type"
  | unknownType n => s!"unknown type {n.toInt}"
  | group => "groups are not supported"
  | notAbsolute reference => s!"reference '{reference}' is not absolute"
  | missingTypeName => "missing type name"
  | invalidNumber none => "invalid number None"
  | invalidNumber (some n) => s!"invalid number Some({n.toInt})"

end Descriptor

/-- Why descriptors make no pool. -/
inductive DescriptorError
  | unreadable (e : Descriptor.ReadError)
  | noRecords
  | unnamed (part : Descriptor.Part)
  | field (message name : String) (fault : Descriptor.FieldFault)
  | definition (record : String) (e : DefinitionError)
  | link (e : LinkError)
  /-- A field's reference names a type of another form than its type says. -/
  | wrongForm (message name reference : String) (declared : TypeForm)
  | missing (message : String)
deriving DecidableEq, Repr

/-- The wording of a descriptor error. -/
def DescriptorError.message (e : DescriptorError) : String :=
  "Malformed descriptor: " ++
  match e with
  | unreadable e => "undecodable descriptor set: " ++ e.message
  | noRecords => "descriptor set holds no records"
  | unnamed part => part.word ++ " without a name"
  | field message name fault => s!"field {message}.{name}: {fault.message}"
  | definition record e => s!"record '{record}': {e.message}"
  | link e => e.message
  | wrongForm message name reference declared =>
    let form := match declared with
      | .message => "Message"
      | .enum => "Enum"
    s!"field {message}.{name} declares Some({form}) but '{reference}' is not one"
  | missing message => s!"message {message} missing after resolution"

end ProtoSchema
