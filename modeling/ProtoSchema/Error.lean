import ProtoSchema.Descriptor.Error
import ProtoSchema.Message.Access
import ProtoSchema.Pool.Lookup

/-!
# Errors

Everything that the library may refuse, by the part that refuses it.
-/

namespace ProtoSchema

/-- An error of any part. -/
inductive SchemaError
  | definition (e : DefinitionError)
  | link (e : LinkError)
  | descriptor (e : DescriptorError)
  | lookup (e : LookupError)
  | access (e : AccessError)
  /-- Bytes that are no message of the type. -/
  | decode (fault : WireFault)
  /-- A text that is no schema document. -/
  | document
  /-- A file that cannot be read as text. -/
  | unreadableFile
deriving DecidableEq, Repr

/-- The wording of an error. -/
def SchemaError.message : SchemaError → String
  | definition e => e.message
  | link e => e.message
  | descriptor e => e.message
  | lookup e => e.message
  | access e => e.message
  | decode fault => "Wire decode failed: failed to decode Protobuf message: " ++ fault.message
  | document => "YAML error: not a schema document"
  | unreadableFile => "I/O error: not a readable text file"

end ProtoSchema
