import ProtoSchema.Binary
import ProtoSchema.Bytes
import ProtoSchema.ScalarType

/-!
# Scalar values

Types of one width and sign share their values: `int32`, `sint32` and `sfixed32` all hold 32-bit
signed integers. Floating-point numbers are held as bit patterns, so that every pattern is a value of
its own; `Scalar.equal` compares them as numbers.
-/

namespace ProtoSchema

/-- A scalar value. -/
inductive Scalar
  | bool (b : Bool)
  | int32 (n : Int32)
  | int64 (n : Int64)
  | uint32 (n : UInt32)
  | uint64 (n : UInt64)
  | float (bits : UInt32)
  | double (bits : UInt64)
  | string (s : String)
  | bytes (bs : Bytes)
deriving DecidableEq, Repr

namespace Scalar

instance : Inhabited Scalar := ⟨bool false⟩

/-- Whether a field of the type can hold the value. -/
def fits : Scalar → ScalarType → Bool
  | double _, .double => true
  | float _, .float => true
  | int32 _, .int32 | int32 _, .sint32 | int32 _, .sfixed32 => true
  | int64 _, .int64 | int64 _, .sint64 | int64 _, .sfixed64 => true
  | uint32 _, .uint32 | uint32 _, .fixed32 => true
  | uint64 _, .uint64 | uint64 _, .fixed64 => true
  | bool _, .bool => true
  | string _, .string => true
  | bytes _, .bytes => true
  | _, _ => false

/-- The value of a field that was never given one. -/
def zero : ScalarType → Scalar
  | .double => double 0
  | .float => float 0
  | .int32 | .sint32 | .sfixed32 => int32 0
  | .int64 | .sint64 | .sfixed64 => int64 0
  | .uint32 | .fixed32 => uint32 0
  | .uint64 | .fixed64 => uint64 0
  | .bool => bool false
  | .string => string ""
  | .bytes => bytes []

theorem fits_zero (t : ScalarType) : (zero t).fits t = true := by cases t <;> rfl

/-- The name of the kind of value. -/
def kindName : Scalar → String
  | bool _ => "bool"
  | int32 _ => "i32"
  | int64 _ => "i64"
  | uint32 _ => "u32"
  | uint64 _ => "u64"
  | float _ => "f32"
  | double _ => "f64"
  | string _ => "string"
  | bytes _ => "bytes"

/-- Equality, where floating-point numbers compare as numbers. -/
def equal : Scalar → Scalar → Bool
  | float a, float b => Binary.single.equal a.toNat b.toNat
  | double a, double b => Binary.double.equal a.toNat b.toNat
  | a, b => a = b

end Scalar

end ProtoSchema
