import ProtoSchema.Scalar
import ProtoSchema.Wire.Varint

/-!
# Scalars on the wire

How a scalar value of each type is written and read behind its key. A varint that is too wide for its
type loses its high bits. Signed integers are written in 64 bits of two's complement, or, for the
`sint` types, with small magnitudes first.
-/

namespace ProtoSchema

namespace Wire

/-- The integers in the order 0, -1, 1, -2, 2 and so on. -/
def zigzag (n : Int) : Nat := if 0 ≤ n then (2 * n).toNat else (-2 * n - 1).toNat

/-- The integer at the place in that order. -/
def unzigzag (m : Nat) : Int := if m % 2 = 0 then m / 2 else -(m / 2) - 1

theorem unzigzag_zigzag (n : Int) : unzigzag (zigzag n) = n := by
  unfold unzigzag zigzag
  split <;> omega

/-- The varint of an integer in 64 bits of two's complement. -/
def signed (n : Int) : Bytes := varint (n % Numeral.span 64).toNat

end Wire

/-- The wire type of a single value. -/
def ScalarType.wireType : ScalarType → WireType
  | double | fixed64 | sfixed64 => .eightBytes
  | float | fixed32 | sfixed32 => .fourBytes
  | string | bytes => .delimited
  | _ => .varint

/-- Whether several values may share one record. -/
def ScalarType.isPackable : ScalarType → Bool
  | string | bytes => false
  | _ => true

/-- What is written behind the key for a value of the type. -/
def Scalar.payload : ScalarType → Scalar → Bytes
  | .double, double bits => Wire.fixed 8 bits.toNat
  | .float, float bits => Wire.fixed 4 bits.toNat
  | .int32, int32 n => Wire.signed n.toInt
  | .int64, int64 n => Wire.signed n.toInt
  | .uint32, uint32 n => Wire.varint n.toNat
  | .uint64, uint64 n => Wire.varint n.toNat
  | .sint32, int32 n => Wire.varint (Wire.zigzag n.toInt)
  | .sint64, int64 n => Wire.varint (Wire.zigzag n.toInt)
  | .fixed32, uint32 n => Wire.fixed 4 n.toNat
  | .fixed64, uint64 n => Wire.fixed 8 n.toNat
  | .sfixed32, int32 n => Wire.fixed 4 n.toUInt32.toNat
  | .sfixed64, int64 n => Wire.fixed 8 n.toUInt64.toNat
  | .bool, bool b => Wire.varint (if b then 1 else 0)
  | .string, string s => Wire.delimited (utf8 s)
  | .bytes, bytes bs => Wire.delimited bs
  | _, _ => []

namespace Reader

/-- Reads a text. -/
def text : Reader WireFault String :=
  delimited.check fun bs =>
    match text? bs with
    | some s => .ok s
    | none => .error .notText

/-- Reads an integer of 32 bits. -/
def int32 : Reader WireFault Int32 := varint.map fun (n : Nat) => Int32.ofInt n

/-- Reads a value of the type behind its key. -/
def scalar : ScalarType → Reader WireFault Scalar
  | .double => (fixed 8 (by decide)).map fun n => .double (UInt64.ofNat n)
  | .float => (fixed 4 (by decide)).map fun n => .float (UInt32.ofNat n)
  | .int32 => int32.map .int32
  | .int64 => varint.map fun (n : Nat) => .int64 (Int64.ofInt n)
  | .uint32 => varint.map fun n => .uint32 (UInt32.ofNat n)
  | .uint64 => varint.map fun n => .uint64 (UInt64.ofNat n)
  | .sint32 => varint.map fun n => .int32 (Int32.ofInt (Wire.unzigzag (n % Numeral.span 32)))
  | .sint64 => varint.map fun n => .int64 (Int64.ofInt (Wire.unzigzag n))
  | .fixed32 => (fixed 4 (by decide)).map fun n => .uint32 (UInt32.ofNat n)
  | .fixed64 => (fixed 8 (by decide)).map fun n => .uint64 (UInt64.ofNat n)
  | .sfixed32 => (fixed 4 (by decide)).map fun n => .int32 (UInt32.ofNat n).toInt32
  | .sfixed64 => (fixed 8 (by decide)).map fun n => .int64 (UInt64.ofNat n).toInt64
  | .bool => varint.map fun n => .bool (n ≠ 0)
  | .string => text.map .string
  | .bytes => delimited.map .bytes

end Reader

end ProtoSchema
