import ProtoSchema.Bytes

/-!
# Wire types and faults

What the parts of the wire format are, and what can be wrong with them.
-/

namespace ProtoSchema

/-- How long a field's value is and how it is set out. -/
inductive WireType
  | varint
  | eightBytes
  | delimited
  | startGroup
  | endGroup
  | fourBytes
deriving DecidableEq, Repr

namespace WireType

/-- The number in the three low bits of a key. -/
def number : WireType → Nat
  | varint => 0
  | eightBytes => 1
  | delimited => 2
  | startGroup => 3
  | endGroup => 4
  | fourBytes => 5

/-- The wire type with the number. -/
def ofNumber? : Nat → Option WireType
  | 0 => some varint
  | 1 => some eightBytes
  | 2 => some delimited
  | 3 => some startGroup
  | 4 => some endGroup
  | 5 => some fourBytes
  | _ => none

theorem ofNumber?_number (t : WireType) : ofNumber? t.number = some t := by cases t <;> rfl

/-- The name of the wire type. -/
def name : WireType → String
  | varint => "Varint"
  | eightBytes => "SixtyFourBit"
  | delimited => "LengthDelimited"
  | startGroup => "StartGroup"
  | endGroup => "EndGroup"
  | fourBytes => "ThirtyTwoBit"

end WireType

/-- Why bytes are not in the wire format, or do not fit a field. -/
inductive WireFault
  /-- A varint that does not end, or is larger than 64 bits. -/
  | invalidVarint
  /-- A key larger than 32 bits. -/
  | invalidKey (key : Nat)
  | invalidWireType (number : Nat)
  /-- A key for the field number zero. -/
  | zeroTag
  | wrongWireType (actual expected : WireType)
  /-- Fewer bytes are left than a value needs. -/
  | underflow
  /-- A value goes on behind the end of what holds it. -/
  | lengthExceeded
  | notText
  | recursionLimit
  | unexpectedEndGroup
deriving DecidableEq, Repr

/-- The wording of a fault. -/
def WireFault.message : WireFault → String
  | invalidVarint => "invalid varint"
  | invalidKey key => s!"invalid key value: {key}"
  | invalidWireType number => s!"invalid wire type value: {number}"
  | zeroTag => "invalid tag value: 0"
  | wrongWireType actual expected =>
    s!"invalid wire type: {actual.name} (expected {expected.name})"
  | underflow => "buffer underflow"
  | lengthExceeded => "delimited length exceeded"
  | notText => "invalid string value: data is not UTF-8 encoded"
  | recursionLimit => "recursion limit reached"
  | unexpectedEndGroup => "unexpected end group tag"

/-- The number and the wire type of a field's record. -/
structure Key where
  tag : Nat
  type : WireType
deriving DecidableEq, Repr

end ProtoSchema
