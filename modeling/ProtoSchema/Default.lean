import ProtoSchema.Decimal.Text
import ProtoSchema.Scalar
import ProtoSchema.Text.Escape

/-!
# Declared defaults

A default is declared as text: a decimal or hexadecimal integer, a floating-point number, `true` or
`false`, a string as it is, or an escaped byte string. `Scalar.ofDefault` reads it for a scalar type.
-/

namespace ProtoSchema

/-- Why a declared default was refused. -/
inductive DefaultFault
  | notFloat
  | notInteger
  /-- The integer, as written or by value, does not fit the type. -/
  | outOfRange (shown : String)
  | notBool
  | notEscaped (e : Text.EscapeError)
  | notEnumValue (enum : String)
  | repeatedField
  | messageField
deriving DecidableEq, Repr

/-- The wording of a fault. -/
def DefaultFault.message : DefaultFault → String
  | notFloat => "not a floating point number"
  | notInteger => "not an integer"
  | outOfRange shown => shown ++ " out of range"
  | notBool => "expected true or false"
  | notEscaped e => e.message
  | notEnumValue enum => "not a value of enum " ++ enum
  | repeatedField => "repeated fields cannot declare a default"
  | messageField => "message fields cannot declare a default"

namespace Default

/-- A number without a sign, in decimal or behind `0x` in hexadecimal. -/
def natural? : List Char → Option Nat
  | '0' :: 'x' :: digits => Numeral.natural? 16 digits
  | '0' :: 'X' :: digits => Numeral.natural? 16 digits
  | digits => Numeral.natural? 10 digits

/-- Whether there is a minus sign, and the number behind it. -/
def signed? : List Char → Option (Bool × Nat)
  | '-' :: digits => (natural? digits).map (true, ·)
  | digits => (natural? digits).map (false, ·)

/-- An integer. Numbers of more than 128 bits are no integers, and those that only an unsigned word
of 128 bits can hold are out of every range. -/
def integer (text : String) : Except DefaultFault Int :=
  match signed? text.toList with
  | none => .error .notInteger
  | some (negative, n) =>
    if Numeral.span 128 ≤ n then .error .notInteger
    else if (if negative then Numeral.span 127 < n else Numeral.span 127 ≤ n) then .error (.outOfRange text)
    else .ok (if negative then -(n : Int) else n)

/-- An integer from `low` up to, and without, `high`. -/
def integerIn (low high : Int) (text : String) : Except DefaultFault Int :=
  match integer text with
  | .error e => .error e
  | .ok n => if low ≤ n ∧ n < high then .ok n else .error (.outOfRange (toString n))

/-- The bits of a floating-point number. -/
def float (f : Binary.Format) (text : String) : Except DefaultFault Nat :=
  match Decimal.toBits? f text with
  | some bits => .ok bits
  | none => .error .notFloat

end Default

/-- The value that the text declares for a field of the scalar type. -/
def Scalar.ofDefault (t : ScalarType) (text : String) : Except DefaultFault Scalar :=
  match t with
  | .double => (Default.float Binary.double text).map fun n => double (UInt64.ofNat n)
  | .float => (Default.float Binary.single text).map fun n => float (UInt32.ofNat n)
  | .int32 | .sint32 | .sfixed32 =>
    (Default.integerIn (-Numeral.span 31) (Numeral.span 31) text).map fun n => int32 (Int32.ofInt n)
  | .int64 | .sint64 | .sfixed64 =>
    (Default.integerIn (-Numeral.span 63) (Numeral.span 63) text).map fun n => int64 (Int64.ofInt n)
  | .uint32 | .fixed32 =>
    (Default.integerIn 0 (Numeral.span 32) text).map fun n => uint32 (UInt32.ofNat n.toNat)
  | .uint64 | .fixed64 =>
    (Default.integerIn 0 (Numeral.span 64) text).map fun n => uint64 (UInt64.ofNat n.toNat)
  | .bool =>
    if text = "true" then .ok (bool true)
    else if text = "false" then .ok (bool false)
    else .error .notBool
  | .string => .ok (string text)
  | .bytes =>
    match Text.unescape text with
    | .ok bs => .ok (bytes bs)
    | .error e => .error (.notEscaped e)

end ProtoSchema
