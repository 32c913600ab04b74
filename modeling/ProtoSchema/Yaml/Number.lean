import ProtoSchema.Decimal.Text

/-!
# Numbers of YAML

Integers and floating-point numbers of 64 bits, as plain scalars write them and as text.
-/

namespace ProtoSchema.Yaml

/-- A number. -/
inductive Number
  | int (n : Int)
  | float (bits : UInt64)
deriving DecidableEq, Repr

namespace Number

/-! ## Reading -/

/-- Whether there are only digits, two or more, and the first is a zero. -/
def hasLeadingZero : List Char → Bool
  | '0' :: c :: rest => (c :: rest).all (Numeral.isDigit 10)
  | _ => false

/-- The characters behind a sign, if there is one. -/
def unsigned : List Char → List Char
  | '+' :: rest => rest
  | '-' :: rest => rest
  | cs => cs

/-- A natural number: behind `0x`, `0o` or `0b` in radix 16, 8 or 2, else in decimal without zeros in
front. -/
def natural? : List Char → Option Nat
  | '0' :: 'x' :: digits => Numeral.natural? 16 digits
  | '0' :: 'o' :: digits => Numeral.natural? 8 digits
  | '0' :: 'b' :: digits => Numeral.natural? 2 digits
  | digits => if hasLeadingZero digits then none else Numeral.natural? 10 digits

/-- An integer with an optional sign. -/
def integer? : List Char → Option Int
  | '+' :: rest => (natural? rest).map Int.ofNat
  | '-' :: rest => (natural? rest).map fun n => -(n : Int)
  | cs => (natural? cs).map Int.ofNat

/-- Whether the integer fits in so many bits, with or without a sign. -/
def isWord (bits : Nat) (n : Int) : Bool :=
  -Numeral.span (bits - 1) ≤ n && n < Numeral.span bits

/-- A floating-point number: a word for what is not finite, or a finite number. -/
def float? (word : String) : Option Nat :=
  let f := Binary.double
  if [".inf", ".Inf", ".INF", "+.inf", "+.Inf", "+.INF"].contains word then some f.infinity
  else if ["-.inf", "-.Inf", "-.INF"].contains word then some (f.signBit + f.infinity)
  else if [".nan", ".NaN", ".NAN"].contains word then some f.quietNaN
  else (Decimal.toBits? f word).filter f.isFinite

/-! ## Text -/

/-- Numbers from 0.00001 up to, and without, 10 to the 16th are written positionally. -/
def style : Decimal.Style where
  lowest := -4
  highest := 16
  tie := .even
  nan := ".nan"
  infinite := ".inf"
  minusInfinite := "-.inf"

/-- The text of a number. -/
def text : Number → String
  | int n => toString n
  | float bits => Decimal.ofBits Binary.double style bits.toNat

/-! ## Equality -/

/-- Whether both are the same number; what is not a number counts as the same as itself. -/
def same : Number → Number → Bool
  | int m, int n => m = n
  | float a, float b =>
    let f := Binary.double
    (f.isNaN a.toNat && f.isNaN b.toNat) || f.equal a.toNat b.toNat
  | _, _ => false

end Number

end ProtoSchema.Yaml
