import ProtoSchema.Binary
import ProtoSchema.Numeral

/-!
# Decimal numbers

A number with finitely many decimal digits, and the binary floating-point number nearest to it.
-/

namespace ProtoSchema

/-- The number `digits · 10 ^ exponent`. -/
structure Decimal where
  digits : Nat
  exponent : Int
deriving DecidableEq, Repr

namespace Decimal

/-- The value as a quotient. -/
def value (d : Decimal) : Binary.Quotient := (Binary.Quotient.mk d.digits 1).mulPow 10 d.exponent

/-- How many decimal digits a number has; zero has none. -/
def digitCount (n : Nat) : Nat := if n = 0 then 0 else digitCount (n / 10) + 1
termination_by n
decreasing_by omega

/-- The position of the first digit: the number lies in `[10 ^ (p - 1), 10 ^ p)`. -/
def position (d : Decimal) : Int := digitCount d.digits + d.exponent

/-- The decimal digits of a number, most significant first; none for zero. -/
def digitsOf (n : Nat) : List Char :=
  if n = 0 then [] else digitsOf (n / 10) ++ [Numeral.digit (n % 10)]
termination_by n
decreasing_by omega

/-- Numbers of this position and above are infinite in both formats, and those below its negative are
nearest to zero. -/
def reach : Int := 400

/-- The magnitude nearest to the number. Numbers far outside the format are settled by their
position, so that the cost does not grow with the exponent. -/
def nearest (f : Binary.Format) (d : Decimal) : Nat :=
  if d.digits = 0 then 0
  else if reach < d.position then f.infinity
  else if d.position < -reach then 0
  else Binary.nearest f d.value

/-- The same number without trailing zero digits. -/
def normalize (d : Decimal) : Decimal :=
  if d.digits = 0 ∨ d.digits % 10 ≠ 0 then d
  else normalize ⟨d.digits / 10, d.exponent + 1⟩
termination_by d.digits
decreasing_by omega

end Decimal

end ProtoSchema
