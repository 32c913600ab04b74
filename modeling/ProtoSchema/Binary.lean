import ProtoSchema.Numeral

/-!
# Binary floating-point numbers

The two IEEE 754 interchange formats, on their bit patterns as natural numbers. Without its sign bit
the pattern of a finite number is `m` or `m + 2 ^ fraction` units of `2 ^ scale`, and patterns are
ordered as the numbers are; `nearest` uses both facts to round a quotient to the pattern nearest to
it, a half going to the even neighbour.
-/

namespace ProtoSchema.Binary

/-- A format, by the widths of the fraction and the exponent. -/
structure Format where
  fraction : Nat
  exponent : Nat
deriving DecidableEq, Repr

/-- The format of 32 bits. -/
def single : Format := ⟨23, 8⟩

/-- The format of 64 bits. -/
def double : Format := ⟨52, 11⟩

namespace Format

/-- The pattern with only the sign bit set. -/
def signBit (f : Format) : Nat := Numeral.span (f.fraction + f.exponent)

/-- The pattern of positive infinity; the patterns above it that lack the sign bit are not numbers. -/
def infinity (f : Format) : Nat := (Numeral.span f.exponent - 1) * Numeral.span f.fraction

/-- The quiet pattern that is not a number. -/
def quietNaN (f : Format) : Nat := f.infinity + Numeral.span (f.fraction - 1)

/-- The exponent of the unit of the smallest numbers. -/
def leastScale (f : Format) : Int := 2 - Numeral.span (f.exponent - 1) - f.fraction

/-- The pattern without its sign bit. -/
def magnitude (f : Format) (bits : Nat) : Nat := bits % f.signBit

def isNegative (f : Format) (bits : Nat) : Bool := f.signBit ≤ bits

def isNaN (f : Format) (bits : Nat) : Bool := f.infinity < f.magnitude bits

def isInfinite (f : Format) (bits : Nat) : Bool := f.magnitude bits = f.infinity

def isFinite (f : Format) (bits : Nat) : Bool := f.magnitude bits < f.infinity

/-- Equality of numbers: the two zeros are equal, and what is not a number equals nothing. -/
def equal (f : Format) (a b : Nat) : Bool :=
  !f.isNaN a && !f.isNaN b && (a = b || (f.magnitude a = 0 && f.magnitude b = 0))

/-- How many units a finite magnitude is. -/
def significand (f : Format) (magnitude : Nat) : Nat :=
  if magnitude < Numeral.span f.fraction then magnitude
  else magnitude % Numeral.span f.fraction + Numeral.span f.fraction

/-- The exponent of the unit of a finite magnitude. -/
def scale (f : Format) (magnitude : Nat) : Int :=
  f.leastScale + (magnitude / Numeral.span f.fraction - 1 : Nat)

end Format

/-! ## Quotients -/

/-- The quotient of two natural numbers, of which the second is not zero. -/
structure Quotient where
  num : Nat
  den : Nat
deriving DecidableEq, Repr

namespace Quotient

/-- The quotient times a power of the base. -/
def mulPow (x : Quotient) (base : Nat) (e : Int) : Quotient :=
  if 0 ≤ e then ⟨x.num * base.pow e.toNat, x.den⟩ else ⟨x.num, x.den * base.pow (-e).toNat⟩

/-- The largest natural number that is not above the quotient. -/
def floor (x : Quotient) : Nat := x.num / x.den

/-- The natural number nearest to the quotient; a half goes to the even neighbour. -/
def round (x : Quotient) : Nat :=
  let rest := x.num % x.den
  if 2 * rest < x.den then x.floor
  else if x.den < 2 * rest then x.floor + 1
  else x.floor + x.floor % 2

/-- The exponent of the largest power of two that is not above the quotient, which is not zero. -/
def log2 (x : Quotient) : Int :=
  let e : Int := (x.num.log2 : Int) - x.den.log2
  let y := x.mulPow 2 (-e)
  if y.den ≤ y.num then e else e - 1

end Quotient

/-- The value of a finite magnitude. -/
def Format.value (f : Format) (magnitude : Nat) : Quotient :=
  (Quotient.mk (f.significand magnitude) 1).mulPow 2 (f.scale magnitude)

/-- The magnitude nearest to the quotient; from half a unit above the largest number on, infinity. -/
def nearest (f : Format) (x : Quotient) : Nat :=
  if x.num = 0 then 0
  else
    let scale := max (x.log2 - f.fraction) f.leastScale
    let units := (x.mulPow 2 (-scale)).round
    min ((scale - f.leastScale).toNat * Numeral.span f.fraction + units) f.infinity

end ProtoSchema.Binary
