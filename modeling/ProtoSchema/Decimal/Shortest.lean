import ProtoSchema.Decimal.Basic

/-!
# Shortest decimals

The shortest decimal number that reads back as a given binary floating-point number. For one digit,
two digits and so on, the two decimals of that many digits next to the number are tried; the first
count for which one reads back is taken, and of two that do the nearer. The exact decimal value, which
always reads back, stands behind the search.
-/

namespace ProtoSchema.Decimal

/-- Which of two equally near decimals is taken. -/
inductive Tie
  | up
  | even
deriving DecidableEq, Repr

/-- All decimal digits of a finite magnitude. -/
def exact (f : Binary.Format) (magnitude : Nat) : Decimal :=
  let m := f.significand magnitude
  let e := f.scale magnitude
  if 0 ≤ e then ⟨m * Numeral.span e.toNat, 0⟩ else ⟨m * Nat.pow 5 (-e).toNat, e⟩

/-- Of the multiples of `10 ^ e` next to the magnitude, the one that reads back. -/
def neighbour? (f : Binary.Format) (tie : Tie) (magnitude : Nat) (e : Int) : Option Decimal :=
  let x := (f.value magnitude).mulPow 10 (-e)
  let below : Decimal := ⟨x.floor, e⟩
  let above : Decimal := ⟨x.floor + 1, e⟩
  let rest := x.num % x.den
  let preferBelow := 2 * rest < x.den ∨ (2 * rest = x.den ∧ tie = .even ∧ x.floor % 2 = 0)
  if below.nearest f = magnitude then
    if above.nearest f = magnitude ∧ ¬preferBelow then some above else some below
  else if above.nearest f = magnitude then some above
  else none

/-- The first decimal that reads back, on the grids `10 ^ (e - 1)`, `10 ^ (e - 2)` and so on, of which
there are `fuel`. -/
def search (f : Binary.Format) (tie : Tie) (magnitude : Nat) : (fuel : Nat) → (e : Int) → Decimal
  | 0, _ => exact f magnitude
  | fuel + 1, e =>
    (neighbour? f tie magnitude (e - 1)).getD (search f tie magnitude fuel (e - 1))

/-- More digits than any number of the two formats needs. -/
def mostDigits : Nat := 17

/-- The shortest decimal that reads back as the finite magnitude. -/
def shortest (f : Binary.Format) (tie : Tie) (magnitude : Nat) : Decimal :=
  (search f tie magnitude mostDigits (exact f magnitude).position).normalize

end ProtoSchema.Decimal
