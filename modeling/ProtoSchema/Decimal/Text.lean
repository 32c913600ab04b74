import ProtoSchema.Decimal.Shortest

/-!
# Floating-point numbers as text

Writing takes the shortest decimal that reads back and sets it out in one of two ways: positional
where the first digit stands in a given range, scientific elsewhere. Reading takes an optional sign,
digits with at most one point and an optional exponent, or a word for what is not finite.
-/

namespace ProtoSchema.Decimal

/-! ## Writing -/

/-- How numbers are written. -/
structure Style where
  /-- Positions of the first digit from which and up to which the writing is positional. -/
  lowest : Int
  highest : Int
  tie : Tie
  nan : String
  infinite : String
  minusInfinite : String

/-- The digits with a point in them, and at least one digit on either side of it. -/
def positional (digits : List Char) (position : Int) : List Char :=
  let n := digits.length
  let p := position.toNat
  if position ≤ 0 then '0' :: '.' :: List.replicate (-position).toNat '0' ++ digits
  else if n ≤ p then digits ++ List.replicate (p - n) '0' ++ ['.', '0']
  else digits.take p ++ '.' :: digits.drop p

/-- The first digit, the others behind a point, and the exponent of the first digit. -/
def scientific (digits : List Char) (position : Int) : List Char :=
  digits.take 1 ++ (if digits.length ≤ 1 then [] else '.' :: digits.drop 1) ++
    'e' :: (toString (position - 1)).toList

/-- A decimal that is not zero and has no trailing zeros. -/
def write (style : Style) (d : Decimal) : List Char :=
  let digits := digitsOf d.digits
  if style.lowest ≤ d.position ∧ d.position ≤ style.highest then positional digits d.position
  else scientific digits d.position

/-- The text of a floating-point number. -/
def ofBits (f : Binary.Format) (style : Style) (bits : Nat) : String :=
  if f.isNaN bits then style.nan
  else if f.isInfinite bits then if f.isNegative bits then style.minusInfinite else style.infinite
  else
    let m := f.magnitude bits
    let digits := if m = 0 then ['0', '.', '0'] else write style (shortest f style.tie m)
    String.ofList (if f.isNegative bits then '-' :: digits else digits)

/-! ## Reading -/

/-- An integer with an optional sign. -/
def integer? : List Char → Option Int
  | '-' :: digits => (Numeral.natural? 10 digits).map fun n => -(n : Int)
  | '+' :: digits => (Numeral.natural? 10 digits).map Int.ofNat
  | digits => (Numeral.natural? 10 digits).map Int.ofNat

/-- The exponent that ends a number. -/
def exponent? : List Char → Option Int
  | [] => some 0
  | c :: rest => if c = 'e' ∨ c = 'E' then integer? rest else none

/-- The digits behind the point, if there is one, and what follows. -/
def fraction : List Char → List Char × List Char
  | '.' :: rest => (rest.takeWhile (Numeral.isDigit 10), rest.dropWhile (Numeral.isDigit 10))
  | rest => ([], rest)

/-- A number without a sign. -/
def decimal? (cs : List Char) : Option Decimal :=
  let whole := cs.takeWhile (Numeral.isDigit 10)
  let (part, rest) := fraction (cs.dropWhile (Numeral.isDigit 10))
  if whole = [] ∧ part = [] then none
  else (exponent? rest).map fun e => ⟨Numeral.value 10 (whole ++ part), e - part.length⟩

/-- The magnitude that the characters write. The words do not depend on case. -/
def magnitude? (f : Binary.Format) (cs : List Char) : Option Nat :=
  let word := cs.map Char.toLower
  if word = "inf".toList ∨ word = "infinity".toList then some f.infinity
  else if word = "nan".toList then some f.quietNaN
  else (decimal? cs).map (nearest f)

/-- The floating-point number that the text writes, nearest to its value. -/
def toBits? (f : Binary.Format) (s : String) : Option Nat :=
  match s.toList with
  | '-' :: cs => (magnitude? f cs).map (f.signBit + ·)
  | '+' :: cs => magnitude? f cs
  | cs => magnitude? f cs

end ProtoSchema.Decimal
