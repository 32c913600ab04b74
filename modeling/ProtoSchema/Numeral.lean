/-!
# Numerals

Digits up to radix 16 and the number that a run of them writes, most significant digit first.
-/

namespace ProtoSchema.Numeral

/-- The value of a digit, in either case for the letters; 16 for a character that is no digit. -/
def digitValue (c : Char) : Nat :=
  let n := c.toNat
  if 0x30 ≤ n && n ≤ 0x39 then n - 0x30
  else if 0x61 ≤ n && n ≤ 0x66 then n - 0x61 + 10
  else if 0x41 ≤ n && n ≤ 0x46 then n - 0x41 + 10
  else 16

/-- Whether the character is a digit of the radix, which is at most 16. -/
def isDigit (radix : Nat) (c : Char) : Bool := digitValue c < radix

/-- The number that the digits write. -/
def value (radix : Nat) (digits : List Char) : Nat :=
  digits.foldl (fun n c => n * radix + digitValue c) 0

/-- The number that the characters write, if they are one or more digits of the radix. -/
def natural? (radix : Nat) (cs : List Char) : Option Nat :=
  if cs ≠ [] ∧ cs.all (isDigit radix) then some (value radix cs) else none

/-- How many natural numbers have at most so many binary digits. -/
def span (bits : Nat) : Nat := Nat.pow 2 bits

/-- The digit of a value below 16, in lower case. -/
def digit (n : Nat) : Char :=
  if n < 10 then Char.ofNat (0x30 + n) else Char.ofNat (0x61 + n - 10)

/-- A digit has the value it was made from. -/
theorem digitValue_digit {n : Nat} (h : n < 16) : digitValue (digit n) = n := by
  have all : ∀ m ∈ List.range 16, digitValue (digit m) = m := by decide
  exact all n (List.mem_range.2 h)

end ProtoSchema.Numeral
