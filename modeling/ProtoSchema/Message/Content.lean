import ProtoSchema.Scalar

/-!
# Message contents

The content of a message is the list of its values in the order in which they are encoded: each with
the number of its field, by increasing number, the elements of a repeated field one after the other. A
field that is not in the list is not set.

Contents know nothing of types; enum values are indices into the values of their enum.
-/

namespace ProtoSchema

/-- One value of a field. -/
inductive Element
  | scalar (value : Scalar)
  | enum (index : Nat)
  | message (content : List (Nat × Element))
deriving Repr, Inhabited

/-- The values of a message by field number. -/
abbrev Content := List (Nat × Element)

namespace Content

variable {α : Type}

/-- The values of a field. -/
def values (number : Nat) (c : List (Nat × α)) : List α := (c.filter (·.1 = number)).map (·.2)

/-- Whether a field has a value. -/
def has (number : Nat) (c : List (Nat × α)) : Bool := c.any (·.1 = number)

/-- Takes away the values of a field. -/
def clear (number : Nat) (c : List (Nat × α)) : List (Nat × α) := c.filter (·.1 ≠ number)

/-- Puts values behind those that a field has. -/
def append (number : Nat) (xs : List α) (c : List (Nat × α)) : List (Nat × α) :=
  c.takeWhile (·.1 ≤ number) ++ xs.map (number, ·) ++ c.dropWhile (·.1 ≤ number)

/-- Puts values in the place of those that a field has. -/
def replace (number : Nat) (xs : List α) (c : List (Nat × α)) : List (Nat × α) :=
  append number xs (clear number c)

/-- The numbers of the fields that have values, in order. -/
def numbers (c : List (Nat × α)) : List Nat := (c.map (·.1)).eraseDups

/-- The fields that have values, with their values. -/
def groups (c : List (Nat × α)) : List (Nat × List α) := (numbers c).map fun n => (n, values n c)

end Content

end ProtoSchema
