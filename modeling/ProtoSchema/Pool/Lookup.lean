import ProtoSchema.Name
import ProtoSchema.Pool.Basic

/-!
# Looking up types

A type is found under its full name, under its name relative to the schema's package, or under its
short name if only one type of its form has it, in this order. One dot in front changes nothing.
-/

namespace ProtoSchema

/-- Why a look-up found nothing. -/
inductive LookupError
  | unknown (name : String)
  | ambiguous (name : String) (candidates : List String)
  | unknownValue (value enum : String)
deriving DecidableEq, Repr

/-- The wording of a look-up error. -/
def LookupError.message : LookupError → String
  | unknown name => s!"Not found: type {name}"
  | ambiguous name candidates =>
    s!"Not found: type {name} is ambiguous: " ++ String.intercalate ", " candidates
  | unknownValue value enum => s!"Not found: enum value {value} in {enum}"

namespace Lookup

/-- The indices of the types with the short name, among types given by short and full name. -/
def shortMatches (types : List (String × String)) (name : String) : List Nat :=
  (List.range types.length).filter fun i => (types[i]?.map (·.1)) = some name

/-- The index of the type that the name means, among types given by short and full name. -/
def find (package : String) (types : List (String × String)) (name : String) :
    Except LookupError Nat :=
  let name := (Name.absolute? name).getD name
  match types.findIdx? (·.2 = name) with
  | some i => .ok i
  | none =>
    match types.findIdx? fun t => package ≠ "" ∧ t.2 = Name.qualify package name with
    | some i => .ok i
    | none =>
      match shortMatches types name with
      | [i] => .ok i
      | [] => .error (.unknown name)
      | many => .error (.ambiguous name (many.map fun i => (types[i]?.map (·.2)).getD ""))

end Lookup

namespace Pool

/-- The message that the name means. -/
def findMessage (p : Pool) (name : String) : Except LookupError Nat :=
  Lookup.find p.own.package (p.messages.map fun m => (m.name, m.fullName)) name

/-- The enum that the name means. -/
def findEnum (p : Pool) (name : String) : Except LookupError Nat :=
  Lookup.find p.own.package (p.enums.map fun e => (e.name, e.fullName)) name

end Pool

end ProtoSchema
