/-!
# Qualified names

A qualified name is the name of a scope, a dot and a name that holds no dot. The scopes around a name
are its parts in front of a dot; a relative reference is tried in each of them, innermost first, and
last as it stands.
-/

namespace ProtoSchema.Name

/-- The name in the scope. The empty scope adds nothing. -/
def qualify (scope name : String) : String :=
  if scope = "" then name else scope ++ "." ++ name

/-- Whether the name is one part of a qualified name. -/
def isPlain (name : String) : Bool := name ≠ "" ∧ '.' ∉ name.toList

/-- What stands in front of the dots of a name that is given backwards, the longest first. -/
def outward : List Char → List (List Char)
  | [] => []
  | c :: rest => if c = '.' then rest :: outward rest else outward rest

/-- The name and the scopes around it, innermost first. -/
def scopes (name : String) : List String :=
  let back := name.toList.reverse
  ((back :: outward back).filter (· ≠ [])).map fun cs => String.ofList cs.reverse

/-- The absolute name that the reference gives, if it begins with a dot. -/
def absolute? (reference : String) : Option String :=
  match reference.toList with
  | '.' :: name => some (String.ofList name)
  | _ => none

/-- The full names that a reference from within the scope may mean, in the order they are tried. -/
def candidates (scope reference : String) : List String :=
  match absolute? reference with
  | some name => [name]
  | none => (scopes scope).map (qualify · reference) ++ [reference]

end ProtoSchema.Name
