/-!
# Field labels
-/

namespace ProtoSchema

/-- How many values a field holds. -/
inductive Label
  | required
  | optional
  | repeated
deriving DecidableEq, Repr, Inhabited

namespace Label

/-- The word that writes the label in a declaration. -/
def keyword : Label → String
  | required => "required"
  | optional => "optional"
  | repeated => "repeated"

/-- The label that the word writes. -/
def ofKeyword? (word : String) : Option Label :=
  [required, optional, repeated].find? (·.keyword = word)

end Label

end ProtoSchema
