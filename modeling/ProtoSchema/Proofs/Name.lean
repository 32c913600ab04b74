import ProtoSchema.Name
import ProtoSchema.ScalarType

/-!
# Absolute and qualified names

An absolute reference is a dot and a name (`absolute?_eq_some_iff`), so it is never the keyword of a
scalar type, and its only candidate is that name.
-/

namespace ProtoSchema

namespace Name

theorem absolute?_eq_some_iff {reference name : String} :
    absolute? reference = some name ↔ reference = "." ++ name := by
  unfold absolute?
  rw [← String.toList_inj, String.toList_append]
  show _ ↔ reference.toList = '.' :: name.toList
  split
  · next cs hcs =>
    rw [hcs, Option.some.injEq, List.cons.injEq, ← String.toList_inj, String.toList_ofList]
    constructor
    · intro h
      exact ⟨rfl, h⟩
    · intro h
      exact h.2
  · next hne =>
    constructor
    · intro h
      simp at h
    · intro h
      exact absurd h (hne name.toList)

@[simp] theorem absolute?_dot (name : String) : absolute? ("." ++ name) = some name :=
  absolute?_eq_some_iff.2 rfl

@[simp] theorem candidates_dot (scope name : String) : candidates scope ("." ++ name) = [name] := by
  simp [candidates]

theorem isPlain_iff {name : String} : isPlain name = true ↔ name ≠ "" ∧ '.' ∉ name.toList := by
  simp [isPlain]

end Name

namespace ScalarType

/-- A keyword does not begin with a dot. -/
@[simp] theorem absolute?_keyword (t : ScalarType) : Name.absolute? t.keyword = none := by
  cases t <;> decide

@[simp] theorem ofKeyword?_dot (name : String) : ofKeyword? ("." ++ name) = none := by
  cases h : ofKeyword? ("." ++ name) with
  | none => rfl
  | some t =>
    have hk := absolute?_keyword t
    rw [keyword_of_ofKeyword? h, Name.absolute?_dot] at hk
    exact absurd hk (Option.some_ne_none name)

end ScalarType

end ProtoSchema
