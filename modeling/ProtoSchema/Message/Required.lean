import ProtoSchema.Message.Access

/-!
# Required fields

The required fields that a message and the messages in it lack, by their paths: names joined by dots,
with the index of the element behind the name of a repeated field.
-/

namespace ProtoSchema

namespace Required

/-- What a field lacks, given what each of its values lacks. -/
def field (f : FieldDef) (lacks : List (List String)) : List String :=
  if lacks = [] then if f.isRequired then [f.name] else []
  else if f.isRepeated then
    lacks.zipIdx.flatMap fun (paths, i) => paths.map fun path => s!"{f.name}[{i}].{path}"
  else lacks.flatMap fun paths => paths.map fun path => s!"{f.name}.{path}"

/-- What a message lacks, given what each of its values lacks, in the order of its fields. -/
def fields (m : MessageDef) (lacks : List (Nat × List String)) : List String :=
  m.fields.flatMap fun f => field f (Content.values f.number lacks)

end Required

mutual

/-- The paths of the required fields that a value of the kind lacks. -/
def Element.missing (p : Pool) (kind : FieldKind) : Element → List String
  | .message c => Required.fields (p.message kind.index) (Content.missing p kind.index c)
  | .scalar _ => []
  | .enum _ => []

/-- For each value of a message of the type, the paths that it lacks. -/
def Content.missing (p : Pool) (t : Nat) : Content → List (Nat × List String)
  | [] => []
  | (n, e) :: rest =>
    (n, match (p.message t).field? n with
      | some f => e.missing p f.kind
      | none => []) :: Content.missing p t rest

end

namespace Message

/-- The paths of the required fields that the message lacks. -/
def missing (m : Message) : List String :=
  Element.missing m.type.schema.pool (.message m.type.index) (.message m.content)

/-- Whether every required field is set, in nested messages too. -/
def isInitialized (m : Message) : Bool := m.missing.isEmpty

/-- The message itself, if it lacks nothing. -/
def finish (m : Message) : Except AccessError Message :=
  if m.missing = [] then .ok m else .error (.missingFields m.type.fullName m.missing)

end Message

end ProtoSchema
