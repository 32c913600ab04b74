import ProtoSchema.Pool.Decls

/-!
# Schema text

A pool as text: the full names of its types, then its records in declaration syntax with absolute
references.
-/

namespace ProtoSchema

/-- Spaces in front of a line at the depth. -/
def indent (depth : Nat) : String := String.ofList (List.replicate (2 * depth) ' ')

/-- A field as a line. -/
def FieldDecl.render (depth : Nat) (f : FieldDecl) : String :=
  let default := match f.default? with
    | some text => " [default = " ++ text ++ "]"
    | none => ""
  s!"{indent depth}{f.label.keyword} {f.typeName} {f.name} = {f.number}{default};\n"

/-- An enum as lines. -/
def EnumDecl.render (depth : Nat) (e : EnumDecl) : String :=
  let value (v : ValueDecl) := s!"{indent (depth + 1)}{v.name} = {v.number.toInt};\n"
  s!"{indent depth}enum {e.name} \x7b\n" ++ String.join (e.values.map value) ++
    s!"{indent depth}\x7d\n"

namespace MessageDecl

mutual

/-- A message as lines: its fields, its enums, its nested messages. -/
def render (depth : Nat) : MessageDecl → String
  | ⟨name, fields, messages, enums⟩ =>
    s!"{indent depth}message {name} \x7b\n" ++
      String.join (fields.map (·.render (depth + 1))) ++
      String.join (enums.map (·.render (depth + 1))) ++
      renderList (depth + 1) messages ++
      s!"{indent depth}\x7d\n"

def renderList (depth : Nat) : List MessageDecl → String
  | [] => ""
  | m :: ms => m.render depth ++ renderList depth ms

end

end MessageDecl

/-- A record as lines. -/
def RecordDecl.render (r : RecordDecl) : String :=
  s!"// {r.name}\n" ++
    (if r.package = "" then "" else s!"package {r.package};\n") ++
    String.join (r.dependencies.map fun d => s!"import \"{d}\";\n") ++
    MessageDecl.renderList 0 r.messages ++
    String.join (r.enums.map (·.render 0))

/-- A pool as lines. -/
def Pool.render (p : Pool) : String :=
  let messages := String.intercalate ", " (p.messages.map (·.fullName))
  let enums := String.intercalate ", " (p.enums.map (·.fullName))
  s!"types: [{messages}]\nenums: [{enums}]\n" ++ String.join (p.decls.map RecordDecl.render)

end ProtoSchema
