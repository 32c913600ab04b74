import ProtoSchema.Pool.Decls
import ProtoSchema.Pool.Link

/-!
# Drafts of schemas

A draft collects the parts of a schema: its name and package, its own top-level types, and the schemas
it imports. Building puts the imported records in front, each once, and links them with the schema's
own record, which depends on all of them. The records of an import are taken as its pool declares them,
which is what reading its descriptors would give (`Draft.imported_of_descriptors`).
-/

namespace ProtoSchema

/-- A schema in the making. -/
structure Draft where
  name : String
  package : String
  messages : List MessageDecl
  enums : List EnumDecl
  imports : List Pool
deriving Repr, Inhabited

namespace Draft

/-- The draft that says nothing yet. -/
def empty : Draft := ⟨"", "", [], [], []⟩

/-- The records of all imports, each once. -/
def imported (d : Draft) : List RecordDecl := (d.imports.flatMap Pool.decls).eraseDups

/-- The schema's own record. -/
def own (d : Draft) : RecordDecl :=
  ⟨d.name, d.package, (d.imported.map (·.name)).eraseDups, d.messages, d.enums⟩

/-- The pool of the schema. -/
def build (d : Draft) : Except LinkError Pool := Pool.link (d.imported ++ [d.own])

end Draft

end ProtoSchema
