import ProtoSchema.Schema.Draft
import ProtoSchema.Yaml.Value

/-!
# Schema documents

A schema as a document states it, and the draft that it amounts to. A document may state what no
schema can hold; `Document.draft` declares its entries one after the other and so refuses the first
that does not fit.
-/

namespace ProtoSchema

/-! ## Entries -/

/-- A field as a document states it. -/
structure FieldEntry where
  label : String
  typeName : String
  name : String
  number : Nat
  /-- The default, unless it is null. -/
  default? : Option Yaml.Value
deriving Repr, Inhabited

/-- A value of an enum as a document states it. -/
structure ValueEntry where
  name : String
  number : Int32
deriving DecidableEq, Repr, Inhabited

/-- An enum as a document states it. -/
structure EnumEntry where
  name : String
  values : List ValueEntry
deriving DecidableEq, Repr, Inhabited

/-- A message as a document states it, with what is nested in it. -/
structure MessageEntry where
  name : String
  fields : List FieldEntry
  messages : List MessageEntry
  enums : List EnumEntry
deriving Repr, Inhabited

/-- A schema as a document states it. -/
structure Document where
  name : String
  package : String
  messages : List MessageEntry
  enums : List EnumEntry
deriving Repr, Inhabited

/-! ## Declarations -/

namespace FieldEntry

/-- The label of a field that states none. -/
def usualLabel : String := "optional"

/-- The default as a declaration writes it; collections and tagged values are none. -/
def defaultText (f : FieldEntry) (message : String) : Except DefinitionError (Option String) :=
  match f.default? with
  | none | some .null => .ok none
  | some (.bool b) => .ok (some (if b then "true" else "false"))
  | some (.number n) => .ok (some n.text)
  | some (.string s) => .ok (some s)
  | some v => .error (.defaultNotScalar message f.name v.shown)

/-- The declaration of a field of the message. -/
def declare (message : String) (f : FieldEntry) : Except DefinitionError FieldDecl := do
  let text? ← f.defaultText message
  let decl ← FieldDecl.make (← Label.parse f.label) f.typeName f.name f.number
  return match text? with
    | some text => decl.withDefault text
    | none => decl

end FieldEntry

/-- The declaration of an enum. -/
def EnumEntry.declare (e : EnumEntry) : Except DefinitionError EnumDecl :=
  e.values.foldlM (fun decl v => decl.addValue v.name v.number) ⟨e.name, []⟩

/-- The message with the fields in it. -/
def MessageDecl.addFields (m : MessageDecl) (fields : List FieldEntry) :
    Except DefinitionError MessageDecl :=
  fields.foldlM (fun m f => do m.addField (← f.declare m.name)) m

/-- The message with the enums nested in it. -/
def MessageDecl.addEnums (m : MessageDecl) (enums : List EnumEntry) :
    Except DefinitionError MessageDecl :=
  enums.foldlM (fun m e => do m.addEnum (← e.declare)) m

mutual

/-- The declaration of a message: its fields, then its enums, then what is nested in it. -/
def MessageEntry.declare : MessageEntry → Except DefinitionError MessageDecl
  | ⟨name, fields, messages, enums⟩ => do
    let m ← (MessageDecl.empty name).addFields fields
    let m ← m.addEnums enums
    addMessages m messages

/-- The message with the others nested in it. -/
def MessageEntry.addMessages (m : MessageDecl) :
    List MessageEntry → Except DefinitionError MessageDecl
  | [] => .ok m
  | e :: rest => do addMessages (← m.addMessage (← e.declare)) rest

end

/-- The draft of the schema that the document states. -/
def Document.draft (d : Document) : Except DefinitionError Draft := do
  let messages ← d.messages.mapM (·.declare)
  let enums ← d.enums.mapM (·.declare)
  return ⟨d.name, d.package, messages, enums, []⟩

end ProtoSchema
