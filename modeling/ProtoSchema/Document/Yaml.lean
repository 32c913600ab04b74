import ProtoSchema.Document.Basic
import ProtoSchema.Error
import ProtoSchema.Yaml.Reader

/-!
# Schema documents in YAML

A document is a record of `name`, `package`, `messages` and `enums`, each of which may be missing;
messages, fields, enums and values are records too. Members of other names are passed over.
-/

namespace ProtoSchema

open Yaml.NodeReader

/-- Reads a field. -/
def FieldEntry.read : Yaml.Node → Yaml.NodeReader FieldEntry :=
  record ["label", "type", "name", "number", "default"] fun members => do
    let number ← need members "number" natural
    if Numeral.span 32 ≤ number then failure
    return {
      label := ← getD members "label" text usualLabel
      typeName := ← need members "type" text
      name := ← need members "name" text
      number
      default? := ← getD members "default" value? none }

/-- Reads a value of an enum. -/
def ValueEntry.read : Yaml.Node → Yaml.NodeReader ValueEntry :=
  record ["name", "number"] fun members => do
    let number ← need members "number" integer
    if number < -Numeral.span 31 ∨ Numeral.span 31 ≤ number then failure
    return ⟨← need members "name" text, Int32.ofInt number⟩

/-- Reads an enum. -/
def EnumEntry.read : Yaml.Node → Yaml.NodeReader EnumEntry :=
  record ["name", "values"] fun members => do
    return ⟨← need members "name" text, ← getD members "values" (items ValueEntry.read) []⟩

/-- Reads a message in which others are nested less than `levels` deep. -/
def MessageEntry.read : (levels : Nat) → Yaml.Node → Yaml.NodeReader MessageEntry
  | 0, _ => failure
  | levels + 1, n =>
    n |> record ["name", "fields", "messages", "enums"] fun members => do
      return {
        name := ← need members "name" text
        fields := ← getD members "fields" (items FieldEntry.read) []
        messages := ← getD members "messages" (items (MessageEntry.read levels)) []
        enums := ← getD members "enums" (items EnumEntry.read) [] }

namespace Document

/-- Reads a document. -/
def read : Yaml.Node → Yaml.NodeReader Document :=
  record ["name", "package", "messages", "enums"] fun members => do
    return {
      name := ← getD members "name" text ""
      package := ← getD members "package" text ""
      messages := ← getD members "messages" (items (MessageEntry.read maxDepth)) []
      enums := ← getD members "enums" (items EnumEntry.read) [] }

/-- The document that the text states. -/
def ofYaml? (text : String) : Option Document := do
  run? read (← Yaml.Node.ofText? text)

/-- The schema that the text states. -/
def loadYaml (text : String) : Except SchemaError Pool := do
  match ofYaml? text with
  | none => .error .document
  | some d =>
    let draft ← d.draft.mapError .definition
    draft.build.mapError .link

end Document

end ProtoSchema
