import ProtoSchema.Descriptor.Basic
import ProtoSchema.Descriptor.Error
import ProtoSchema.Pool.Decls

/-!
# Descriptors and pools

A pool is described by its declarations, and descriptors that describe declarations are linked to a
pool. Descriptors must be complete where declarations are: names, types and numbers are there, and
references are absolute. After linking, each reference must have met a type of the form that its
field's type says.
-/

namespace ProtoSchema

/-! ## From a pool -/

/-- The type of a field with the declared type, which is a scalar keyword or absolute. -/
def Pool.fieldType (p : Pool) (typeName : String) : Descriptor.FieldType :=
  match ScalarType.ofKeyword? typeName with
  | some t => .scalar t
  | none =>
    match (Name.absolute? typeName).bind p.find? with
    | some (.enum _) => .enum
    | _ => .message

/-- The description of a declared field. -/
def FieldDecl.describe (p : Pool) (f : FieldDecl) : Descriptor.Field where
  name? := some f.name
  number? := some (Int32.ofInt f.number)
  label? := some f.label.number
  type? := some (p.fieldType f.typeName).number
  typeName? := if (ScalarType.ofKeyword? f.typeName).isSome then none else some f.typeName
  default? := f.default?

/-- The description of a declared enum. -/
def EnumDecl.describe (e : EnumDecl) : Descriptor.Enum where
  name? := some e.name
  values := e.values.map fun v => ⟨some v.name, some v.number⟩

namespace MessageDecl

mutual

/-- The description of a declared message. -/
def describe (p : Pool) : MessageDecl → Descriptor.Message
  | ⟨name, fields, messages, enums⟩ =>
    ⟨some name, fields.map (·.describe p), describeList p messages, enums.map (·.describe)⟩

def describeList (p : Pool) : List MessageDecl → List Descriptor.Message
  | [] => []
  | m :: ms => m.describe p :: describeList p ms

end

end MessageDecl

/-- The description of a declared record. An empty package is left out. -/
def RecordDecl.describe (p : Pool) (r : RecordDecl) : Descriptor.File where
  name? := some r.name
  package? := if r.package = "" then none else some r.package
  dependencies := r.dependencies
  messages := MessageDecl.describeList p r.messages
  enums := r.enums.map (·.describe)

/-- The descriptors of the pool's records. -/
def Pool.describe (p : Pool) : List Descriptor.File := p.decls.map (·.describe p)

/-! ## To declarations -/

namespace Descriptor

/-- The name of a part, which is there and not empty. -/
def named (part : Part) : Option String → Except DescriptorError String
  | some name => if name = "" then .error (.unnamed part) else .ok name
  | none => .error (.unnamed part)

/-- A refusal as an error of the record. -/
def inRecord {α : Type} (record : String) : Except DefinitionError α → Except DescriptorError α
  | .ok a => .ok a
  | .error e => .error (.definition record e)

namespace Field

/-- The label, which is optional where it is missing. -/
def label (f : Field) : Except FieldFault Label :=
  match f.label? with
  | none => .ok .optional
  | some n =>
    match Label.ofNumber? n with
    | some label => .ok label
    | none => .error (.unknownLabel n)

/-- The declared type: the keyword of a scalar type, or an absolute reference. -/
def typeName (f : Field) : Except FieldFault String :=
  match f.type? with
  | none => .error .missingType
  | some n =>
    match FieldType.ofNumber? n with
    | none => .error (.unknownType n)
    | some (.scalar t) => .ok t.keyword
    | some .group => .error .group
    | some _ =>
      match f.typeName? with
      | none => .error .missingTypeName
      | some reference =>
        if (Name.absolute? reference).isSome then .ok reference else .error (.notAbsolute reference)

/-- The number, which is there and not negative. -/
def number (f : Field) : Except FieldFault Nat :=
  match f.number? with
  | none => .error (.invalidNumber none)
  | some n => if n < 0 then .error (.invalidNumber (some n)) else .ok n.toInt.toNat

/-- The declaration that the description of a field of the message gives. -/
def toDecl (record message : String) (f : Field) : Except DescriptorError FieldDecl := do
  let name ← named .field f.name?
  let fault {α : Type} : Except FieldFault α → Except DescriptorError α
    | .ok a => .ok a
    | .error e => .error (.field message name e)
  let label ← fault f.label
  let typeName ← fault f.typeName
  let number ← fault f.number
  let decl ← inRecord record (FieldDecl.make label typeName name number)
  return { decl with default? := f.default? }

end Field

/-- The declaration that the description of an enum gives. A missing number is zero. -/
def Enum.toDecl (record : String) (e : Enum) : Except DescriptorError EnumDecl := do
  let name ← named .enum e.name?
  e.values.foldlM (fun decl v => do
    inRecord record (decl.addValue (← named .value v.name?) (v.number?.getD 0))) ⟨name, []⟩

namespace Message

mutual

/-- The declaration that the description of a message gives. -/
def toDecl (record : String) : Message → Except DescriptorError MessageDecl
  | ⟨name?, fields, messages, enums⟩ => do
    let name ← named .message name?
    let decl ← fields.foldlM (fun decl f => do
      inRecord record (decl.addField (← f.toDecl record name))) (MessageDecl.empty name)
    let decl ← enums.foldlM (fun decl e => do
      inRecord record (decl.addEnum (← e.toDecl record))) decl
    nest record decl messages

/-- The declaration with the described messages nested in it. -/
def nest (record : String) (decl : MessageDecl) :
    List Message → Except DescriptorError MessageDecl
  | [] => .ok decl
  | m :: ms => do
    let nested ← m.toDecl record
    let decl ← inRecord record (decl.addMessage nested)
    nest record decl ms

end

end Message

/-- The declaration that the description of a file gives. -/
def File.toDecl (f : File) : Except DescriptorError RecordDecl := do
  let name := f.name?.getD ""
  let messages ← f.messages.mapM (·.toDecl name)
  let enums ← f.enums.mapM (·.toDecl name)
  return ⟨name, f.package?.getD "", f.dependencies, messages, enums⟩

/-! ## Forms of references -/

namespace Field

/-- The form of type that the field's type calls for. -/
def form? (f : Field) : Option TypeForm :=
  match f.type?.bind FieldType.ofNumber? with
  | some .message => some .message
  | some .enum => some .enum
  | _ => none

/-- The form of the type that the field's reference met. -/
def metForm? (m : MessageDef) (f : Field) : Option TypeForm :=
  match f.number with
  | .error _ => none
  | .ok number =>
    match (m.field? number).map FieldDef.kind with
    | some (.message _) => some .message
    | some (.enum _) => some .enum
    | _ => none

/-- Whether the reference met what it called for. -/
def checkForm (m : MessageDef) (f : Field) : Except DescriptorError Unit :=
  match f.form? with
  | none => .ok ()
  | some form =>
    if f.metForm? m = some form then .ok ()
    else
      .error (.wrongForm m.fullName (f.name?.getD "") (f.typeName?.getD "") form)

end Field

namespace Message

mutual

/-- Checks the references of a message and of those nested in it. -/
def checkForms (p : Pool) (scope : String) : Message → Except DescriptorError Unit
  | ⟨name?, fields, messages, _⟩ =>
    let fullName := Name.qualify scope (name?.getD "")
    match p.find? fullName with
    | some (.message i) => do
      fields.forM (·.checkForm (p.message i))
      checkFormsList p fullName messages
    | _ => .error (.missing fullName)

def checkFormsList (p : Pool) (scope : String) : List Message → Except DescriptorError Unit
  | [] => .ok ()
  | m :: ms => do
    m.checkForms p scope
    checkFormsList p scope ms

end

end Message

end Descriptor

/-! ## To a pool -/

/-- The pool that the descriptors describe. The last one is the schema's own. -/
def Pool.ofDescriptors (files : List Descriptor.File) : Except DescriptorError Pool :=
  if files = [] then .error .noRecords
  else do
    let decls ← files.mapM (·.toDecl)
    match Pool.link decls with
    | .error e => .error (.link e)
    | .ok p =>
      files.forM fun f => Descriptor.Message.checkFormsList p (f.package?.getD "") f.messages
      return p

end ProtoSchema
