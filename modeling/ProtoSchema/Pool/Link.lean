import ProtoSchema.Default
import ProtoSchema.Pool.Layout

/-!
# Linking

From declared records to a pool. First every name is entered, in the order of declaration; names are
plain, enums have values, and no full name is entered twice. Then every field is resolved in the pool
of all names, so that a reference may point forward or to its own message.

The last record is the schema's own and the others are imported, which decides how a name that was
entered twice is reported.
-/

namespace ProtoSchema

/-- The two forms of named types. -/
inductive TypeForm
  | message
  | enum
deriving DecidableEq, Repr

/-- Why declared records make no pool. -/
inductive LinkError
  | notPlain (form : TypeForm) (name scope : String)
  | noValues (enum : String)
  /-- The schema declares the name twice. -/
  | duplicate (name : String)
  /-- A record, of which at least one of the two is imported, has declared the name. -/
  | conflict (name record : String)
  | unresolved (message field typeName : String)
  | invalidDefault (field text : String) (fault : DefaultFault)
deriving DecidableEq, Repr

/-- The word for a form of types. -/
def TypeForm.word : TypeForm → String
  | message => "message"
  | enum => "enum"

/-- The wording of a link error. -/
def LinkError.message : LinkError → String
  | notPlain form name scope =>
    s!"Validation failed: {form.word} name '{name}' in scope '{scope}' is not a plain identifier"
  | noValues enum => s!"Validation failed: enum {enum} declares no values"
  | duplicate name => s!"Duplicate type: {name}"
  | conflict name record => s!"Type {name} conflicts with a type imported from {record}"
  | unresolved message field typeName =>
    s!"Unresolved type '{typeName}' for field {message}.{field}"
  | invalidDefault field text fault =>
    s!"Invalid default '{text}' for field {field}: {fault.message}"

/-! ## Names -/

/-- A declared type whose name is to be entered. -/
inductive Declared
  | message (m : PlacedMessage)
  | enum (e : PlacedEnum)
deriving Repr

namespace Declared

def form : Declared → TypeForm
  | message _ => .message
  | enum _ => .enum

def name : Declared → String
  | message m => m.decl.name
  | enum e => e.decl.name

def place : Declared → Place
  | message m => m.place
  | enum e => e.place

def fullName : Declared → String
  | message m => m.fullName
  | enum e => e.fullName

/-- Whether it is an enum without values. -/
def lacksValues : Declared → Bool
  | message _ => false
  | enum e => e.decl.values.isEmpty

end Declared

/-- The types of the record in the order of declaration. -/
def PlacedRecord.declared (r : PlacedRecord) : List Declared :=
  r.messages.flatMap (fun m => .message m :: m.enums.map .enum) ++ r.topEnums.map .enum

namespace Link

/-- Enters one name after the other; `entered` are those in front. -/
def enter (records : List PlacedRecord) (entered : List Declared) :
    List Declared → Except LinkError Unit
  | [] => .ok ()
  | d :: ds =>
    if ¬ Name.isPlain d.name then .error (.notPlain d.form d.name d.place.scope)
    else if d.lacksValues then .error (.noValues d.fullName)
    else
      match entered.find? (·.fullName = d.fullName) with
      | none => enter records (d :: entered) ds
      | some first =>
        let own := records.length - 1
        if first.place.record = own ∧ d.place.record = own then .error (.duplicate d.fullName)
        else
          let owner := (records[first.place.record]?.map (·.decl.name)).getD ""
          .error (.conflict d.fullName owner)

/-! ## Fields -/

/-- The kind of a field that refers to the type. -/
def kindOf : TypeRef → FieldKind
  | .message i => .message i
  | .enum i => .enum i

/-- What the declared type means in the scope: a scalar type by its keyword, else the first of the
candidates that is declared. -/
def kind? (p : Pool) (scope typeName : String) : Option FieldKind :=
  match ScalarType.ofKeyword? typeName with
  | some t => some (.scalar t)
  | none => ((Name.candidates scope typeName).findSome? p.find?).map kindOf

/-- The default of a field of the kind. -/
def default (p : Pool) (f : FieldDecl) (kind : FieldKind) : Except DefaultFault FieldDefault :=
  match f.label, kind, f.default? with
  | .repeated, _, some _ => .error .repeatedField
  | .repeated, _, none => .ok .emptyList
  | _, .scalar t, none => .ok (.scalar (Scalar.zero t))
  | _, .scalar t, some text => (Scalar.ofDefault t text).map .scalar
  | _, .enum _, none => .ok (.enum 0)
  | _, .enum i, some text =>
    match (p.enum i).named? text with
    | some value => .ok (.enum value)
    | none => .error (.notEnumValue (p.enum i).fullName)
  | _, .message _, none => .ok .emptyMessage
  | _, .message _, some _ => .error .messageField

/-- Resolves a field of the message with the full name. -/
def field (p : Pool) (message : String) (f : FieldDecl) : Except LinkError FieldDef :=
  match kind? p message f.typeName with
  | none => .error (.unresolved message f.name f.typeName)
  | some kind =>
    match default p f kind with
    | .error fault =>
      .error (.invalidDefault (message ++ "." ++ f.name) (f.default?.getD "") fault)
    | .ok value => .ok ⟨f.name, f.number, f.label, kind, f.default?, value⟩

/-- The message with its fields resolved. -/
def message (p : Pool) (m : PlacedMessage) : Except LinkError MessageDef := do
  return { m.define with fields := ← m.decl.fields.mapM (field p m.fullName) }

end Link

/-- The pool of the records. -/
def Pool.link (records : List RecordDecl) : Except LinkError Pool := do
  let placed := RecordDecl.placed 0 0 0 records
  Link.enter placed [] (placed.flatMap PlacedRecord.declared)
  let bare := Pool.layout placed
  return { bare with messages := ← (placed.flatMap PlacedRecord.messages).mapM (Link.message bare) }

end ProtoSchema
