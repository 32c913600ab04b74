import ProtoSchema.Label
import ProtoSchema.ScalarType
import ProtoSchema.Text.Blank

/-!
# Declarations

Types as they are written down, before any name is looked up: fields, enums, messages with what is
nested in them, and the records (one per schema file) that hold them.

Declarations grow by `FieldDecl.make`, `EnumDecl.addValue`, `MessageDecl.addField`,
`MessageDecl.addEnum` and `MessageDecl.addMessage`. Each refuses what would make the declaration
ambiguous: a number or a name that the same owner has used already.
-/

namespace ProtoSchema

/-- Why a declaration was refused. -/
inductive DefinitionError
  /-- No label is written like this. -/
  | unknownLabel (word : String)
  | emptyFieldName (number : Nat)
  | numberOutOfRange (field : String) (number : Nat)
  | numberReserved (field : String) (number : Nat)
  | numberTaken (field : String) (number : Nat) (owner message : String)
  | fieldNameTaken (field message : String)
  | typeNameTaken (name message : String)
  | emptyValueName (enum : String)
  | valueNameTaken (value enum : String)
  | valueNumberTaken (value : String) (number : Int32) (owner enum : String)
  /-- A document gives something other than a text, a number or a truth value as a default. -/
  | defaultNotScalar (message field shown : String)
deriving DecidableEq, Repr

/-! ## Fields -/

/-- A declared field. The type is a scalar keyword or the name of a message or enum. -/
structure FieldDecl where
  label : Label
  typeName : String
  name : String
  number : Nat
  /-- The declared default, as written. -/
  default? : Option String
deriving DecidableEq, Repr, Inhabited

namespace FieldDecl

/-- The largest field number. -/
def maxNumber : Nat := 536870911

/-- Whether the number is set aside for the format itself. -/
def isReserved (number : Nat) : Bool := 19000 ≤ number ∧ number ≤ 19999

/-- A field without a default. It needs a name, and a number that a field can have. -/
def make (label : Label) (typeName name : String) (number : Nat) :
    Except DefinitionError FieldDecl :=
  if name = "" then .error (.emptyFieldName number)
  else if number = 0 ∨ maxNumber < number then .error (.numberOutOfRange name number)
  else if isReserved number then .error (.numberReserved name number)
  else .ok ⟨label, typeName, name, number, none⟩

/-- The field with a declared default. -/
def withDefault (f : FieldDecl) (text : String) : FieldDecl := { f with default? := some text }

end FieldDecl

/-- Reads a label: blanks at the ends and the case of ASCII letters do not matter. -/
def Label.parse (text : String) : Except DefinitionError Label :=
  let word := (Text.trim text).toLower
  match Label.ofKeyword? word with
  | some label => .ok label
  | none => .error (.unknownLabel word)

/-! ## Enums -/

/-- A value of an enum. -/
structure ValueDecl where
  name : String
  number : Int32
deriving DecidableEq, Repr, Inhabited

/-- A declared enum. -/
structure EnumDecl where
  name : String
  values : List ValueDecl
deriving DecidableEq, Repr, Inhabited

/-- Appends a value. Its name is not empty, and neither name nor number is in use. -/
def EnumDecl.addValue (e : EnumDecl) (name : String) (number : Int32) :
    Except DefinitionError EnumDecl :=
  if name = "" then .error (.emptyValueName e.name)
  else if e.values.any (·.name = name) then .error (.valueNameTaken name e.name)
  else
    match e.values.find? (·.number = number) with
    | some owner => .error (.valueNumberTaken name number owner.name e.name)
    | none => .ok { e with values := e.values ++ [⟨name, number⟩] }

/-! ## Messages -/

/-- A declared message with the types nested in it. -/
structure MessageDecl where
  name : String
  fields : List FieldDecl
  messages : List MessageDecl
  enums : List EnumDecl
deriving Repr, Inhabited

namespace MessageDecl

/-- A message that declares nothing. -/
def empty (name : String) : MessageDecl := ⟨name, [], [], []⟩

/-- Appends a field whose number and name are not in use. -/
def addField (m : MessageDecl) (f : FieldDecl) : Except DefinitionError MessageDecl :=
  match m.fields.find? (·.number = f.number) with
  | some owner => .error (.numberTaken f.name f.number owner.name m.name)
  | none =>
    if m.fields.any (·.name = f.name) then .error (.fieldNameTaken f.name m.name)
    else .ok { m with fields := m.fields ++ [f] }

/-- Whether a nested message or enum has the name. -/
def declares (m : MessageDecl) (name : String) : Bool :=
  m.messages.any (·.name = name) || m.enums.any (·.name = name)

/-- Nests an enum under a name that is not in use. -/
def addEnum (m : MessageDecl) (e : EnumDecl) : Except DefinitionError MessageDecl :=
  if m.declares e.name then .error (.typeNameTaken e.name m.name)
  else .ok { m with enums := m.enums ++ [e] }

/-- Nests a message under a name that is not in use. -/
def addMessage (m nested : MessageDecl) : Except DefinitionError MessageDecl :=
  if m.declares nested.name then .error (.typeNameTaken nested.name m.name)
  else .ok { m with messages := m.messages ++ [nested] }

mutual

/-- Two declarations are told apart by their parts. -/
def decEq : (a b : MessageDecl) → Decidable (a = b)
  | ⟨name, fields, messages, enums⟩, ⟨name', fields', messages', enums'⟩ =>
    if h : name = name' ∧ fields = fields' ∧ enums = enums' then
      match decEqList messages messages' with
      | isTrue hm => isTrue (by rw [h.1, h.2.1, h.2.2, hm])
      | isFalse hm => isFalse (by intro e; injection e; contradiction)
    else isFalse (by intro e; injection e; exact h ⟨by assumption, by assumption, by assumption⟩)

def decEqList : (as bs : List MessageDecl) → Decidable (as = bs)
  | [], [] => isTrue rfl
  | [], _ :: _ => isFalse (by simp)
  | _ :: _, [] => isFalse (by simp)
  | a :: as, b :: bs =>
    match decEq a b, decEqList as bs with
    | isTrue ha, isTrue hs => isTrue (by rw [ha, hs])
    | isFalse ha, _ => isFalse (by intro e; injection e; contradiction)
    | _, isFalse hs => isFalse (by intro e; injection e; contradiction)

end

instance : DecidableEq MessageDecl := decEq

end MessageDecl

/-! ## Records -/

/-- One schema file: its types live in its package. -/
structure RecordDecl where
  name : String
  package : String
  /-- Names of the records whose types it may use. -/
  dependencies : List String
  messages : List MessageDecl
  enums : List EnumDecl
deriving DecidableEq, Repr, Inhabited

/-! ## Wording -/

/-- The wording of a refusal. -/
def DefinitionError.message (e : DefinitionError) : String :=
  "Validation failed: " ++
  match e with
  | unknownLabel word => s!"unrecognized field label '{word}'"
  | emptyFieldName number => s!"field number {number} has an empty name"
  | numberOutOfRange field number =>
    s!"field '{field}' number {number} outside 1..={FieldDecl.maxNumber}"
  | numberReserved field number =>
    s!"field '{field}' number {number} is in the reserved range 19000..=19999"
  | numberTaken field number owner message =>
    s!"field number {number} of '{field}' already used by '{owner}' in message {message}"
  | fieldNameTaken field message => s!"field name '{field}' already used in message {message}"
  | typeNameTaken name message => s!"nested type '{name}' already declared in message {message}"
  | emptyValueName enum => s!"enum {enum} has a value with an empty name"
  | valueNameTaken value enum => s!"enum value '{value}' already declared in enum {enum}"
  | valueNumberTaken value number owner enum =>
    s!"enum number {number.toInt} of '{value}' already used by '{owner}' in enum {enum}"
  | defaultNotScalar message field shown =>
    s!"default of {message}.{field} must be a scalar, got {shown}"

end ProtoSchema
