import ProtoSchema.Message.Basic

/-!
# Reading and changing messages

Fields are named by their name, their number or a handle of the message's own type. Changing a message
checks that the field takes what it is given, and gives the changed message.
-/

namespace ProtoSchema

/-- Why a field could not be read or changed. -/
inductive AccessError
  | noFieldNamed (name message : String)
  | noFieldNumbered (number : Nat) (message : String)
  /-- The field is one of another type. -/
  | foreignField (field message : String)
  | indexOutOfBounds (field : String) (index length : Nat)
  | mismatch (field expected got : String)
  | setRepeated (field : String)
  | notRepeated (field : String)
  | missingFields (message : String) (missing : List String)
deriving DecidableEq, Repr

/-- The wording of an access error. -/
def AccessError.message : AccessError → String
  | noFieldNamed name message => s!"Not found: field '{name}' in {message}"
  | noFieldNumbered number message => s!"Not found: field number {number} in {message}"
  | foreignField field message => s!"Not found: field {field} does not belong to {message}"
  | indexOutOfBounds field index length =>
    s!"Index out of bounds for field {field}: {index} >= {length}"
  | mismatch field expected got =>
    s!"Type mismatch for field {field}: expected {expected}, got {got}"
  | setRepeated field =>
    s!"Invalid operation: set_field on repeated field {field}; use add_repeated_field"
  | notRepeated field => s!"Invalid operation: field {field} is not repeated"
  | missingFields message missing =>
    s!"Message {message} is missing required fields: " ++ String.intercalate ", " missing

/-- How a field is named. -/
inductive Selector
  | name (name : String)
  | number (number : Nat)
  | field (f : Field)
deriving Repr

/-- The field of the type that is meant. -/
def MessageType.select (t : MessageType) : Selector → Except AccessError FieldDef
  | .name name =>
    match t.fieldNamed? name with
    | some f => .ok f.field
    | none => .error (.noFieldNamed name t.fullName)
  | .number number =>
    match t.field? number with
    | some f => .ok f.field
    | none => .error (.noFieldNumbered number t.fullName)
  | .field f =>
    if f.message = t then .ok f.field else .error (.foreignField f.fullName t.fullName)

namespace Message

/-- The field that is meant, which has to be repeated. -/
def selectRepeated (m : Message) (s : Selector) : Except AccessError FieldDef := do
  let f ← m.type.select s
  if f.isRepeated then .ok f else .error (.notRepeated (m.type.define.fieldName f))

/-! ## Reading -/

/-- The value of the field, or its default. -/
def get (m : Message) (s : Selector) : Except AccessError Value := do
  let f ← m.type.select s
  if f.isRepeated then return .list (m.report f)
  else return (m.report f).head?.getD (Field.defaultValue ⟨m.type, f⟩)

/-- An element of a repeated field. -/
def getAt (m : Message) (s : Selector) (index : Nat) : Except AccessError Value := do
  let f ← m.selectRepeated s
  let items := m.report f
  match items[index]? with
  | some v => .ok v
  | none => .error (.indexOutOfBounds (m.type.define.fieldName f) index items.length)

/-- Whether the field is set, or has elements. -/
def has (m : Message) (s : Selector) : Except AccessError Bool := do
  let f ← m.type.select s
  return Content.has f.number m.content

/-- The number of elements of a repeated field. -/
def count (m : Message) (s : Selector) : Except AccessError Nat := do
  let f ← m.selectRepeated s
  return (Content.values f.number m.content).length

/-! ## Changing -/

/-- The value as an element of the field. -/
def fit (m : Message) (f : FieldDef) (v : Value) : Except AccessError Element :=
  match v.toElement? m.type.schema f.kind with
  | some e => .ok e
  | none =>
    let expected := m.type.schema.pool.kindName f.kind
    .error (.mismatch (m.type.define.fieldName f) expected v.kindName)

/-- Sets a field that is not repeated. -/
def set (m : Message) (s : Selector) (v : Value) : Except AccessError Message := do
  let f ← m.type.select s
  if f.isRepeated then .error (.setRepeated (m.type.define.fieldName f))
  else
    let e ← m.fit f v
    return { m with content := Content.replace f.number [e] m.content }

/-- Appends an element to a repeated field. -/
def add (m : Message) (s : Selector) (v : Value) : Except AccessError Message := do
  let f ← m.selectRepeated s
  let e ← m.fit f v
  return { m with content := Content.append f.number [e] m.content }

/-- Replaces an element of a repeated field. -/
def setAt (m : Message) (s : Selector) (index : Nat) (v : Value) : Except AccessError Message := do
  let f ← m.selectRepeated s
  let e ← m.fit f v
  let items := Content.values f.number m.content
  if index < items.length then
    return { m with content := Content.replace f.number (items.set index e) m.content }
  else .error (.indexOutOfBounds (m.type.define.fieldName f) index items.length)

/-- Unsets a field. -/
def clear (m : Message) (s : Selector) : Except AccessError Message := do
  let f ← m.type.select s
  return { m with content := Content.clear f.number m.content }

end Message

end ProtoSchema
