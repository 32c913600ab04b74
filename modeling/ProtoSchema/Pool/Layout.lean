import ProtoSchema.Name
import ProtoSchema.Pool.Basic

/-!
# Layout

Where each declared type stands in a pool. Records come in order; a message comes before the messages
nested in it; the enums nested in a message come before those of its nested messages, and the messages
of a record before its enums. How many types a message declares is known beforehand
(`MessageDecl.messageCount`, `MessageDecl.enumCount`), so each index is computed from those in front.
-/

namespace ProtoSchema

namespace MessageDecl

mutual

/-- How many messages a declaration holds, itself included. -/
def messageCount : MessageDecl → Nat
  | ⟨_, _, messages, _⟩ => 1 + messageCounts messages

def messageCounts : List MessageDecl → Nat
  | [] => 0
  | m :: ms => m.messageCount + messageCounts ms

end

mutual

/-- How many enums a declaration holds. -/
def enumCount : MessageDecl → Nat
  | ⟨_, _, messages, enums⟩ => enums.length + enumCounts messages

def enumCounts : List MessageDecl → Nat
  | [] => 0
  | m :: ms => m.enumCount + enumCounts ms

end

end MessageDecl

/-- A place for types: a record, and within it at top level or in a message. -/
structure Place where
  record : Nat
  parent? : Option Nat
  /-- The name that the full names begin with. -/
  scope : String
deriving DecidableEq, Repr

/-- A declared message at its place in the pool. -/
structure PlacedMessage where
  decl : MessageDecl
  place : Place
  index : Nat
  /-- The index of its first nested enum. -/
  enumIndex : Nat
deriving Repr

/-- A declared enum at its place in the pool. -/
structure PlacedEnum where
  decl : EnumDecl
  place : Place
deriving Repr

namespace PlacedMessage

def fullName (m : PlacedMessage) : String := Name.qualify m.place.scope m.decl.name

/-- The place of what is nested in the message. -/
def inner (m : PlacedMessage) : Place := ⟨m.place.record, some m.index, m.fullName⟩

/-- The enums nested in the message itself. -/
def enums (m : PlacedMessage) : List PlacedEnum := m.decl.enums.map (⟨·, m.inner⟩)

end PlacedMessage

namespace PlacedEnum

def fullName (e : PlacedEnum) : String := Name.qualify e.place.scope e.decl.name

end PlacedEnum

namespace MessageDecl

mutual

/-- The message and all that are nested in it, each before its own nested ones. -/
def placed (place : Place) (index enumIndex : Nat) : MessageDecl → List PlacedMessage
  | ⟨name, fields, messages, enums⟩ =>
    ⟨⟨name, fields, messages, enums⟩, place, index, enumIndex⟩ ::
      placedList ⟨place.record, some index, Name.qualify place.scope name⟩ (index + 1)
        (enumIndex + enums.length) messages

def placedList (place : Place) (index enumIndex : Nat) : List MessageDecl → List PlacedMessage
  | [] => []
  | m :: ms =>
    m.placed place index enumIndex ++
      placedList place (index + m.messageCount) (enumIndex + m.enumCount) ms

end

/-- The indices of messages that stand side by side, from that of the first. -/
def indices (index : Nat) : List MessageDecl → List Nat
  | [] => []
  | m :: ms => index :: indices (index + m.messageCount) ms

end MessageDecl

/-- A declared record at its place: its own index, and those of its first message and enum. -/
structure PlacedRecord where
  decl : RecordDecl
  index : Nat
  messageIndex : Nat
  enumIndex : Nat
deriving Repr

namespace PlacedRecord

def place (r : PlacedRecord) : Place := ⟨r.index, none, r.decl.package⟩

/-- The messages of the record, nested ones included. -/
def messages (r : PlacedRecord) : List PlacedMessage :=
  MessageDecl.placedList r.place r.messageIndex r.enumIndex r.decl.messages

/-- The enums at the top level of the record. -/
def topEnums (r : PlacedRecord) : List PlacedEnum := r.decl.enums.map (⟨·, r.place⟩)

/-- The enums of the record, nested ones included. -/
def enums (r : PlacedRecord) : List PlacedEnum :=
  r.messages.flatMap PlacedMessage.enums ++ r.topEnums

end PlacedRecord

/-- The records at their places, from the given indices on. -/
def RecordDecl.placed (index messageIndex enumIndex : Nat) : List RecordDecl → List PlacedRecord
  | [] => []
  | r :: rs =>
    ⟨r, index, messageIndex, enumIndex⟩ ::
      placed (index + 1) (messageIndex + MessageDecl.messageCounts r.messages)
        (enumIndex + MessageDecl.enumCounts r.messages + r.enums.length) rs

namespace PlacedMessage

/-- The message as it stands in the pool before its fields are resolved. -/
def define (m : PlacedMessage) : MessageDef where
  name := m.decl.name
  fullName := m.fullName
  record := m.place.record
  parent? := m.place.parent?
  fields := []
  messages := MessageDecl.indices (m.index + 1) m.decl.messages
  enums := List.range' m.enumIndex m.decl.enums.length

end PlacedMessage

namespace PlacedEnum

def define (e : PlacedEnum) : EnumDef where
  name := e.decl.name
  fullName := e.fullName
  record := e.place.record
  parent? := e.place.parent?
  values := e.decl.values

end PlacedEnum

namespace PlacedRecord

def define (r : PlacedRecord) : RecordDef where
  name := r.decl.name
  package := r.decl.package
  dependencies := r.decl.dependencies
  messages := MessageDecl.indices r.messageIndex r.decl.messages
  enums := List.range' (r.enumIndex + MessageDecl.enumCounts r.decl.messages) r.decl.enums.length

end PlacedRecord

/-- The pool of the records, with no fields in its messages. -/
def Pool.layout (records : List PlacedRecord) : Pool where
  records := records.map PlacedRecord.define
  messages := (records.flatMap PlacedRecord.messages).map PlacedMessage.define
  enums := (records.flatMap PlacedRecord.enums).map PlacedEnum.define

end ProtoSchema
