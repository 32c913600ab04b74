import ProtoSchema.Descriptor.Decl
import ProtoSchema.Wire.Scalar
import ProtoSchema.Wire.Skip

/-!
# Descriptors on the wire

Writing puts out the parts that are there, by field number. Reading goes through all records of a
message; a part that is met again replaces or, where there may be several, follows the earlier ones.
Parts that a pool never reads are known by their numbers and read past, and so are unknown ones.

Messages may nest only as deep as a budget allows: each level takes one from it, and at zero no further
message is read.
-/

namespace ProtoSchema.Descriptor

/-! ## Writing -/

/-- The record of a delimited field. -/
def bodyRecord (tag : Nat) (body : Bytes) : Bytes := Wire.key tag .delimited ++ Wire.delimited body

/-- The record of a text, if there is one. -/
def textRecord (tag : Nat) : Option String → Bytes
  | none => []
  | some s => bodyRecord tag (utf8 s)

/-- The record of an integer, if there is one. -/
def intRecord (tag : Nat) : Option Int32 → Bytes
  | none => []
  | some n => Wire.key tag .varint ++ Wire.signed n.toInt

def Field.encode (f : Field) : Bytes :=
  textRecord 1 f.name? ++ intRecord 3 f.number? ++ intRecord 4 f.label? ++ intRecord 5 f.type? ++
    textRecord 6 f.typeName? ++ textRecord 7 f.default?

def Value.encode (v : Value) : Bytes := textRecord 1 v.name? ++ intRecord 2 v.number?

def Enum.encode (e : Enum) : Bytes :=
  textRecord 1 e.name? ++ e.values.flatMap fun v => bodyRecord 2 v.encode

namespace Message

mutual

def encode : Message → Bytes
  | ⟨name?, fields, messages, enums⟩ =>
    textRecord 1 name? ++ fields.flatMap (fun f => bodyRecord 2 f.encode) ++
      encodeList 3 messages ++ enums.flatMap (fun e => bodyRecord 4 e.encode)

/-- The records of messages under the field number. -/
def encodeList (tag : Nat) : List Message → Bytes
  | [] => []
  | m :: ms => bodyRecord tag m.encode ++ encodeList tag ms

end

end Message

def File.encode (f : File) : Bytes :=
  textRecord 1 f.name? ++ textRecord 2 f.package? ++
    f.dependencies.flatMap (fun d => textRecord 3 (some d)) ++
    Message.encodeList 4 f.messages ++ f.enums.flatMap fun e => bodyRecord 5 e.encode

/-- The bytes of a set of files. -/
def encodeSet (files : List File) : Bytes := files.flatMap fun f => bodyRecord 1 f.encode

/-! ## Reading -/

/-- A field that is known by its number: its name, and how a record of it changes the message. -/
structure Known (α : Type) where
  name : String
  read : WireType → Reader ReadError (α → α)

namespace Known

variable {α β : Type}

/-- A field of the wire type. -/
def single (name : String) (type : WireType) (r : Reader WireFault β) (set : β → α → α) : Known α where
  name := name
  read t := ((r.ofType t type).map set).mapError ReadError.ofFault

def text (name : String) (set : String → α → α) : Known α := single name .delimited Reader.text set

def int (name : String) (set : Int32 → α → α) : Known α := single name .varint Reader.int32 set

/-- A field that holds messages. -/
def body (name : String) (r : Reader ReadError β) (add : β → α → α) : Known α where
  name := name
  read t :=
    if t = .delimited then r.map add
    else .fail (ReadError.ofFault (.wrongWireType t .delimited))

/-- A text that is not kept. -/
def unreadText (name : String) : Known α := text name fun _ m => m

/-- A number that is not kept. -/
def unreadInt (name : String) : Known α := int name fun _ m => m

/-- Numbers that are not kept, one or several in a record. -/
def unreadInts (name : String) : Known α where
  name := name
  read t :=
    let ints := if t = .delimited then Reader.packed id Reader.int32
      else (Reader.int32.ofType t .varint).map fun n => [n]
    (ints.map fun _ m => m).mapError ReadError.ofFault

/-- Messages that are not kept. -/
def unreadBody (name : String) (budget : Nat) : Known α :=
  single name .delimited
    (if budget = 0 then .fail .recursionLimit else Reader.delimited) fun _ m => m

end Known

/-- Reads one record of the message with the name. -/
def record {α : Type} (message : String) (budget : Nat) (known : Nat → Option (Known α)) :
    Reader ReadError (α → α) :=
  (Reader.key.mapError ReadError.ofFault).bind fun k =>
    match known k.tag with
    | some f => (f.read k.type).mapError (ReadError.inField message f.name)
    | none => ((Reader.skip budget k).map fun _ m => m).mapError ReadError.ofFault

/-- Reads a message that stands behind its length; `record` reads its records within what is left of
the budget. -/
def body {α : Type} (start : α) (record : Nat → Reader ReadError (α → α)) :
    (budget : Nat) → Reader ReadError α
  | 0 => .fail (ReadError.ofFault .recursionLimit)
  | budget + 1 =>
    (Reader.packed ReadError.ofFault (record budget)).map (·.foldl (fun m f => f m) start)

/-- The known fields of a field's description. -/
def Field.known (budget : Nat) : Nat → Option (Known Field)
  | 1 => some (.text "name" fun s f => { f with name? := some s })
  | 2 => some (.unreadText "extendee")
  | 3 => some (.int "number" fun n f => { f with number? := some n })
  | 4 => some (.int "label" fun n f => { f with label? := some n })
  | 5 => some (.int "r#type" fun n f => { f with type? := some n })
  | 6 => some (.text "type_name" fun s f => { f with typeName? := some s })
  | 7 => some (.text "default_value" fun s f => { f with default? := some s })
  | 8 => some (.unreadBody "options" budget)
  | 9 => some (.unreadInt "oneof_index")
  | 10 => some (.unreadText "json_name")
  | 17 => some (.unreadInt "proto3_optional")
  | _ => none

/-- The known fields of an enum value's description. -/
def Value.known (budget : Nat) : Nat → Option (Known Value)
  | 1 => some (.text "name" fun s v => { v with name? := some s })
  | 2 => some (.int "number" fun n v => { v with number? := some n })
  | 3 => some (.unreadBody "options" budget)
  | _ => none

/-- The known fields of an enum's description. -/
def Enum.known (budget : Nat) : Nat → Option (Known Enum)
  | 1 => some (.text "name" fun s e => { e with name? := some s })
  | 2 =>
    some (.body "value"
      (body default (fun n => record "EnumValueDescriptorProto" n (Value.known n)) budget)
      fun v e => { e with values := e.values ++ [v] })
  | 3 => some (.unreadBody "options" budget)
  | 4 => some (.unreadBody "reserved_range" budget)
  | 5 => some (.unreadText "reserved_name")
  | _ => none

/-- Reads an enum. -/
def Enum.body (budget : Nat) : Reader ReadError Enum :=
  Descriptor.body default (fun n => record "EnumDescriptorProto" n (Enum.known n)) budget

/-- The known fields of a message's description; `nested` reads a nested one. -/
def Message.known (budget : Nat) (nested : Reader ReadError Message) :
    Nat → Option (Known Message)
  | 1 => some (.text "name" fun s m => { m with name? := some s })
  | 2 =>
    some (.body "field"
      (Descriptor.body default (fun n => record "FieldDescriptorProto" n (Field.known n)) budget)
      fun f m => { m with fields := m.fields ++ [f] })
  | 3 => some (.body "nested_type" nested fun n m => { m with messages := m.messages ++ [n] })
  | 4 =>
    some (.body "enum_type" (Enum.body budget) fun e m => { m with enums := m.enums ++ [e] })
  | 5 => some (.unreadBody "extension_range" budget)
  | 6 => some (.unreadBody "extension" budget)
  | 7 => some (.unreadBody "options" budget)
  | 8 => some (.unreadBody "oneof_decl" budget)
  | 9 => some (.unreadBody "reserved_range" budget)
  | 10 => some (.unreadText "reserved_name")
  | _ => none

/-- Reads a message. -/
def Message.body : (budget : Nat) → Reader ReadError Message
  | 0 => .fail (ReadError.ofFault .recursionLimit)
  | budget + 1 =>
    (Reader.packed ReadError.ofFault
      (record "DescriptorProto" budget (Message.known budget (Message.body budget)))).map
        (·.foldl (fun m f => f m) default)

/-- The known fields of a file's description. -/
def File.known (budget : Nat) : Nat → Option (Known File)
  | 1 => some (.text "name" fun s f => { f with name? := some s })
  | 2 => some (.text "package" fun s f => { f with package? := some s })
  | 3 => some (.text "dependency" fun s f => { f with dependencies := f.dependencies ++ [s] })
  | 4 =>
    some (.body "message_type" (Message.body budget)
      fun m f => { f with messages := f.messages ++ [m] })
  | 5 =>
    some (.body "enum_type" (Enum.body budget) fun e f => { f with enums := f.enums ++ [e] })
  | 6 => some (.unreadBody "service" budget)
  | 7 => some (.unreadBody "extension" budget)
  | 8 => some (.unreadBody "options" budget)
  | 9 => some (.unreadBody "source_code_info" budget)
  | 10 => some (.unreadInts "public_dependency")
  | 11 => some (.unreadInts "weak_dependency")
  | 12 => some (.unreadText "syntax")
  | _ => none

/-- The known fields of a set of files. -/
def fileSetKnown (budget : Nat) : Nat → Option (Known (List File))
  | 1 =>
    some (.body "file"
      (body default (fun n => record "FileDescriptorProto" n (File.known n)) budget)
      fun f files => files ++ [f])
  | _ => none

/-- How deep messages may nest. -/
def nestingBudget : Nat := 100

/-- The set of files that the bytes hold. -/
def decodeSet (bs : Bytes) : Except ReadError (List File) :=
  ((record "FileDescriptorSet" nestingBudget (fileSetKnown nestingBudget)).all bs).map
    (·.foldl (fun files f => f files) [])

end ProtoSchema.Descriptor

namespace ProtoSchema.Pool

/-- The bytes of the pool's descriptors. -/
def toBytes (p : Pool) : Bytes := Descriptor.encodeSet p.describe

/-- The pool whose descriptors the bytes hold. -/
def ofBytes (bs : Bytes) : Except DescriptorError Pool :=
  match Descriptor.decodeSet bs with
  | .error e => .error (.unreadable e)
  | .ok files => Pool.ofDescriptors files

end ProtoSchema.Pool
