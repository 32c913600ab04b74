import ProtoSchema.Bytes

/-!
# Tokens of YAML

Tags are strings of bytes: they may write bytes in hexadecimal, and these need not be UTF-8.
-/

namespace ProtoSchema.Yaml

/-- How a scalar is written. -/
inductive Style
  | plain
  | quoted
  | literal
  | folded
deriving DecidableEq, Repr

/-- A token: an indicator, the start or end of something nested, a property or a scalar. -/
inductive Token
  | version (major minor : Nat)
  /-- A directive that says what a handle of tags stands for. -/
  | tagHandle (handle : String) (meaning : Bytes)
  | documentStart
  | documentEnd
  | blockSequenceStart
  | blockMappingStart
  | blockEnd
  | flowSequenceStart
  | flowSequenceEnd
  | flowMappingStart
  | flowMappingEnd
  | blockEntry
  | flowEntry
  | key
  | value
  | reference (name : String)
  | anchor (name : String)
  | tag (handle : String) (suffix : Bytes)
  | scalar (text : String) (style : Style)
deriving DecidableEq, Repr

end ProtoSchema.Yaml
