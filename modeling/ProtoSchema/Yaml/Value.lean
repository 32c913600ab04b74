import ProtoSchema.Bytes
import ProtoSchema.Text.Quoted
import ProtoSchema.Yaml.Number

/-!
# Values of YAML

What nodes mean: null, truth values, numbers and texts, and collections of them. A tag of the
application is kept with the value that it stands in front of.
-/

namespace ProtoSchema.Yaml

/-- A value. -/
inductive Value
  | null
  | bool (b : Bool)
  | number (n : Number)
  | string (s : String)
  | sequence (items : List Value)
  | mapping (entries : List (Value × Value))
  | tagged (tag : String) (value : Value)
deriving Repr, Inhabited

namespace Value

/-! ## Plain scalars -/

/-- Whether the word means null. -/
def isNull (word : String) : Bool := ["null", "Null", "NULL", "~"].contains word

/-- The truth value that the word means. -/
def bool? (word : String) : Option Bool :=
  if ["true", "True", "TRUE"].contains word then some true
  else if ["false", "False", "FALSE"].contains word then some false
  else none

/-- The floating-point number that the word means, or else the word as a text. -/
def ofFloat (word : String) : Value :=
  if Number.hasLeadingZero (Number.unsigned word.toList) then string word
  else
    match Number.float? word with
    | some bits => number (.float (UInt64.ofNat bits))
    | none => string word

/-- What an integer means. One that needs more than 64 bits has no meaning, and one that needs more
than 128 is not taken for an integer at all. -/
def ofInteger (word : String) (n : Int) : Option Value :=
  if Number.isWord 64 n then some (number (.int n))
  else if Number.isWord 128 n then none
  else some (ofFloat word)

/-- What a plain scalar means. -/
def ofPlain (word : String) : Option Value :=
  if word = "" ∨ isNull word then some null
  else
    match bool? word with
    | some b => some (bool b)
    | none =>
      match Number.integer? word.toList with
      | some n => ofInteger word n
      | none => some (ofFloat word)

/-! ## Scalars with a tag -/

/-- The tag of YAML's own types. -/
def coreTag (name : String) : Bytes := utf8 ("tag:yaml.org,2002:" ++ name)

/-- What a scalar means whose tag says which type it has; every other tag says that it is a text. -/
def ofTagged (tag : Bytes) (word : String) : Option Value :=
  if tag = coreTag "bool" then (bool? word).map bool
  else if tag = coreTag "int" then
    (Number.integer? word.toList).bind fun n =>
      if Number.isWord 64 n then some (number (.int n)) else none
  else if tag = coreTag "float" then
    (Number.float? word).map fun bits => number (.float (UInt64.ofNat bits))
  else if tag = coreTag "null" then if isNull word then some null else none
  else some (string word)

/-! ## Equality -/

mutual

/-- Whether both are the same value; the order of a mapping does not matter. -/
def same : Value → Value → Bool
  | null, null => true
  | bool a, bool b => a = b
  | number a, number b => a.same b
  | string a, string b => a = b
  | sequence xs, sequence ys => sameItems xs ys
  | mapping xs, mapping ys => xs.length = ys.length && holdsEntries xs ys
  | tagged t a, tagged u b => t = u && same a b
  | _, _ => false

def sameItems : List Value → List Value → Bool
  | [], [] => true
  | x :: xs, y :: ys => same x y && sameItems xs ys
  | _, _ => false

/-- Whether every entry is among the others. -/
def holdsEntries : List (Value × Value) → List (Value × Value) → Bool
  | [], _ => true
  | (k, v) :: rest, others =>
    others.any (fun e => same k e.1 && same v e.2) && holdsEntries rest others

end

/-! ## Inspection -/

mutual

/-- A value as it is shown in an error. -/
def shown : Value → String
  | null => "Null"
  | bool b => s!"Bool({b})"
  | number n => s!"Number({n.text})"
  | string s => s!"String({Text.quote s})"
  | sequence items => "Sequence [" ++ shownItems items ++ "]"
  | mapping entries => "Mapping \x7b" ++ shownEntries entries ++ "\x7d"
  | tagged tag value => s!"TaggedValue \x7b tag: !{tag}, value: {shown value} \x7d"

def shownItems : List Value → String
  | [] => ""
  | [v] => shown v
  | v :: rest => shown v ++ ", " ++ shownItems rest

def shownEntries : List (Value × Value) → String
  | [] => ""
  | [(k, v)] => shownKey k ++ ": " ++ shown v
  | (k, v) :: rest => shownKey k ++ ": " ++ shown v ++ ", " ++ shownEntries rest

/-- A key: scalars are shown without their kind. -/
def shownKey : Value → String
  | bool b => toString b
  | number n => n.text
  | string s => Text.quote s
  | key => shown key

end

end Value

end ProtoSchema.Yaml
