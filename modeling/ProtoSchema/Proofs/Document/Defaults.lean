import ProtoSchema.Proofs.Document.Read
import ProtoSchema.Proofs.Yaml.Plain

/-!
# Defaults of documents

A document gives the default of a field as a scalar. What the scalar means is set out as text again
(`Value.SetOut`), and this text is declared: the field takes it or refuses it as it does any default.

**A field of type double takes every finite number** for the value closest to it, and refuses the others,
since the words for them are not the ones that defaults are written with (`Document.double_default`).

**A field of type string takes a number or a truth value in its usual spelling**
(`Document.string_default`). It is kept as it is written where it is spelled like this, and only there.
-/

namespace ProtoSchema

open Traverse Yaml Yaml.NodeReader

/-! ## Values as text -/

/-- The text that a number or a truth value is set out as. -/
inductive Yaml.Value.SetOut : Yaml.Value → String → Prop
  | number (n : Number) : SetOut (.number n) n.text
  | bool (b : Bool) : SetOut (.bool b) (if b then "true" else "false")

theorem FieldEntry.parse_usualLabel_ne : Label.parse usualLabel ≠ .ok .repeated := by
  decide +kernel

/-- A field whose default has a text is declared if it can be without one. -/
theorem FieldEntry.isOk_declare {message : String} {f : FieldEntry} {text? : Option String}
    (h : f.defaultText message = .ok text?) : (f.declare message).isOk =
      (Label.parse f.label >>= fun l => FieldDecl.make l f.typeName f.name f.number).isOk := by
  rw [declare, h]
  cases Label.parse f.label with
  | error e => rfl
  | ok l =>
    show (FieldDecl.make l f.typeName f.name f.number >>= _).isOk =
      (FieldDecl.make l f.typeName f.name f.number).isOk
    cases FieldDecl.make l f.typeName f.name f.number <;> rfl

/-- The field states the name, the type and the default, and is not repeated. -/
structure FieldEntry.Gives (f : FieldEntry) (name typeName : String) (v : Yaml.Value) : Prop where
  name : f.name = name
  typeName : f.typeName = typeName
  singular : Label.parse f.label ≠ .ok .repeated
  default : f.default? = some v

section Values

variable {p : Properties} {word shown name typeName : String} {style : Style} {v : Yaml.Value}

namespace Yaml.Value.SetOut

/-- **The text that a value is set out as is read as the value,** if it has been read from a scalar. -/
theorem ofPlain (hv : v.SetOut shown) (h : scalar p word style = some v) :
    Yaml.Value.ofPlain shown = some v := by
  cases hv with
  | number n => exact Value.ofPlain_text (Number.readFrom_of_scalar h)
  | bool b => exact Value.ofPlain_ofBool b

theorem ne_null (hv : v.SetOut shown) : v ≠ .null := by
  rintro rfl
  cases hv

end Yaml.Value.SetOut

namespace FieldEntry.Gives

variable {f : FieldEntry} {message : String} {decl : FieldDecl} {t : ScalarType} {pool : Pool}
  {scope : String}

theorem defaultText (h : f.Gives name typeName v) (hv : v.SetOut shown) (message : String) :
    f.defaultText message = .ok (some shown) := by
  rw [FieldEntry.defaultText, h.default]
  cases hv <;> rfl

/-- Such a default does not keep the field from being declared. -/
theorem isOk_declare (h : f.Gives name typeName v) (hv : v.SetOut shown) (message : String) :
    (f.declare message).isOk = ({ f with default? := none }.declare message).isOk := by
  rw [f.isOk_declare (h.defaultText hv message), FieldEntry.isOk_declare rfl]

/-- A field that gives a scalar of its type is linked as far as the text of the default is one. -/
theorem link (h : f.Gives name typeName v) (hv : v.SetOut shown)
    (ht : ScalarType.ofKeyword? typeName = some t) (hdecl : f.DeclaredAs message decl) :
    Link.field pool scope decl =
      match Scalar.ofDefault t shown with
      | .ok x => .ok ⟨name, decl.number, decl.label, .scalar t, some shown, .scalar x⟩
      | .error fault => .error (.invalidDefault (scope ++ "." ++ name) shown fault) := by
  have hkeyword : ScalarType.ofKeyword? decl.typeName = some t := by
    rw [hdecl.typeName, h.typeName, ht]
  have hlabel : decl.label ≠ .repeated := by
    intro hrep
    exact h.singular (hrep ▸ hdecl.label)
  have htext : decl.default? = some shown :=
    Except.ok.inj (hdecl.default.symm.trans (h.defaultText hv message))
  have hlink : Link.field pool scope decl = _ := Link.field_of_scalar hkeyword hlabel htext
  rw [hdecl.name, h.name] at hlink
  exact hlink

end FieldEntry.Gives

end Values

/-! ## In a document -/

namespace Document

/-- The node states a field of the type in the message with the full name, and not a repeated one. -/
structure FieldAt (root : Node) (scope name typeName : String) (n : Node) : Prop where
  inside : ∃ m, MessageAt root scope m ∧ m.HasEntry root.anchored "fields" n
  named : n.HasText root.anchored "name" name
  typed : n.HasText root.anchored "type" typeName
  singular : (∃ label, n.HasText root.anchored "label" label ∧ Label.parse label ≠ .ok .repeated) ∨
    ∀ l, ¬n.HasMember root.anchored "label" l

/-- The default of the field that the node states is the scalar. -/
def DefaultAt (root n : Node) (p : Properties) (word : String) (style : Style) : Prop :=
  ∃ l, n.HasMember root.anchored "default" l ∧ l.Stands root.anchored (.scalar p word style)

/-- The field takes the default that the text of the document gives for the value. It is declared if it
can be without a default, with the default that is shown; it can be linked in every pool, and has the
value in each schema that is loaded. -/
structure TakesDefault (text scope name shown : String) (x : Scalar) : Prop where
  accepted : ∃ d m f, ofYaml? text = some d ∧ d.States scope m ∧ f ∈ m.fields ∧ f.name = name ∧
    f.defaultText m.name = .ok (some shown) ∧
      (f.declare m.name).isOk = ({ f with default? := none }.declare m.name).isOk ∧
        ∀ decl, f.declare m.name = .ok decl →
          ∀ p, ∃ g, Link.field p scope decl = .ok g ∧ g.default = .scalar x
  loaded : ∀ s : Schema, loadYaml text = .ok s.pool → ∃ t g, s.findMessage ("." ++ scope) = .ok t ∧
    t.fieldNamed? name = some g ∧ g.field.declared? = some shown ∧ g.field.default = .scalar x

/-- The field refuses the default that the text of the document gives. It cannot be linked in any pool,
so no schema is loaded. -/
structure RefusesDefault (text scope name shown : String) (fault : DefaultFault) : Prop where
  refused : ∃ d m f, ofYaml? text = some d ∧ d.States scope m ∧ f ∈ m.fields ∧ f.name = name ∧
    f.defaultText m.name = .ok (some shown) ∧ ∀ decl, f.declare m.name = .ok decl →
      ∀ p, Link.field p scope decl = .error (.invalidDefault (scope ++ "." ++ name) shown fault)
  unloaded : ∀ p, loadYaml text ≠ .ok p

/-! ## A document of one field -/

namespace Lab

/-- The document of a field of the type, with the default. -/
def text (typeName default : String) : String :=
  "package: lab\nmessages: [\x7bname: Reading, fields: [\x7blabel: optional, type: " ++ typeName ++
    ", name: value, number: 1, default: " ++ default ++ "\x7d]\x7d]"

def word (text : String) : Node := .scalar ⟨none, none⟩ text .plain

def field (typeName default : String) : Node :=
  .mapping ⟨none, none⟩ [(word "label", word "optional"), (word "type", word typeName),
    (word "name", word "value"), (word "number", word "1"), (word "default", word default)]

def message (typeName default : String) : Node :=
  .mapping ⟨none, none⟩ [(word "name", word "Reading"),
    (word "fields", .sequence ⟨none, none⟩ [field typeName default])]

def root (typeName default : String) : Node :=
  .mapping ⟨none, none⟩ [(word "package", word "lab"),
    (word "messages", .sequence ⟨none, none⟩ [message typeName default])]

def tokens (typeName default : String) : List Token :=
  let word := fun text => Token.scalar text .plain
  [.blockMappingStart, .key, word "package", .value, word "lab", .key, word "messages", .value,
    .flowSequenceStart, .flowMappingStart, .key, word "name", .value, word "Reading", .flowEntry,
    .key, word "fields", .value, .flowSequenceStart, .flowMappingStart,
    .key, word "label", .value, word "optional", .flowEntry,
    .key, word "type", .value, word typeName, .flowEntry,
    .key, word "name", .value, word "value", .flowEntry,
    .key, word "number", .value, word "1", .flowEntry,
    .key, word "default", .value, word default,
    .flowMappingEnd, .flowSequenceEnd, .flowMappingEnd, .flowSequenceEnd, .blockEnd]

set_option maxRecDepth 10000 in
theorem ofText?_of_tokens? {text typeName default : String}
    (h : tokens? text = some (tokens typeName default)) :
    Node.ofText? text = some (root typeName default) := by
  rw [Node.ofText?, h]
  rfl

theorem exists_ofYaml? {text typeName default : String}
    (h : tokens? text = some (tokens typeName default))
    (hread : (run? read (root typeName default)).isSome = true) : ∃ d, ofYaml? text = some d := by
  rw [ofYaml?, ofText?_of_tokens? h]
  exact Option.isSome_iff_exists.1 hread

theorem fieldAt (typeName default : String) :
    FieldAt (root typeName default) "lab.Reading" "value" typeName (field typeName default) where
  inside := by
    refine ⟨message typeName default, ?_, _, Node.hasMember_mapping (.tail _ (.head _)),
      Node.hasItem_sequence (.head _)⟩
    exact MessageAt.top (.stated ⟨_, Node.hasMember_mapping (.head _), Node.says_scalar⟩)
      ⟨_, Node.hasMember_mapping (.tail _ (.head _)), Node.hasItem_sequence (.head _)⟩
      ⟨_, Node.hasMember_mapping (.head _), Node.says_scalar⟩
  named := ⟨_, Node.hasMember_mapping (.tail _ (.tail _ (.head _))), Node.says_scalar⟩
  typed := ⟨_, Node.hasMember_mapping (.tail _ (.head _)), Node.says_scalar⟩
  singular := Or.inl ⟨_, ⟨_, Node.hasMember_mapping (.head _), Node.says_scalar⟩,
    FieldEntry.parse_usualLabel_ne⟩

theorem defaultAt (typeName default : String) :
    DefaultAt (root typeName default) (field typeName default) ⟨none, none⟩ default .plain := by
  have hmem : (word "default", word default) ∈ [(word "label", word "optional"),
      (word "type", word typeName), (word "name", word "value"), (word "number", word "1"),
      (word "default", word default)] := .tail _ (.tail _ (.tail _ (.tail _ (.head _))))
  exact ⟨word default, Node.hasMember_mapping hmem, .scalar⟩

/-- The number 1.5. -/
def bits : UInt64 := 0x3FF8000000000000

theorem text_bits : Number.text (.float bits) = "1.5" := by
  decide +kernel

theorem scalar_of_bits (word : String) (hread : (Decimal.decimal? word.toList).isSome = true)
    (hsigns : word.toList.all (Decimal.signs.contains ·) = true)
    (hdigit : word.toList.all (Numeral.isDigit 10) = false)
    (hbits : Decimal.toBits? Binary.double word = some bits.toNat) :
    scalar ⟨none, none⟩ word .plain = some (.number (.float bits)) := by
  obtain ⟨q, hq⟩ := Option.isSome_iff_exists.1 hread
  have hall : ∀ c ∈ word.toList, c ∈ Decimal.signs := fun c hc =>
    List.contains_iff_mem.1 (List.all_eq_true.1 hsigns c hc)
  obtain ⟨c, hc, hother⟩ := List.all_eq_false.1 hdigit
  exact Value.ofPlain_of_decimal hq hall ⟨c, hc, Bool.eq_false_iff.2 hother⟩
    (Or.inr String.ofList_toList.symm) hbits (by decide +kernel)

end Lab

/-! ## Taking and refusing -/

variable {text scope name typeName word shown : String} {root n : Node} {d : Document}
  {m : MessageEntry} {f : FieldEntry} {p : Properties} {style : Style} {v : Yaml.Value}
  {t : ScalarType} {pool : Pool}

/-- The field that a node states is one of the document. -/
theorem exists_gives (h : run? read root = some d) (hn : FieldAt root scope name typeName n)
    (hdefault : DefaultAt root n p word style) (hv : scalar p word style = some v)
    (hnull : v ≠ .null) : ∃ m f, d.States scope m ∧ f ∈ m.fields ∧ f.Gives name typeName v := by
  obtain ⟨outer, houter, hentry⟩ := hn.inside
  obtain ⟨m, hm, hstated⟩ := states_of_messageAt h houter
  obtain ⟨f, hf, hfield⟩ := hstated.fields n hentry
  refine ⟨m, f, hm, hf, hfield.name name hn.named, hfield.typeName typeName hn.typed, ?_, ?_⟩
  · rcases hn.singular with ⟨label, ⟨l, hl, hsays⟩, hlabel⟩ | hmissing
    · rwa [(hfield.label l hl).unique hsays]
    · rw [hfield.usual hmissing]
      exact FieldEntry.parse_usualLabel_ne
  · obtain ⟨l, hl, hstands⟩ := hdefault
    -- Only null may be left out, and this is not null.
    obtain ⟨u, hu, hread⟩ := Reads.of_value? hstands (hfield.default l hl)
    obtain rfl := Option.some.inj (hu.symm.trans hv)
    exact hread.resolve_right fun hnothing => hnull hnothing.2

/-- A schema that is loaded has been built from the draft of the document. -/
theorem exists_draft_of_loadYaml (h : ofYaml? text = some d) (hload : loadYaml text = .ok pool) :
    ∃ draft, d.draft = .ok draft ∧ draft.build = .ok pool := by
  rw [loadYaml, h] at hload
  obtain ⟨draft, hdraft, hbuild⟩ := bind_eq_ok.1 hload
  exact ⟨draft, mapError_eq_ok.1 hdraft, mapError_eq_ok.1 hbuild⟩

theorem takesDefault_of_gives (h : ofYaml? text = some d) (hm : d.States scope m) (hf : f ∈ m.fields)
    (hgives : f.Gives name typeName v) (hv : v.SetOut shown)
    (ht : ScalarType.ofKeyword? typeName = some t) {x : Scalar}
    (hx : Scalar.ofDefault t shown = .ok x) : TakesDefault text scope name shown x where
  accepted := by
    refine ⟨d, m, f, h, hm, hf, hgives.name, hgives.defaultText hv m.name,
      hgives.isOk_declare hv m.name, fun decl hdecl pool => ?_⟩
    have hlink : Link.field pool scope decl = _ :=
      hgives.link hv ht (FieldEntry.declaredAs_of_declare hdecl)
    rw [hx] at hlink
    exact ⟨_, hlink, rfl⟩
  loaded := by
    intro s hload
    obtain ⟨draft, hdraft, hbuild⟩ := exists_draft_of_loadYaml h hload
    obtain ⟨decl, g, hdecl, hlink, hfound⟩ := field_of_build hdraft hbuild hm hf
    obtain ⟨t, hmessage, hfield⟩ := hfound s rfl
    rw [hgives.link hv ht hdecl, hx] at hlink
    obtain rfl := Except.ok.inj hlink
    exact ⟨t, _, hmessage, hgives.name ▸ hfield, rfl, rfl⟩

theorem refusesDefault_of_gives (h : ofYaml? text = some d) (hm : d.States scope m)
    (hf : f ∈ m.fields) (hgives : f.Gives name typeName v) (hv : v.SetOut shown)
    (ht : ScalarType.ofKeyword? typeName = some t) {fault : DefaultFault}
    (hfault : Scalar.ofDefault t shown = .error fault) :
    RefusesDefault text scope name shown fault where
  refused := by
    refine ⟨d, m, f, h, hm, hf, hgives.name, hgives.defaultText hv m.name, fun decl hdecl pool => ?_⟩
    rw [hgives.link hv ht (FieldEntry.declaredAs_of_declare hdecl), hfault]
  unloaded := by
    intro pool hload
    obtain ⟨draft, hdraft, hbuild⟩ := exists_draft_of_loadYaml h hload
    obtain ⟨decl, g, hdecl, hlink, -⟩ := field_of_build hdraft hbuild hm hf
    rw [hgives.link hv ht hdecl, hfault] at hlink
    cases hlink

/-! ## Fields of type double -/

/-- **A field of type double takes a finite number for the value that is closest to it, and refuses a
word for a number that is not finite.** -/
theorem double_default (hroot : Node.ofText? text = some root) (h : ofYaml? text = some d)
    (hn : FieldAt root scope name "double" n) (hdefault : DefaultAt root n p word style)
    {number : Number} (hnumber : scalar p word style = some (.number number)) :
    (∃ (q : ℚ) (bits : UInt64), Number.Writes word q ∧
      Binary.IsClosestPattern Binary.double q bits.toNat ∧
        TakesDefault text scope name number.text (.double bits)) ∨
      Number.Special word number ∧ RefusesDefault text scope name number.text .notFloat := by
  have hread : run? read root = some d := by
    rwa [ofYaml?, hroot] at h
  obtain ⟨m, f, hm, hf, hgives⟩ := exists_gives hread hn hdefault hnumber (fun hnull => by cases hnull)
  have hkeyword : ScalarType.ofKeyword? "double" = some .double :=
    ScalarType.ofKeyword?_keyword .double
  rcases Number.readFrom_of_scalar hnumber with ⟨q, hwrites, hdenotes⟩ | hspecial
  · obtain ⟨bits, hbits, hclosest⟩ := hdenotes.ofDefault_text
    exact Or.inl ⟨q, bits, hwrites, hclosest,
      takesDefault_of_gives h hm hf hgives (.number number) hkeyword hbits⟩
  · exact Or.inr ⟨hspecial,
      refusesDefault_of_gives h hm hf hgives (.number number) hkeyword hspecial.ofDefault_text⟩

theorem double_default_lab : ∃ (q : ℚ) (bits : UInt64), Number.Writes "1.5" q ∧
    Binary.IsClosestPattern Binary.double q bits.toNat ∧
      TakesDefault (Lab.text "double" "1.5") "lab.Reading" "value" "1.5" (.double bits) := by
  have htokens : tokens? (Lab.text "double" "1.5") = some (Lab.tokens "double" "1.5") := by
    decide +kernel
  obtain ⟨d, h⟩ := Lab.exists_ofYaml? htokens (by decide +kernel)
  have hscalar := Lab.scalar_of_bits "1.5" (by decide) (by decide) (by decide) (by decide +kernel)
  rcases double_default (Lab.ofText?_of_tokens? htokens) h (Lab.fieldAt _ _) (Lab.defaultAt _ _)
    hscalar with htakes | ⟨-, hrefuses⟩
  · exact Lab.text_bits ▸ htakes
  · have hok : (loadYaml (Lab.text "double" "1.5")).isOk = true := by
      rw [loadYaml, ofYaml?, Lab.ofText?_of_tokens? htokens]
      decide +kernel
    obtain ⟨pool, hload⟩ := exists_of_isOk hok
    exact absurd hload (hrefuses.unloaded pool)

/-- **Infinity is refused** in the spelling that YAML has for it. -/
theorem not_loads_infinity : loadYaml (Lab.text "double" ".inf") =
    .error (.link (.invalidDefault "lab.Reading.value" ".inf" .notFloat)) := by
  decide +kernel

/-! ## Fields of type string -/

/-- **A field of type string takes a number or a truth value in its usual spelling,** which is read as
the same value. -/
theorem string_default (hroot : Node.ofText? text = some root) (h : ofYaml? text = some d)
    (hn : FieldAt root scope name "string" n) (hdefault : DefaultAt root n p word style)
    (hvalue : scalar p word style = some v) (hv : v.SetOut shown) :
    Yaml.Value.ofPlain shown = some v ∧ TakesDefault text scope name shown (.string shown) := by
  have hread : run? read root = some d := by
    rwa [ofYaml?, hroot] at h
  obtain ⟨m, f, hm, hf, hgives⟩ := exists_gives hread hn hdefault hvalue hv.ne_null
  exact ⟨hv.ofPlain hvalue, takesDefault_of_gives h hm hf hgives hv
    (ScalarType.ofKeyword?_keyword .string) rfl⟩

theorem Lab.tokens?_respelled :
    tokens? (Lab.text "string" "1.50") = some (Lab.tokens "string" "1.50") := by
  decide +kernel

theorem string_default_lab : Yaml.Value.ofPlain "1.5" = Yaml.Value.ofPlain "1.50" ∧
    TakesDefault (Lab.text "string" "1.50") "lab.Reading" "value" "1.5" (.string "1.5") := by
  obtain ⟨d, h⟩ := Lab.exists_ofYaml? Lab.tokens?_respelled (by decide +kernel)
  have hscalar := Lab.scalar_of_bits "1.50" (by decide) (by decide) (by decide) (by decide +kernel)
  have hsetOut : Yaml.Value.SetOut (.number (.float Lab.bits)) "1.5" := Lab.text_bits ▸ .number _
  obtain ⟨hplain, htakes⟩ := string_default (Lab.ofText?_of_tokens? Lab.tokens?_respelled) h
    (Lab.fieldAt _ _) (Lab.defaultAt _ _) hscalar hsetOut
  exact ⟨hplain.trans hscalar.symm, htakes⟩

/-- **A default can be declared otherwise than it is written.** -/
theorem not_as_written : (loadYaml (Lab.text "string" "1.50")).toOption.map
    (fun p => (p.message 0).fields.map fun f => (f.declared?, f.default)) =
      some [(some "1.5", .scalar (.string "1.5"))] := by
  rw [loadYaml, ofYaml?, Lab.ofText?_of_tokens? Lab.tokens?_respelled]
  decide +kernel

end Document

end ProtoSchema
