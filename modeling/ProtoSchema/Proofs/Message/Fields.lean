import ProtoSchema.Proofs.Message.Made
import ProtoSchema.Proofs.Pool.Fields

/-!
# Fields of a message type

A field is addressed by its name, its number or a handle, and each of them means this field only
(`MessageType.select_eq_ok_iff`), because names and numbers are used once within a message.

The default of a field fits the field: that of a repeated one is the empty list, and that of any other
is a value that can be set (`Field.toElement?_defaultValue`).
-/

namespace ProtoSchema

/-- The selector means the field of the message type. -/
inductive Selector.Addresses (t : MessageType) : Selector → FieldDef → Prop
  | name {f : FieldDef} (hf : f ∈ t.define.fields) : Addresses t (.name f.name) f
  | number {f : FieldDef} (hf : f ∈ t.define.fields) : Addresses t (.number f.number) f
  | field {f : FieldDef} (hf : f ∈ t.define.fields) : Addresses t (.field ⟨t, f⟩) f

namespace MessageType

variable {t : MessageType} {s : Selector} {f : FieldDef}

/-- **A field is selected when it is addressed.** -/
theorem select_eq_ok_iff (hp : t.schema.pool.Reachable) (hs : s.Genuine) :
    t.select s = .ok f ↔ s.Addresses t f := by
  have hresolved : t.define.Resolved t.schema.pool := hp.consistent.resolved_at t.index
  constructor
  · intro h
    have hf := mem_of_select hs h
    cases s with
    | name name =>
      cases hn : t.define.fields.find? (·.name = name) with
      | none => simp [select, fieldNamed?, hn] at h
      | some g =>
        obtain rfl : g = f := by simpa [select, fieldNamed?, hn] using h
        obtain rfl : g.name = name := by simpa using List.find?_some hn
        exact .name hf
    | number n =>
      cases hn : t.define.field? n with
      | none => simp [select, field?, hn] at h
      | some g =>
        obtain rfl : g = f := by simpa [select, field?, hn] using h
        obtain rfl := MessageDef.number_of_field? hn
        exact .number hf
    | field g =>
      rw [select] at h
      split at h
      · next ht =>
        obtain ⟨u, g⟩ := g
        obtain rfl : u = t := ht
        obtain rfl : g = f := Except.ok.inj h
        exact .field hf
      · simp at h
  · intro h
    cases h with
    | name hf =>
      have hn : t.define.fields.find? (·.name = f.name) = some f :=
        find?_of_mem_of_nodup hresolved.names hf
      simp [select, fieldNamed?, hn]
    | number hf => exact select_number (MessageDef.field?_of_mem hresolved.numbers hf)
    | field hf => exact if_pos rfl

end MessageType

/-! ## Defaults -/

/-- **A default that is declared for a scalar type fits it.** -/
theorem Scalar.fits_of_ofDefault {t : ScalarType} {text : String} {v : Scalar}
    (h : ofDefault t text = .ok v) : v.fits t = true := by
  cases t with
  | string =>
    obtain rfl := Except.ok.inj h
    rfl
  | bool =>
    unfold ofDefault at h
    simp only at h
    split at h
    · obtain rfl := Except.ok.inj h
      rfl
    · split at h
      · obtain rfl := Except.ok.inj h
        rfl
      · simp at h
  | bytes =>
    unfold ofDefault at h
    simp only at h
    split at h
    · obtain rfl := Except.ok.inj h
      rfl
    · simp at h
  | _ =>
    -- Numbers are read first, and then become values of the type.
    obtain ⟨n, -, rfl⟩ := Traverse.map_eq_ok.1 h
    rfl

namespace Field

variable {f : Field} {p : Pool}

theorem defaultValue_of_repeated
    (h : FieldDefault.Given p f.field.label f.field.kind f.field.declared? f.field.default)
    (hrep : f.field.isRepeated = true) : f.defaultValue = .list [] := by
  obtain ⟨t, name, number, label, kind, declared?, default⟩ := f
  obtain rfl : label = .repeated := by simpa [FieldDef.isRepeated] using hrep
  cases h with
  | repeated kind => rfl
  | zero singular | parsed singular | first singular | named singular | message singular =>
    exact absurd rfl singular

/-- **The default of a field that is not repeated is a value that the field takes.** -/
theorem toElement?_defaultValue
    (h : FieldDefault.Given p f.field.label f.field.kind f.field.declared? f.field.default)
    (hrep : f.field.isRepeated = false) :
    ∃ e, f.defaultValue.toElement? f.message.schema f.field.kind = some e := by
  obtain ⟨t, name, number, label, kind, declared?, default⟩ := f
  cases h with
  | repeated kind => simp [FieldDef.isRepeated] at hrep
  | zero _ t => exact ⟨_, if_pos (Scalar.fits_zero t)⟩
  | parsed _ h => exact ⟨_, if_pos (Scalar.fits_of_ofDefault h)⟩
  | first _ lt => exact ⟨_, if_pos rfl⟩
  | named _ h => exact ⟨_, if_pos rfl⟩
  | message _ i => exact ⟨_, if_pos rfl⟩

end Field

/-- A field of any kind takes no list. -/
theorem Value.toElement?_list (s : Schema) (kind : FieldKind) (vs : List Value) :
    (Value.list vs).toElement? s kind = none := by
  cases kind <;> rfl

/-! ## Reachable pools -/

/-- **In a reachable pool fields and enums are as they were declared.** Their names and numbers are in
range and used once, their kinds are types of the pool, and their defaults are what was declared. So
the default of a repeated field is the empty list, and that of any other field is no list, and can be
set in each message of its type, however the field is addressed. -/
theorem Pool.Reachable.fields_resolved {p : Pool} (h : p.Reachable) :
    (∀ m ∈ p.messages, m.Resolved p) ∧ (∀ e ∈ p.enums, e.Resolved) ∧
      ∀ t : MessageType, t.schema.pool = p → ∀ f ∈ t.fields,
        (f.field.isRepeated = true → f.defaultValue = .list []) ∧
        (f.field.isRepeated = false → (∀ vs, f.defaultValue ≠ .list vs) ∧
          ∀ m : Message, m.type = t → ∀ s, Selector.Addresses t s f.field →
            ∃ m', m.set s f.defaultValue = .ok m') := by
  have hc := h.consistent
  refine ⟨hc.resolved_message, hc.resolved_enum, ?_⟩
  rintro t rfl f hf
  obtain ⟨g, hg, rfl⟩ := List.mem_map.1 hf
  have hgiven := ((hc.resolved_at t.index).fields g hg).default
  refine ⟨Field.defaultValue_of_repeated (f := ⟨t, g⟩) hgiven, ?_⟩
  intro hrep
  obtain ⟨e, he⟩ := Field.toElement?_defaultValue (f := ⟨t, g⟩) hgiven hrep
  constructor
  · intro vs hvs
    rw [hvs, Value.toElement?_list] at he
    exact Option.some_ne_none e he.symm
  · rintro m rfl s hs
    have hgenuine : s.Genuine := by
      cases hs with
      | name hf => trivial
      | number hf => trivial
      | field hf => exact hf
    have hselect := (MessageType.select_eq_ok_iff h hgenuine).2 hs
    exact ⟨_, Message.set_eq_ok_iff.2 ⟨g, e, hselect, hrep, he, rfl⟩⟩

theorem Pool.Reachable.fields_resolved_chain :
    Field.defaultValue ⟨⟨⟨0, Pool.chain⟩, 0⟩, ⟨"marks", 2, .repeated, .scalar .int32, none,
      .emptyList⟩⟩ = .list [] ∧
      ∃ m', (Message.empty ⟨⟨0, Pool.chain⟩, 0⟩).set (.name "next") (Field.defaultValue
        ⟨⟨⟨0, Pool.chain⟩, 0⟩, ⟨"next", 1, .optional, .message 0, none, .emptyMessage⟩⟩) = .ok m' := by
  have hfields := (Pool.Reachable.fields_resolved Pool.reachable_chain).2.2 ⟨⟨0, Pool.chain⟩, 0⟩ rfl
  have hnext := hfields ⟨_, ⟨"next", 1, .optional, .message 0, none, .emptyMessage⟩⟩ (.head _)
  have hmarks := hfields ⟨_, ⟨"marks", 2, .repeated, .scalar .int32, none, .emptyList⟩⟩
    (.tail _ (.head _))
  refine ⟨hmarks.1 rfl, (hnext.2 rfl).2 _ rfl (.name "next") ?_⟩
  exact Selector.Addresses.name (f := ⟨"next", 1, .optional, .message 0, none, .emptyMessage⟩) (.head _)

end ProtoSchema
