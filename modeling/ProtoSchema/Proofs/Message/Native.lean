import ProtoSchema.Message.Encode
import ProtoSchema.Message.Text
import ProtoSchema.Proofs.Message.Edit
import ProtoSchema.Proofs.Message.Merge

/-!
# What messages hold

`Value.Native` says what a field of a schema may hold, down to the innermost message: a scalar of the
field's type, a declared value of its enum, or a message of its type, both of the very schema, however
like another schema may be. A message holds values for its own fields only, a list that is not empty
for a repeated one and one value, which is no list, for any other.

**Whatever a program changes or decodes, messages hold nothing else**
(`Message.Made.holds_native`). So the writers of bytes and text come to no value that they would have
to leave out: they give what strict writers give, which give nothing when they do.
-/

namespace ProtoSchema

/-- The schema that the value belongs to, if it is an enum value or a message. -/
def Value.schema? : Value → Option Schema
  | .enum v => some v.type.schema
  | .message m => some m.type.schema
  | .scalar _ => none
  | .list _ => none

theorem Value.schema_of_toElement {s s' : Schema} {kind : FieldKind} {v : Value} {e : Element}
    (h : v.toElement? s kind = some e) (hs : v.schema? = some s') : s' = s := by
  cases v with
  | scalar v => simp [schema?] at hs
  | enum v =>
    cases kind <;> simp [toElement?] at h
    simpa [schema?, h.1] using hs.symm
  | message m =>
    cases kind <;> simp [toElement?] at h
    simpa [schema?, h.1] using hs.symm
  | list vs => simp [schema?] at hs

/-- The value is one that a field of the kind holds in messages of the schema. -/
inductive Value.Native (s : Schema) : FieldKind → Value → Prop
  | scalar {t : ScalarType} {v : Scalar} (fits : v.fits t = true) : Native s (.scalar t) (.scalar v)
  | enum {k : Nat} {v : EnumValue} (type : v.type = ⟨s, k⟩)
    (declared : v.index < v.type.define.values.length) : Native s (.enum k) (.enum v)
  | message {t : Nat} {m : Message} (type : m.type = ⟨s, t⟩)
    (known : m.fields.map (·.1.number) = Content.numbers m.content)
    (genuine : ∀ x ∈ m.fields, x.1.message = m.type ∧ x.1.Genuine)
    (lists : ∀ x ∈ m.fields, x.1.field.isRepeated = true → ∃ vs, x.2 = .list vs ∧ vs ≠ [])
    (items : ∀ x ∈ m.fields, x.1.field.isRepeated = true → ∀ vs, x.2 = .list vs →
      ∀ v ∈ vs, Native s x.1.field.kind v)
    (alone : ∀ x ∈ m.fields, x.1.field.isRepeated = false →
      (Content.values x.1.number m.content).length = 1)
    (single : ∀ x ∈ m.fields, x.1.field.isRepeated = false → Native s x.1.field.kind x.2) :
    Native s (.message t) (.message m)

/-! ## The fields of a message -/

theorem Content.mem_numbers {α : Type} {n : Nat} {c : List (Nat × α)} :
    n ∈ numbers c ↔ ∃ a, (n, a) ∈ c := by
  rw [numbers, List.mem_eraseDups, List.mem_map]
  constructor
  · rintro ⟨⟨n, a⟩, ha, rfl⟩
    exact ⟨a, ha⟩
  · rintro ⟨a, ha⟩
    exact ⟨(n, a), ha, rfl⟩

theorem Content.values_ne_nil {α : Type} {n : Nat} {c : List (Nat × α)} (h : n ∈ numbers c) :
    values n c ≠ [] := by
  obtain ⟨a, ha⟩ := mem_numbers.1 h
  exact List.ne_nil_of_mem (mem_values.2 ha)

namespace Message

variable {m : Message}

theorem report_ne_nil {f : FieldDef} (h : f.number ∈ Content.numbers m.content) : m.report f ≠ [] := by
  rw [report, ne_eq, List.map_eq_nil_iff]
  exact Content.values_ne_nil h

/-- **No value of a typed message is passed over when its fields are listed.** -/
theorem numbers_fields (h : Content.Typed m.type.schema.pool m.type.index m.content) :
    m.fields.map (·.1.number) = Content.numbers m.content := by
  rw [fields, List.map_filterMap]
  refine (List.filterMap_congr fun n hn => ?_).trans List.filterMap_some
  obtain ⟨e, he⟩ := Content.mem_numbers.1 hn
  obtain ⟨f, hf, -⟩ := h.belongs _ he
  obtain rfl : f.number = n := MessageDef.number_of_field? hf
  have hfield : m.type.field? f.number = some ⟨m.type, f⟩ := by
    rw [MessageType.field?, MessageType.define, hf]
    rfl
  rw [hfield, Option.bind_some]
  split
  · rfl
  · cases hr : m.report f with
    | nil => exact absurd hr (report_ne_nil hn)
    | cons v vs => rfl

end Message

/-- **What a typed element stands for is a native value.** -/
theorem Element.Typed.native {s : Schema} {kind : FieldKind} {e : Element}
    (h : e.Typed s.pool kind) : (Value.ofElement s kind e).Native s kind := by
  induction h with
  | scalar fits => exact .scalar fits
  | enum lt => exact .enum rfl lt
  | @message t c known typed ordered ih =>
    have hc : Content.Typed s.pool t c := Content.typed_message_iff.1 (.message known typed ordered)
    let m : Message := ⟨⟨s, t⟩, c⟩
    have hreport : ∀ f, (s.pool.message t).field? f.number = some f → ∀ v ∈ m.report f,
        v.Native s f.kind := by
      intro f hf v hv
      obtain ⟨e, he, rfl⟩ := List.mem_map.1 hv
      exact ih _ (Content.mem_values.1 he) f hf
    have hfield : ∀ x ∈ m.fields, ∃ f, (s.pool.message t).field? f.number = some f ∧
        f.number ∈ Content.numbers c ∧ x.1 = ⟨m.type, f⟩ ∧
          (f.isRepeated = true ∧ x.2 = .list (m.report f) ∨
            f.isRepeated = false ∧ x.2 ∈ (m.report f).head?) :=
      fun x hx => Message.exists_of_mem_fields hx
    refine .message (m := m) rfl (Message.numbers_fields hc) ?genuine ?lists ?items ?alone
      ?single <;> rintro ⟨_, v⟩ hx <;> obtain ⟨f, hf, hn, rfl, hv⟩ := hfield _ hx <;> simp only at hv ⊢
    case genuine => exact ⟨trivial, MessageDef.mem_of_field? hf⟩
    case lists =>
      intro hrep
      rcases hv with ⟨-, hv⟩ | ⟨hsingle, -⟩
      · exact ⟨_, hv, Message.report_ne_nil hn⟩
      · simp [hrep] at hsingle
    case items =>
      intro hrep vs hvs w hw
      rcases hv with ⟨-, hv⟩ | ⟨hsingle, -⟩
      · obtain rfl : m.report f = vs := by simpa [hv] using hvs
        exact hreport f hf w hw
      · simp [hrep] at hsingle
    case alone =>
      intro hrep
      have hle := hc.length_values_le hf hrep
      have hpos := List.length_pos_iff.2 (Content.values_ne_nil hn)
      exact Nat.le_antisymm hle hpos
    case single =>
      intro hrep
      rcases hv with ⟨hlist, -⟩ | ⟨-, hv⟩
      · simp [hrep] at hlist
      · exact hreport f hf v (List.mem_of_mem_head? hv)

/-! ## Strict writers -/

mutual

/-- The record of a value, if its field takes it. -/
def Element.encode? (p : Pool) (f : FieldDef) : Element → Option Bytes
  | .scalar v =>
    match f.kind with
    | .scalar t =>
      if v.fits t then some (Wire.key f.number t.wireType ++ v.payload t) else none
    | _ => none
  | .enum i =>
    match f.kind with
    | .enum k =>
      if i < (p.enum k).values.length then
        some (Wire.key f.number .varint ++ Wire.signed ((p.enum k).value i).number.toInt)
      else none
    | _ => none
  | .message c =>
    match f.kind with
    | .message t =>
      (Content.encode? p t c).map fun bs => Wire.key f.number .delimited ++ Wire.delimited bs
    | _ => none

/-- The records of a content, if each of its values is one that a field of the type takes. -/
def Content.encode? (p : Pool) (t : Nat) : Content → Option Bytes
  | [] => some []
  | (n, e) :: rest =>
    match (p.message t).field? n with
    | some f => (e.encode? p f).bind fun bs => (Content.encode? p t rest).map (bs ++ ·)
    | none => none

end

mutual

/-- The lines of a value, if its field takes it. -/
def Element.text? (p : Pool) (depth : Nat) (f : FieldDef) : Element → Option String
  | .scalar v =>
    match f.kind with
    | .scalar t => if v.fits t then some ((Element.scalar v).text p depth f) else none
    | _ => none
  | .enum i =>
    match f.kind with
    | .enum k =>
      if i < (p.enum k).values.length then some ((Element.enum i).text p depth f) else none
    | _ => none
  | .message c =>
    match f.kind with
    | .message t =>
      (Content.text? p (depth + 1) t c).map fun lines =>
        s!"{indent depth}{f.name} \x7b\n" ++ lines ++ s!"{indent depth}\x7d\n"
    | _ => none

/-- The lines of a content, if each of its values is one that a field of the type takes. -/
def Content.text? (p : Pool) (depth : Nat) (t : Nat) : Content → Option String
  | [] => some ""
  | (n, e) :: rest =>
    match (p.message t).field? n with
    | some f => (e.text? p depth f).bind fun line => (Content.text? p depth t rest).map (line ++ ·)
    | none => none

end

/-- A content that has all its values written is written as a whole. -/
theorem Content.encode?_eq {p : Pool} {t : Nat} {c : Content}
    (h : ∀ x ∈ c, ∃ f, (p.message t).field? x.1 = some f ∧ x.2.encode? p f = some (x.2.encode p f)) :
    encode? p t c = some (encode p t c) := by
  induction c with
  | nil => rw [encode?, encode]
  | cons x c ih =>
    rw [List.forall_mem_cons] at h
    obtain ⟨⟨f, hf, hx⟩, hc⟩ := h
    rw [encode?, encode]
    simp only [hf, hx, ih hc, Option.bind_some, Option.map_some]

theorem Content.text?_eq {p : Pool} {depth t : Nat} {c : Content}
    (h : ∀ x ∈ c, ∃ f, (p.message t).field? x.1 = some f ∧
      x.2.text? p depth f = some (x.2.text p depth f)) :
    text? p depth t c = some (text p depth t c) := by
  induction c with
  | nil => rw [text?, text]
  | cons x c ih =>
    rw [List.forall_mem_cons] at h
    obtain ⟨⟨f, hf, hx⟩, hc⟩ := h
    rw [text?, text]
    simp only [hf, hx, ih hc, Option.bind_some, Option.map_some]

/-- **The strict writers write every value that its field takes, and as the writers do.** -/
theorem Element.Typed.written {p : Pool} {kind : FieldKind} {e : Element} (h : e.Typed p kind) :
    ∀ f : FieldDef, f.kind = kind → e.encode? p f = some (e.encode p f) ∧
      ∀ depth, e.text? p depth f = some (e.text p depth f) := by
  induction h with
  | scalar fits =>
    intro f hkind
    simp [Element.encode?, Element.encode, Element.text?, hkind, fits]
  | enum lt =>
    intro f hkind
    simp [Element.encode?, Element.encode, Element.text?, hkind, lt]
  | message known typed ordered ih =>
    intro f hkind
    have hencode := Content.encode?_eq fun x hx => by
      obtain ⟨g, hg⟩ := known x hx
      exact ⟨g, hg, (ih x hx g hg g rfl).1⟩
    have htext := fun depth => Content.text?_eq fun x hx => by
      obtain ⟨g, hg⟩ := known x hx
      exact ⟨g, hg, (ih x hx g hg g rfl).2 (depth + 1)⟩
    constructor
    · rw [Element.encode?, Element.encode, hkind]
      simp only [hencode, Option.map_some]
    · intro depth
      rw [Element.text?, Element.text, hkind]
      simp only [htext, Option.map_some, FieldKind.index]

/-! ## Messages -/

namespace Message

variable {m : Message}

/-- The bytes of a message whose fields take all its values. -/
def encode? (m : Message) : Option Bytes := Content.encode? m.type.schema.pool m.type.index m.content

/-- The text of a message whose fields take all its values. -/
def text? (m : Message) : Option String := Content.text? m.type.schema.pool 0 m.type.index m.content

theorem Sound.native (h : m.Sound) :
    Value.Native m.type.schema (.message m.type.index) (.message m) :=
  (Content.typed_message_iff.2 h.typed).native

theorem Sound.encode?_eq (h : m.Sound) : m.encode? = some m.encode := by
  refine Content.encode?_eq fun x hx => ?_
  obtain ⟨f, hf, htyped⟩ := h.typed.belongs x hx
  exact ⟨f, hf, (htyped.written f rfl).1⟩

theorem Sound.text?_eq (h : m.Sound) : m.text? = some m.text := by
  refine Content.text?_eq fun x hx => ?_
  obtain ⟨f, hf, htyped⟩ := h.typed.belongs x hx
  exact ⟨f, hf, (htyped.written f rfl).2 0⟩

/-- **A value of another schema is refused**, whatever its type is called. -/
theorem edit_foreign {e : Edit} {v : Value} (hv : e.value? = some v) {s : Schema}
    (hs : v.schema? = some s) (hne : s ≠ m.type.schema) : ∃ fault, m.edit e = .error fault := by
  cases he : m.edit e with
  | error fault => exact ⟨fault, rfl⟩
  | ok m' =>
    obtain ⟨f, x, -, hx⟩ := toElement?_of_edit he hv
    exact absurd (Value.schema_of_toElement hx hs) hne

/-- **Messages hold native values only.** It holds of any message that a program can come by, after
any changes with fields and values that it can come by, be they refused or not. Values of other schemas
are refused; and the writers leave out nothing, since strict ones write the same. -/
theorem Made.holds_native (h : m.Made) {es : List Edit} (hes : ∀ e ∈ es, e.Made) :
    (m.run es).type = m.type ∧
      Value.Native m.type.schema (.message m.type.index) (.message (m.run es)) ∧
      (∀ e v s, Edit.value? e = some v → v.schema? = some s → s ≠ m.type.schema →
        ∃ fault, (m.run es).edit e = .error fault) ∧
      (m.run es).encode? = some (m.run es).encode ∧ (m.run es).text? = some (m.run es).text := by
  obtain ⟨hmade, htype⟩ := h.run hes
  have hsound := hmade.sound
  refine ⟨htype, ?_, ?_, hsound.encode?_eq, hsound.text?_eq⟩
  · rw [← htype]
    exact hsound.native
  · intro e v s hv hs hne
    exact edit_foreign hv hs (htype ▸ hne)

/-- A link that is given a mark and a link of another schema, which is like its own, has the mark only. -/
theorem native_chain :
    let m := (Message.empty ⟨⟨0, Pool.chain⟩, 0⟩).run
      [.add (.name "marks") (.scalar (.int32 7)),
        .set (.name "next") (.message (.empty ⟨⟨1, Pool.chain⟩, 0⟩))]
    m.content = [(2, .scalar (.int32 7))] ∧
      Value.Native ⟨0, Pool.chain⟩ (.message 0) (.message m) ∧
        ∃ fault, m.edit (.set (.name "next") (.message (.empty ⟨⟨1, Pool.chain⟩, 0⟩))) =
          .error fault := by
  have hempty : (Message.empty ⟨⟨0, Pool.chain⟩, 0⟩).Made := .empty Pool.reachable_chain
  have hother : (Message.empty ⟨⟨1, Pool.chain⟩, 0⟩).Made := .empty Pool.reachable_chain
  have hedits : ∀ e ∈ ([.add (.name "marks") (.scalar (.int32 7)),
      .set (.name "next") (.message (.empty ⟨⟨1, Pool.chain⟩, 0⟩))] : List Edit), e.Made := by
    rw [List.forall_mem_cons, List.forall_mem_singleton]
    refine ⟨⟨trivial, ?_⟩, trivial, ?_⟩
    · rintro v ⟨⟩
      exact .scalar _
    · rintro v ⟨⟩
      exact hother
  obtain ⟨-, hnative, hforeign, -, -⟩ := Made.holds_native hempty hedits
  exact ⟨rfl, hnative, hforeign _ _ ⟨1, Pool.chain⟩ rfl rfl (by decide)⟩

end Message

end ProtoSchema
