import ProtoSchema.Message.Required
import ProtoSchema.Proofs.Message.Access
import ProtoSchema.Proofs.Message.Decode
import ProtoSchema.Proofs.Message.Merge
import ProtoSchema.Proofs.Pool.Sound

/-!
# Messages that can be made

`Value.Made` holds of the values that a program can come by: scalars and enum values, lists of such
values, what messages and fields report, and the messages that are empty, decoded, or changed from one
another. It does not say what they look like.

**All of them are sound** (`Value.Made.sound`): their contents are typed in pools that are reachable.
-/

namespace ProtoSchema

/-- The field is one of its message type. -/
def Field.Genuine (f : Field) : Prop := f.field ∈ f.message.define.fields

/-- A field that is named by a handle is one of its message type. -/
def Selector.Genuine : Selector → Prop
  | .field f => f.Genuine
  | .name _ => True
  | .number _ => True

/-- The values that a program can come by. -/
inductive Value.Made : Value → Prop
  | scalar (v : Scalar) : Made (.scalar v)
  | enum {v : EnumValue} (lt : v.index < v.type.define.values.length) : Made (.enum v)
  | list {vs : List Value} (h : ∀ v ∈ vs, Made v) : Made (.list vs)
  | item {vs : List Value} {v : Value} (h : Made (.list vs)) (hv : v ∈ vs) : Made v
  | default {f : Field} (hp : f.message.schema.pool.Reachable) (hf : f.Genuine) :
    Made f.defaultValue
  | get {m : Message} {s : Selector} {v : Value} (hm : Made (.message m)) (hs : s.Genuine)
    (h : m.get s = .ok v) : Made v
  | getAt {m : Message} {s : Selector} {i : Nat} {v : Value} (hm : Made (.message m))
    (hs : s.Genuine) (h : m.getAt s i = .ok v) : Made v
  | field {m : Message} {x : Field × Value} (hm : Made (.message m)) (hx : x ∈ m.fields) : Made x.2
  | empty {type : MessageType} (hp : type.schema.pool.Reachable) : Made (.message (.empty type))
  | set {m m' : Message} {s : Selector} {v : Value} (hm : Made (.message m)) (hs : s.Genuine)
    (hv : Made v) (h : m.set s v = .ok m') : Made (.message m')
  | add {m m' : Message} {s : Selector} {v : Value} (hm : Made (.message m)) (hs : s.Genuine)
    (hv : Made v) (h : m.add s v = .ok m') : Made (.message m')
  | setAt {m m' : Message} {s : Selector} {i : Nat} {v : Value} (hm : Made (.message m))
    (hs : s.Genuine) (hv : Made v) (h : m.setAt s i v = .ok m') : Made (.message m')
  | clear {m m' : Message} {s : Selector} (hm : Made (.message m)) (hs : s.Genuine)
    (h : m.clear s = .ok m') : Made (.message m')
  | finish {m m' : Message} (hm : Made (.message m)) (h : m.finish = .ok m') : Made (.message m')
  | decode {type : MessageType} {bs : Bytes} {m : Message} (hp : type.schema.pool.Reachable)
    (h : Message.decode type bs = .ok m) : Made (.message m)

/-- The messages that a program can come by. -/
def Message.Made (m : Message) : Prop := Value.Made (.message m)

/-- The content is typed in a pool that is reachable. -/
structure Message.Sound (m : Message) : Prop where
  reachable : m.type.schema.pool.Reachable
  typed : Content.Typed m.type.schema.pool m.type.index m.content

/-- The enum values in the value are declared and the messages in it are sound. -/
inductive Value.Sound : Value → Prop
  | scalar (v : Scalar) : Sound (.scalar v)
  | enum {v : EnumValue} (lt : v.index < v.type.define.values.length) : Sound (.enum v)
  | message {m : Message} (h : m.Sound) : Sound (.message m)
  | list {vs : List Value} (h : ∀ v ∈ vs, Sound v) : Sound (.list vs)

theorem Value.Sound.of_message {m : Message} (h : Value.Sound (.message m)) : m.Sound := by
  cases h with
  | message h => exact h

theorem Value.Sound.of_list {vs : List Value} (h : Value.Sound (.list vs)) : ∀ v ∈ vs, v.Sound := by
  cases h with
  | list h => exact h

/-! ## Fields and elements -/

theorem MessageType.mem_of_select {t : MessageType} {s : Selector} {f : FieldDef} (hs : s.Genuine)
    (h : t.select s = .ok f) : f ∈ t.define.fields := by
  cases s with
  | name name =>
    cases hf : t.define.fields.find? (·.name = name) with
    | none => simp [select, fieldNamed?, hf] at h
    | some g =>
      obtain rfl : g = f := by simpa [select, fieldNamed?, hf] using h
      exact List.mem_of_find?_eq_some hf
  | number n =>
    cases hf : t.define.field? n with
    | none => simp [select, field?, hf] at h
    | some g =>
      obtain rfl : g = f := by simpa [select, field?, hf] using h
      exact MessageDef.mem_of_field? hf
  | field g =>
    rw [select] at h
    split at h
    · next ht =>
      obtain rfl := Except.ok.inj h
      exact ht ▸ hs
    · simp at h

theorem MessageType.select_number {t : MessageType} {n : Nat} {f : FieldDef}
    (h : t.define.field? n = some f) : t.select (.number n) = .ok f := by
  simp [select, field?, h]

theorem Value.sound_ofElement {s : Schema} {kind : FieldKind} {e : Element}
    (hp : s.pool.Reachable) (h : e.Typed s.pool kind) : (Value.ofElement s kind e).Sound := by
  cases h with
  | scalar fits => exact .scalar _
  | enum lt => exact .enum lt
  | message known typed ordered =>
    exact .message ⟨hp, Content.typed_message_iff.1 (.message known typed ordered)⟩

/-- **An element that a sound value gives is one that the field takes.** -/
theorem Value.Sound.typed_toElement {s : Schema} {kind : FieldKind} {v : Value} {e : Element}
    (hv : v.Sound) (h : v.toElement? s kind = some e) : e.Typed s.pool kind := by
  -- Only a kind of the value's own form takes it.
  cases hv with
  | scalar v =>
    cases kind with
    | scalar t =>
      simp only [toElement?, Option.ite_none_right_eq_some, Option.some.injEq] at h
      obtain ⟨hfits, rfl⟩ := h
      exact .scalar hfits
    | message t => simp [toElement?] at h
    | enum k => simp [toElement?] at h
  | @enum v lt =>
    cases kind with
    | scalar t => simp [toElement?] at h
    | message t => simp [toElement?] at h
    | enum k =>
      simp only [toElement?, Option.ite_none_right_eq_some, Option.some.injEq] at h
      obtain ⟨htype, rfl⟩ := h
      rw [htype] at lt
      exact .enum lt
  | @message m hm =>
    cases kind with
    | scalar t => simp [toElement?] at h
    | message t =>
      simp only [toElement?, Option.ite_none_right_eq_some, Option.some.injEq] at h
      obtain ⟨htype, rfl⟩ := h
      have htyped := hm.typed
      rw [htype] at htyped
      exact Content.typed_message_iff.2 htyped
    | enum k => simp [toElement?] at h
  | list hvs => cases kind <;> simp [toElement?] at h

/-- The default of a field of a reachable pool is sound. -/
theorem Field.sound_defaultValue {f : Field} (hp : f.message.schema.pool.Reachable)
    (hf : f.Genuine) : f.defaultValue.Sound := by
  unfold defaultValue
  split
  · exact .scalar _
  · next i t hdefault hkind =>
    refine .enum ?_
    cases hk : f.field.kind with
    | scalar t => simp [kind, hk] at hkind
    | message t => simp [kind, hk] at hkind
    | enum k =>
      obtain rfl : ⟨f.message.schema, k⟩ = t := by simpa [kind, hk] using hkind
      exact hp.sound.defaults _ _ hf k i hk hdefault
  · next t hdefault hkind =>
    refine .message ⟨?_, Content.typed_nil⟩
    cases hk : f.field.kind with
    | scalar t => simp [kind, hk] at hkind
    | message i =>
      obtain rfl : ⟨f.message.schema, i⟩ = t := by simpa [kind, hk] using hkind
      exact hp
    | enum k => simp [kind, hk] at hkind
  · exact .list fun _ hv => absurd hv List.not_mem_nil

namespace Message

variable {m m' : Message} {s : Selector} {f : FieldDef} {v : Value}

/-- The field that is selected is the one with its number. -/
theorem Sound.field?_of_mem (h : m.Sound) (hf : f ∈ m.type.define.fields) :
    m.type.define.field? f.number = some f :=
  MessageDef.field?_of_mem (h.reachable.sound.numbers _) hf

/-! ## Reading -/

theorem Sound.of_mem_report (h : m.Sound) (hf : f ∈ m.type.define.fields) :
    ∀ v ∈ m.report f, v.Sound := by
  rw [report, List.forall_mem_map]
  intro e he
  exact Value.sound_ofElement h.reachable (h.typed.of_mem_values (h.field?_of_mem hf) he)

/-- A field that is not repeated reports one value at most. -/
theorem Sound.length_report_le (h : m.Sound) (hf : f ∈ m.type.define.fields)
    (hrep : f.isRepeated = false) : (m.report f).length ≤ 1 := by
  rw [report, List.length_map]
  exact h.typed.length_values_le (h.field?_of_mem hf) hrep

theorem Sound.get (h : m.Sound) (hs : s.Genuine) (hv : m.get s = .ok v) : v.Sound := by
  obtain ⟨f, hf, hv⟩ := Traverse.bind_eq_ok.1 hv
  have hmem := MessageType.mem_of_select hs hf
  split at hv
  · obtain rfl := Except.ok.inj hv
    exact .list (h.of_mem_report hmem)
  · obtain rfl := Except.ok.inj hv
    cases hhead : (m.report f).head? with
    | none => exact Field.sound_defaultValue h.reachable hmem
    | some v => exact h.of_mem_report hmem v (List.mem_of_mem_head? hhead)

theorem Sound.getAt {i : Nat} (h : m.Sound) (hs : s.Genuine) (hv : m.getAt s i = .ok v) :
    v.Sound := by
  obtain ⟨f, hf, hv⟩ := Traverse.bind_eq_ok.1 hv
  simp only at hv
  split at hv
  · next w hw =>
    obtain rfl := Except.ok.inj hv
    obtain ⟨hf, -⟩ := selectRepeated_eq_ok_iff.1 hf
    exact h.of_mem_report (MessageType.mem_of_select hs hf) w (List.mem_of_getElem? hw)
  · simp at hv

/-- What is reported with the fields that are set: the elements of a repeated field, the first value
of any other. -/
theorem exists_of_mem_fields {x : Field × Value} (hx : x ∈ m.fields) :
    ∃ f, m.type.define.field? f.number = some f ∧ f.number ∈ Content.numbers m.content ∧
      x.1 = ⟨m.type, f⟩ ∧ (f.isRepeated = true ∧ x.2 = .list (m.report f) ∨
        f.isRepeated = false ∧ x.2 ∈ (m.report f).head?) := by
  obtain ⟨n, hn, hx⟩ := List.mem_filterMap.1 hx
  obtain ⟨g, hg, hgx⟩ := Option.bind_eq_some_iff.1 hx
  obtain ⟨f, hf, rfl⟩ := Option.map_eq_some_iff.1 hg
  obtain rfl := MessageDef.number_of_field? hf
  refine ⟨f, hf, hn, ?_⟩
  split at hgx
  · next hrep =>
    obtain rfl := Option.some.inj hgx
    exact ⟨rfl, Or.inl ⟨hrep, rfl⟩⟩
  · next hrep =>
    obtain ⟨v, hv, rfl⟩ := Option.map_eq_some_iff.1 hgx
    exact ⟨rfl, Or.inr ⟨Bool.eq_false_iff.2 hrep, hv⟩⟩

theorem Sound.of_mem_fields (h : m.Sound) {x : Field × Value} (hx : x ∈ m.fields) : x.2.Sound := by
  obtain ⟨f, hf, -, -, hv⟩ := exists_of_mem_fields hx
  have hreport := h.of_mem_report (MessageDef.mem_of_field? hf)
  rcases hv with ⟨-, hv⟩ | ⟨-, hv⟩
  · rw [hv]
    exact .list hreport
  · exact hreport _ (List.mem_of_mem_head? hv)

/-! ## Changing -/

theorem Sound.set (h : m.Sound) (hs : s.Genuine) (hv : v.Sound) (hm : m.set s v = .ok m') :
    m'.Sound := by
  obtain ⟨f, e, hf, -, he, rfl⟩ := set_eq_ok_iff.1 hm
  have hfield := h.field?_of_mem (MessageType.mem_of_select hs hf)
  refine ⟨h.reachable, h.typed.replace hfield (Or.inr (Nat.le_refl 1)) ?_⟩
  rw [List.forall_mem_singleton]
  exact hv.typed_toElement he

theorem Sound.add (h : m.Sound) (hs : s.Genuine) (hv : v.Sound) (hm : m.add s v = .ok m') :
    m'.Sound := by
  obtain ⟨f, e, hf, hrep, he, rfl⟩ := add_eq_ok_iff.1 hm
  have hfield := h.field?_of_mem (MessageType.mem_of_select hs hf)
  exact ⟨h.reachable, h.typed.append hfield hrep (hv.typed_toElement he)⟩

theorem Sound.setAt {i : Nat} (h : m.Sound) (hs : s.Genuine) (hv : v.Sound)
    (hm : m.setAt s i v = .ok m') : m'.Sound := by
  obtain ⟨f, e, hf, hrep, he, -, rfl⟩ := setAt_eq_ok_iff.1 hm
  have hfield := h.field?_of_mem (MessageType.mem_of_select hs hf)
  refine ⟨h.reachable, h.typed.replace hfield (Or.inl hrep) ?_⟩
  intro x hx
  rcases List.mem_or_eq_of_mem_set hx with hx | rfl
  · exact h.typed.of_mem_values hfield hx
  · exact hv.typed_toElement he

theorem Sound.clear (h : m.Sound) (hm : m.clear s = .ok m') : m'.Sound := by
  obtain ⟨f, -, rfl⟩ := clear_eq_ok_iff.1 hm
  exact ⟨h.reachable, h.typed.clear f.number⟩

theorem Sound.finish (h : m.Sound) (hm : m.finish = .ok m') : m'.Sound := by
  unfold Message.finish at hm
  split at hm
  · obtain rfl := Except.ok.inj hm
    exact h
  · simp at hm

theorem sound_of_decode {type : MessageType} {bs : Bytes} (hp : type.schema.pool.Reachable)
    (hm : decode type bs = .ok m) : m.Sound := by
  obtain ⟨c, hc, rfl⟩ := Traverse.map_eq_ok.1 hm
  exact ⟨hp, (Decode.content_typed hc).1⟩

end Message

/-- **Every value that a program can come by is sound.** -/
theorem Value.Made.sound {v : Value} (h : v.Made) : v.Sound := by
  induction h with
  | scalar v => exact .scalar v
  | enum lt => exact .enum lt
  | list _ ih => exact .list ih
  | item _ hv ih => exact ih.of_list _ hv
  | default hp hf => exact Field.sound_defaultValue hp hf
  | get _ hs h ih => exact ih.of_message.get hs h
  | getAt _ hs h ih => exact ih.of_message.getAt hs h
  | field _ hx ih => exact ih.of_message.of_mem_fields hx
  | empty hp => exact .message ⟨hp, Content.typed_nil⟩
  | set _ hs _ h ihm ihv => exact .message (ihm.of_message.set hs ihv h)
  | add _ hs _ h ihm ihv => exact .message (ihm.of_message.add hs ihv h)
  | setAt _ hs _ h ihm ihv => exact .message (ihm.of_message.setAt hs ihv h)
  | clear _ _ h ih => exact .message (ih.of_message.clear h)
  | finish _ h ih => exact .message (ih.of_message.finish h)
  | decode hp h => exact .message (Message.sound_of_decode hp h)

theorem Message.Made.sound {m : Message} (h : m.Made) : m.Sound := (Value.Made.sound h).of_message

end ProtoSchema
