import Mathlib.Logic.Function.Basic
import ProtoSchema.Proofs.Message.Edit
import ProtoSchema.Proofs.Message.Fields

/-!
# Messages as records

A message keeps its values in one list, in the order in which they are written. What a program sees of
it is a `Record`: for each field that is not repeated the value that it is set to, if any, and for each
repeated field its elements. `Record.Step` says what a change does to a record, and when it can be made,
without any list of values, and `Record.Run` says it of changes one after the other.

**Messages and records change alike.** A change of a message goes through exactly when there is a step
of its record, and then the changed message has the record that the step leads to
(`Message.Sound.edit_iff_step`); so the record of a message that has been changed again and again is
the one that the run leads to (`Message.Made.run_iff`). What is read of a message is what its record
says (`Message.Sound.reads`).
-/

namespace ProtoSchema

/-! ## Records -/

/-- What the fields of a message are set to, by their numbers. -/
@[ext] structure Record where
  /-- The value of a field that is not repeated, if it is set. -/
  value? : Nat → Option Value
  /-- The elements of a repeated field. -/
  items : Nat → List Value

namespace Record

/-- The record in which no field is set. -/
def empty : Record := ⟨fun _ => none, fun _ => []⟩

/-- Sets the value of a field. -/
def put (r : Record) (n : Nat) (v : Value) : Record :=
  { r with value? := Function.update r.value? n (some v) }

/-- Appends an element to those of a field. -/
def push (r : Record) (n : Nat) (v : Value) : Record :=
  { r with items := Function.update r.items n (r.items n ++ [v]) }

/-- Replaces an element of a field. -/
def assign (r : Record) (n i : Nat) (v : Value) : Record :=
  { r with items := Function.update r.items n ((r.items n).set i v) }

/-- Takes away the value, or the elements, of a field. -/
def erase (r : Record) (n : Nat) : Record :=
  ⟨Function.update r.value? n none, Function.update r.items n []⟩

/-- What a field of the message type reports: its elements, or its value, or its default if it has
none. -/
def report (r : Record) (t : MessageType) (f : FieldDef) : Value :=
  if f.isRepeated then .list (r.items f.number)
  else (r.value? f.number).getD (Field.defaultValue ⟨t, f⟩)

/-- Whether a field is set, or has elements. -/
def has (r : Record) (f : FieldDef) : Bool :=
  if f.isRepeated then !(r.items f.number).isEmpty else (r.value? f.number).isSome

end Record

/-- The value is one that fields of the kind take. -/
inductive Value.Fits (s : Schema) : FieldKind → Value → Prop
  | scalar {t : ScalarType} {v : Scalar} (h : v.fits t = true) : Fits s (.scalar t) (.scalar v)
  | enum (k i : Nat) : Fits s (.enum k) (.enum ⟨⟨s, k⟩, i⟩)
  | message (i : Nat) (c : Content) : Fits s (.message i) (.message ⟨⟨s, i⟩, c⟩)

namespace Record

/-- What a change of a message of the type does to its record. There is no step for a change that
cannot be made. -/
inductive Step (t : MessageType) (r : Record) : Edit → Record → Prop
  | set {s : Selector} {f : FieldDef} {v : Value} (field : s.Addresses t f)
    (single : f.isRepeated = false) (fits : v.Fits t.schema f.kind) :
    Step t r (.set s v) (r.put f.number v)
  | add {s : Selector} {f : FieldDef} {v : Value} (field : s.Addresses t f)
    (several : f.isRepeated = true) (fits : v.Fits t.schema f.kind) :
    Step t r (.add s v) (r.push f.number v)
  | setAt {s : Selector} {f : FieldDef} {i : Nat} {v : Value} (field : s.Addresses t f)
    (several : f.isRepeated = true) (fits : v.Fits t.schema f.kind)
    (lt : i < (r.items f.number).length) : Step t r (.setAt s i v) (r.assign f.number i v)
  | clear {s : Selector} {f : FieldDef} (field : s.Addresses t f) :
    Step t r (.clear s) (r.erase f.number)

/-- What changes one after the other do to a record. A change that cannot be made leaves it as it is. -/
inductive Run (t : MessageType) : Record → List Edit → Record → Prop
  | nil (r : Record) : Run t r [] r
  | step {r r' r'' : Record} {e : Edit} {es : List Edit} (h : Step t r e r')
    (rest : Run t r' es r'') : Run t r (e :: es) r''
  | refused {r r'' : Record} {e : Edit} {es : List Edit} (h : ∀ r', ¬Step t r e r')
    (rest : Run t r es r'') : Run t r (e :: es) r''

/-- **A step changes no field but the one that is addressed.** -/
theorem Step.frame {t : MessageType} {r r' : Record} {e : Edit} (h : Step t r e r') :
    ∃ f, e.selector.Addresses t f ∧
      ∀ n ≠ f.number, r'.value? n = r.value? n ∧ r'.items n = r.items n := by
  cases h with
  | set field => exact ⟨_, field, fun n hn => ⟨Function.update_of_ne hn _ _, rfl⟩⟩
  | add field => exact ⟨_, field, fun n hn => ⟨rfl, Function.update_of_ne hn _ _⟩⟩
  | setAt field => exact ⟨_, field, fun n hn => ⟨rfl, Function.update_of_ne hn _ _⟩⟩
  | clear field =>
    exact ⟨_, field, fun n hn => ⟨Function.update_of_ne hn _ _, Function.update_of_ne hn _ _⟩⟩

end Record

/-! ## Values and elements -/

namespace Value

variable {s : Schema} {kind : FieldKind} {v : Value} {e : Element}

/-- **A value fits a kind of field when such a field has an element for it.** -/
theorem fits_iff : v.Fits s kind ↔ ∃ e, v.toElement? s kind = some e := by
  constructor
  · intro h
    cases h with
    | scalar h => exact ⟨_, if_pos h⟩
    | enum k i => exact ⟨_, if_pos rfl⟩
    | message i c => exact ⟨_, if_pos rfl⟩
  · rintro ⟨e, he⟩
    cases kind <;> cases v <;> simp only [toElement?, reduceCtorEq, Option.ite_none_right_eq_some] at he
    case scalar.scalar => exact .scalar he.1
    case enum.enum k v =>
      obtain ⟨type, i⟩ := v
      obtain ⟨rfl, -⟩ := he
      exact .enum k i
    case message.message i m =>
      obtain ⟨type, c⟩ := m
      obtain ⟨rfl, -⟩ := he
      exact .message i c

/-- The element for a value stands for this value. -/
theorem ofElement_of_toElement? (h : v.toElement? s kind = some e) : ofElement s kind e = v := by
  obtain hfits := fits_iff.2 ⟨e, h⟩
  cases hfits with
  | scalar hv =>
    obtain rfl := Option.some.inj ((if_pos hv).symm.trans h)
    rfl
  | enum k i =>
    obtain rfl := Option.some.inj ((if_pos rfl).symm.trans h)
    rfl
  | message i c =>
    obtain rfl := Option.some.inj ((if_pos rfl).symm.trans h)
    rfl

end Value

/-! ## The record of a message -/

namespace Message

/-- What the fields of the message are set to. -/
def record (m : Message) : Record where
  value? n :=
    match m.type.define.field? n with
    | some f => if f.isRepeated then none else (m.report f).head?
    | none => none
  items n :=
    match m.type.define.field? n with
    | some f => if f.isRepeated then m.report f else []
    | none => []

variable {m m' : Message} {c : Content} {f : FieldDef} {s : Selector} {v : Value} {e : Element}

theorem record_empty (t : MessageType) : (empty t).record = .empty := by
  refine Record.ext (funext fun n => ?_) (funext fun n => ?_) <;>
    cases h : t.define.field? n <;> simp [record, empty, Record.empty, h, report]

theorem record_value? (hf : m.type.define.field? f.number = some f) (hrep : f.isRepeated = false) :
    m.record.value? f.number = (m.report f).head? := by
  simp [record, hf, hrep]

theorem record_items (hf : m.type.define.field? f.number = some f) (hrep : f.isRepeated = true) :
    m.record.items f.number = m.report f := by
  simp [record, hf, hrep]

/-- What a record says of a field depends on the values of this field alone. -/
theorem record_congr {n : Nat} (h : Content.values n c = Content.values n m.content) :
    (Message.mk m.type c).record.value? n = m.record.value? n ∧
      (Message.mk m.type c).record.items n = m.record.items n := by
  cases hf : m.type.define.field? n with
  | none => simp [record, hf]
  | some f =>
    obtain rfl := MessageDef.number_of_field? hf
    have hreport : (Message.mk m.type c).report f = m.report f := by rw [report, report, h]
    simp only [record, hf]
    by_cases hrep : f.isRepeated = true <;> simp [hrep, hreport]

/-- **A content that differs in one field makes a record that differs in this field.** -/
theorem record_single (hf : m.type.define.field? f.number = some f) (hrep : f.isRepeated = false)
    (hother : ∀ n ≠ f.number, Content.values n c = Content.values n m.content) :
    (Message.mk m.type c).record = { m.record with
      value? := Function.update m.record.value? f.number ((Message.mk m.type c).report f).head? } := by
  refine Record.ext (funext fun n => ?_) (funext fun n => ?_)
  · by_cases hn : n = f.number
    · subst hn
      simp only [Function.update_self]
      exact record_value? (m := ⟨m.type, c⟩) hf hrep
    · exact (record_congr (hother n hn)).1.trans (Function.update_of_ne hn _ _).symm
  · by_cases hn : n = f.number
    · subst hn
      simp [record, hf, hrep]
    · exact (record_congr (hother n hn)).2

theorem record_several (hf : m.type.define.field? f.number = some f) (hrep : f.isRepeated = true)
    (hother : ∀ n ≠ f.number, Content.values n c = Content.values n m.content) :
    (Message.mk m.type c).record = { m.record with
      items := Function.update m.record.items f.number ((Message.mk m.type c).report f) } := by
  refine Record.ext (funext fun n => ?_) (funext fun n => ?_)
  · by_cases hn : n = f.number
    · subst hn
      simp [record, hf, hrep]
    · exact (record_congr (hother n hn)).1
  · by_cases hn : n = f.number
    · subst hn
      simp only [Function.update_self]
      exact record_items (m := ⟨m.type, c⟩) hf hrep
    · exact (record_congr (hother n hn)).2.trans (Function.update_of_ne hn _ _).symm

/-! ### Changes -/

theorem record_replace (hf : m.type.define.field? f.number = some f) (hrep : f.isRepeated = false)
    (hv : v.toElement? m.type.schema f.kind = some e) :
    (Message.mk m.type (Content.replace f.number [e] m.content)).record = m.record.put f.number v := by
  rw [record_single hf hrep fun n hn => by rw [Content.values_replace, if_neg hn], report,
    Content.values_replace, if_pos rfl, List.map_singleton, Value.ofElement_of_toElement? hv]
  rfl

theorem record_append (h : Content.Ordered (m.type.schema.pool.Repeats m.type.index) m.content)
    (hf : m.type.define.field? f.number = some f) (hrep : f.isRepeated = true)
    (hv : v.toElement? m.type.schema f.kind = some e) :
    (Message.mk m.type (Content.append f.number [e] m.content)).record =
      m.record.push f.number v := by
  rw [record_several hf hrep fun n hn => by
      rw [Content.values_append h, if_neg hn, List.append_nil], report, Content.values_append h,
    if_pos rfl, List.map_append, List.map_singleton, Value.ofElement_of_toElement? hv, Record.push,
    record_items hf hrep]
  rfl

theorem record_replace_set {i : Nat} (hf : m.type.define.field? f.number = some f)
    (hrep : f.isRepeated = true) (hv : v.toElement? m.type.schema f.kind = some e) :
    (Message.mk m.type (Content.replace f.number ((Content.values f.number m.content).set i e)
      m.content)).record = m.record.assign f.number i v := by
  rw [record_several hf hrep fun n hn => by rw [Content.values_replace, if_neg hn], report,
    Content.values_replace, if_pos rfl, List.map_set, Value.ofElement_of_toElement? hv, Record.assign,
    record_items hf hrep]
  rfl

theorem record_clear (hf : m.type.define.field? f.number = some f) :
    (Message.mk m.type (Content.clear f.number m.content)).record = m.record.erase f.number := by
  have hnone : Content.values f.number (Content.clear f.number m.content) = [] := by
    rw [Content.values_clear, if_pos rfl]
  have hother : ∀ n ≠ f.number,
      Content.values n (Content.clear f.number m.content) = Content.values n m.content :=
    fun n hn => by rw [Content.values_clear, if_neg hn]
  refine Record.ext (funext fun n => ?_) (funext fun n => ?_) <;> by_cases hn : n = f.number
  · subst hn
    simp [record, hf, Record.erase, report, hnone]
  · exact (record_congr (hother n hn)).1.trans (Function.update_of_ne hn _ _).symm
  · subst hn
    simp [record, hf, Record.erase, report, hnone]
  · exact (record_congr (hother n hn)).2.trans (Function.update_of_ne hn _ _).symm

/-- The number of elements of a repeated field. -/
theorem length_record_items (hf : m.type.define.field? f.number = some f)
    (hrep : f.isRepeated = true) :
    (m.record.items f.number).length = (Content.values f.number m.content).length := by
  rw [record_items hf hrep, report, List.length_map]

/-- A field that is addressed is the one with its number. -/
theorem Sound.field?_of_addresses (h : m.Sound) (hs : s.Addresses m.type f) :
    m.type.define.field? f.number = some f := by
  cases hs with
  | name hf => exact h.field?_of_mem hf
  | number hf => exact h.field?_of_mem hf
  | field hf => exact h.field?_of_mem hf

/-- **A message changes to one with a record exactly when there is a step to this record.** -/
theorem Sound.edit_iff_step (h : m.Sound) {e : Edit} (he : e.selector.Genuine) {r : Record} :
    (∃ m', m.edit e = .ok m' ∧ m'.record = r) ↔ Record.Step m.type m.record e r := by
  have hselect : ∀ f, m.type.select e.selector = .ok f ↔ e.selector.Addresses m.type f :=
    fun f => MessageType.select_eq_ok_iff h.reachable he
  have hordered := h.typed.ordered
  constructor
  · rintro ⟨m', hm', rfl⟩
    cases e with
    | set s v =>
      obtain ⟨f, x, hf, hrep, hx, rfl⟩ := set_eq_ok_iff.1 hm'
      have hs := (hselect f).1 hf
      rw [record_replace (h.field?_of_addresses hs) hrep hx]
      exact .set hs hrep (Value.fits_iff.2 ⟨x, hx⟩)
    | add s v =>
      obtain ⟨f, x, hf, hrep, hx, rfl⟩ := add_eq_ok_iff.1 hm'
      have hs := (hselect f).1 hf
      rw [record_append hordered (h.field?_of_addresses hs) hrep hx]
      exact .add hs hrep (Value.fits_iff.2 ⟨x, hx⟩)
    | setAt s i v =>
      obtain ⟨f, x, hf, hrep, hx, hi, rfl⟩ := setAt_eq_ok_iff.1 hm'
      have hs := (hselect f).1 hf
      have hfield := h.field?_of_addresses hs
      rw [record_replace_set hfield hrep hx]
      rw [← length_record_items hfield hrep] at hi
      exact .setAt hs hrep (Value.fits_iff.2 ⟨x, hx⟩) hi
    | clear s =>
      obtain ⟨f, hf, rfl⟩ := clear_eq_ok_iff.1 hm'
      have hs := (hselect f).1 hf
      rw [record_clear (h.field?_of_addresses hs)]
      exact .clear hs
  · intro hstep
    cases hstep with
    | set hs hrep hfits =>
      obtain ⟨x, hx⟩ := Value.fits_iff.1 hfits
      exact ⟨_, set_eq_ok_iff.2 ⟨_, x, (hselect _).2 hs, hrep, hx, rfl⟩,
        record_replace (h.field?_of_addresses hs) hrep hx⟩
    | add hs hrep hfits =>
      obtain ⟨x, hx⟩ := Value.fits_iff.1 hfits
      exact ⟨_, add_eq_ok_iff.2 ⟨_, x, (hselect _).2 hs, hrep, hx, rfl⟩,
        record_append hordered (h.field?_of_addresses hs) hrep hx⟩
    | setAt hs hrep hfits hi =>
      obtain ⟨x, hx⟩ := Value.fits_iff.1 hfits
      have hfield := h.field?_of_addresses hs
      rw [length_record_items hfield hrep] at hi
      exact ⟨_, setAt_eq_ok_iff.2 ⟨_, x, (hselect _).2 hs, hrep, hx, hi, rfl⟩,
        record_replace_set hfield hrep hx⟩
    | clear hs =>
      exact ⟨_, clear_eq_ok_iff.2 ⟨_, (hselect _).2 hs, rfl⟩, record_clear (h.field?_of_addresses hs)⟩

/-- **Changes one after the other lead to the record that the run of records leads to.** -/
theorem Made.run_iff {es : List Edit} (hes : ∀ e ∈ es, e.Made) : ∀ {m : Message}, m.Made →
    ∀ r, Record.Run m.type m.record es r ↔ r = (m.run es).record := by
  induction es with
  | nil =>
    intro m _ r
    constructor
    · intro h
      cases h
      rfl
    · rintro rfl
      exact .nil _
  | cons e es ih =>
    intro m hm r
    rw [List.forall_mem_cons] at hes
    have hstep : ∀ {r}, (∃ m', m.edit e = .ok m' ∧ m'.record = r) ↔
        Record.Step m.type m.record e r := hm.sound.edit_iff_step hes.1.1
    have hrest := ih hes.2 (hm.attempt hes.1).1 r
    rw [(hm.attempt hes.1).2] at hrest
    have hrun : m.run (e :: es) = (m.attempt e).run es := rfl
    rw [hrun, ← hrest]
    cases he : m.edit e with
    | ok m' =>
      have hattempt : m.attempt e = m' := by rw [Message.attempt, he]
      rw [hattempt]
      constructor
      · intro h
        cases h with
        | step h rest =>
          -- The change has one result, so the step leads to the record of this one.
          obtain ⟨m'', hm'', rfl⟩ := hstep.2 h
          obtain rfl : m' = m'' := Except.ok.inj (he.symm.trans hm'')
          exact rest
        | refused h _ => exact absurd (hstep.1 ⟨m', he, rfl⟩) (h _)
      · exact .step (hstep.1 ⟨m', he, rfl⟩)
    | error x =>
      have hattempt : m.attempt e = m := by rw [Message.attempt, he]
      have hnone : ∀ r', ¬Record.Step m.type m.record e r' := by
        intro r' h
        obtain ⟨m', hm', -⟩ := hstep.2 h
        rw [he] at hm'
        simp at hm'
      rw [hattempt]
      constructor
      · intro h
        cases h with
        | step h _ => exact absurd h (hnone _)
        | refused _ rest => exact rest
      · exact .refused hnone

/-! ### Reading -/

/-- What is read of the message is what the record says. -/
structure Reads (m : Message) (r : Record) : Prop where
  get : ∀ s : Selector, s.Genuine → ∀ v, m.get s = .ok v ↔
    ∃ f, s.Addresses m.type f ∧ v = r.report m.type f
  has : ∀ s : Selector, s.Genuine → ∀ b, m.has s = .ok b ↔ ∃ f, s.Addresses m.type f ∧ b = r.has f
  count : ∀ s : Selector, s.Genuine → ∀ n, m.count s = .ok n ↔
    ∃ f, s.Addresses m.type f ∧ f.isRepeated = true ∧ n = (r.items f.number).length
  getAt : ∀ s : Selector, s.Genuine → ∀ i v, m.getAt s i = .ok v ↔
    ∃ f, s.Addresses m.type f ∧ f.isRepeated = true ∧ (r.items f.number)[i]? = some v

/-- **What is read of a message is what its record says.** -/
theorem Sound.reads (h : m.Sound) : m.Reads m.record where
  get s hs v := by
    rw [Message.get, Traverse.bind_eq_ok]
    refine exists_congr fun f => ?_
    rw [MessageType.select_eq_ok_iff h.reachable hs, and_congr_right_iff]
    intro hf
    have hfield := h.field?_of_addresses hf
    rw [Record.report]
    by_cases hrep : f.isRepeated = true
    · rw [if_pos hrep, if_pos hrep, record_items hfield hrep]
      exact Traverse.pure_eq_ok
    · rw [if_neg hrep, if_neg hrep, record_value? hfield (Bool.eq_false_iff.2 hrep)]
      exact Traverse.pure_eq_ok
  has s hs b := by
    rw [Message.has, Traverse.bind_eq_ok]
    refine exists_congr fun f => ?_
    rw [MessageType.select_eq_ok_iff h.reachable hs, and_congr_right_iff]
    intro hf
    have hfield := h.field?_of_addresses hf
    have hhas : m.record.has f = Content.has f.number m.content := by
      rw [Record.has, Content.has_eq_isEmpty]
      by_cases hrep : f.isRepeated = true
      · rw [if_pos hrep, record_items hfield hrep, report, List.isEmpty_map]
      · rw [if_neg hrep, record_value? hfield (Bool.eq_false_iff.2 hrep), report]
        cases Content.values f.number m.content <;> rfl
    rw [hhas]
    exact Traverse.pure_eq_ok
  count s hs n := by
    rw [Message.count, Traverse.bind_eq_ok]
    refine exists_congr fun f => ?_
    rw [selectRepeated_eq_ok_iff, MessageType.select_eq_ok_iff h.reachable hs, and_assoc,
      and_congr_right_iff, and_congr_right_iff]
    intro hf hrep
    rw [length_record_items (h.field?_of_addresses hf) hrep]
    exact Traverse.pure_eq_ok
  getAt s hs i v := by
    rw [Message.getAt, Traverse.bind_eq_ok]
    refine exists_congr fun f => ?_
    rw [selectRepeated_eq_ok_iff, MessageType.select_eq_ok_iff h.reachable hs, and_assoc,
      and_congr_right_iff, and_congr_right_iff]
    intro hf hrep
    rw [record_items (h.field?_of_addresses hf) hrep]
    cases hv : (m.report f)[i]? with
    | none => simp [hv]
    | some w => simp [hv]

end Message

end ProtoSchema
