import ProtoSchema.Message.Text
import ProtoSchema.Proofs.Message.Merge
import ProtoSchema.Proofs.Message.Record
import ProtoSchema.Proofs.Message.Roundtrip

/-!
# Messages from their records

The content of a message holds what its record says, with the fields in the order of their numbers
(`Message.Sound.content_eq`). So a message is determined by its type and its record, and what it is
written as, in bytes and as text, is a function of the two: it does not matter which changes have made
the message.

`Message.Made.refines_record` puts this together with how records change.
-/

namespace ProtoSchema

/-! ## Fields in order -/

/-- The fields of the message type by increasing number. -/
def MessageType.inOrder (t : MessageType) : List FieldDef :=
  t.define.fields.mergeSort fun f g => f.number ≤ g.number

namespace MessageType

variable {t : MessageType}

theorem inOrder_perm (t : MessageType) : t.inOrder.Perm t.define.fields := List.mergeSort_perm _ _

/-- **The numbers of the fields in order increase.** -/
theorem inOrder_pairwise (h : (t.define.fields.map FieldDef.number).Nodup) :
    (t.inOrder.map FieldDef.number).Pairwise (· < ·) := by
  have hle : t.inOrder.Pairwise fun f g => f.number ≤ g.number := by
    have hsort : t.inOrder.Pairwise fun f g => decide (f.number ≤ g.number) = true := by
      refine List.pairwise_mergeSort ?_ ?_ _
      · intro f g k
        simp only [decide_eq_true_eq]
        omega
      · intro f g
        simp only [Bool.or_eq_true, decide_eq_true_eq]
        omega
    exact hsort.imp of_decide_eq_true
  have hne : t.inOrder.Pairwise fun f g => f.number ≠ g.number :=
    List.pairwise_map.1 (((inOrder_perm t).map FieldDef.number).nodup_iff.2 h)
  rw [List.pairwise_map]
  exact (hle.and hne).imp fun h => Nat.lt_of_le_of_ne h.1 h.2

end MessageType

/-! ## What a record is written as -/

/-- The element that stands for the value. No element stands for a list. -/
def Value.element : Value → Element
  | scalar v => .scalar v
  | enum v => .enum v.index
  | message m => .message m.content
  | list _ => .message []

theorem Value.element_ofElement {s : Schema} {kind : FieldKind} {e : Element}
    (h : e.Typed s.pool kind) : (ofElement s kind e).element = e := by
  cases h <;> rfl

namespace Record

/-- The values of a field: its elements, or its value if it is set. -/
def values (r : Record) (n : Nat) : List Value := (r.value? n).toList ++ r.items n

/-- The content of a message of the type that has the record. -/
def content (r : Record) (t : MessageType) : Content :=
  t.inOrder.flatMap fun f => (r.values f.number).map fun v => (f.number, v.element)

/-- The bytes of a message of the type that has the record, field by field. -/
def encode (r : Record) (t : MessageType) : Bytes :=
  t.inOrder.flatMap fun f => (r.values f.number).flatMap fun v => v.element.encode t.schema.pool f

/-- The text of a message of the type that has the record, field by field. -/
def text (r : Record) (t : MessageType) : String :=
  String.join (t.inOrder.flatMap fun f =>
    (r.values f.number).map fun v => v.element.text t.schema.pool 0 f)

variable {r : Record} {t : MessageType}

theorem encode_content (h : (t.define.fields.map FieldDef.number).Nodup) :
    Content.encode t.schema.pool t.index (r.content t) = r.encode t := by
  rw [Content.encode_eq_flatMap, content, encode, List.flatMap_assoc]
  refine List.flatMap_congr fun f hf => ?_
  rw [List.flatMap_map]
  have hfield := MessageDef.field?_of_mem h ((MessageType.inOrder_perm t).mem_iff.1 hf)
  exact List.flatMap_congr fun v _ => Content.record_eq (x := (f.number, v.element)) hfield

end Record

namespace Content

variable {p : Pool} {depth t : Nat} {c : Content}

/-- The lines of a value of a message of the type. -/
def lines (p : Pool) (depth t : Nat) (x : Nat × Element) : String :=
  match (p.message t).field? x.1 with
  | some f => x.2.text p depth f
  | none => ""

theorem lines_eq {x : Nat × Element} {f : FieldDef} (hf : (p.message t).field? x.1 = some f) :
    lines p depth t x = x.2.text p depth f := by
  rw [lines, hf]

theorem text_eq_join : text p depth t c = String.join (c.map (lines p depth t)) := by
  induction c with
  | nil => rw [text, List.map_nil, String.join_nil]
  | cons x c ih =>
    rw [text, ih, List.map_cons, String.join_cons]
    rfl

end Content

theorem Record.text_content {r : Record} {t : MessageType}
    (h : (t.define.fields.map FieldDef.number).Nodup) :
    Content.text t.schema.pool 0 t.index (r.content t) = r.text t := by
  rw [Content.text_eq_join, content, text, List.map_flatMap]
  refine congrArg String.join (List.flatMap_congr fun f hf => ?_)
  rw [List.map_map]
  have hfield := MessageDef.field?_of_mem h ((MessageType.inOrder_perm t).mem_iff.1 hf)
  exact List.map_congr_left fun v _ => Content.lines_eq (x := (f.number, v.element)) hfield

/-! ## Messages and their records -/

namespace Message

variable {m m' : Message} {f : FieldDef}

/-- The values that a record says are the ones that the message reports. -/
theorem Sound.record_values (h : m.Sound) (hf : f ∈ m.type.define.fields) :
    m.record.values f.number = m.report f := by
  have hfield := h.field?_of_mem hf
  rw [Record.values]
  by_cases hrep : f.isRepeated = true
  · have hnone : m.record.value? f.number = none := by simp [record, hfield, hrep]
    rw [hnone, record_items hfield hrep]
    rfl
  · have hnil : m.record.items f.number = [] := by simp [record, hfield, hrep]
    have hlen := h.length_report_le hf (Bool.eq_false_iff.2 hrep)
    rw [hnil, List.append_nil, record_value? hfield (Bool.eq_false_iff.2 hrep)]
    cases hreport : m.report f with
    | nil => rfl
    | cons v vs =>
      rw [hreport, List.length_cons] at hlen
      obtain rfl : vs = [] := List.length_eq_zero_iff.1 (by omega)
      rfl

/-- **The content of a message is the one that its record says.** -/
theorem Sound.content_eq (h : m.Sound) : m.content = m.record.content m.type := by
  have hnumbers := h.reachable.sound.numbers m.type.index
  have hall : ∀ x ∈ m.content, x.1 ∈ m.type.inOrder.map FieldDef.number := by
    intro x hx
    obtain ⟨f, hf, -⟩ := h.typed.belongs x hx
    rw [← MessageDef.number_of_field? hf]
    exact List.mem_map_of_mem ((MessageType.inOrder_perm _).mem_iff.2 (MessageDef.mem_of_field? hf))
  refine (h.typed.ordered.eq_flatMap (MessageType.inOrder_pairwise hnumbers) hall).trans ?_
  rw [Record.content, List.flatMap_map]
  refine List.flatMap_congr fun f hf => ?_
  have hmem := (MessageType.inOrder_perm _).mem_iff.1 hf
  rw [h.record_values hmem, report, List.map_map]
  refine List.map_congr_left fun e he => ?_
  have htyped := h.typed.of_mem_values (h.field?_of_mem hmem) he
  rw [Function.comp_apply, Value.element_ofElement htyped]

/-- **A message is determined by its type and its record.** -/
theorem Sound.ext (h : m.Sound) (h' : m'.Sound) (ht : m'.type = m.type)
    (hr : m'.record = m.record) : m' = m := by
  have hc := h'.content_eq
  rw [ht, hr, ← h.content_eq] at hc
  obtain ⟨type, c⟩ := m
  obtain ⟨type', c'⟩ := m'
  simp only at ht hc
  rw [ht, hc]

/-- **Changes of a message do to its record what they say.** A change goes through exactly when there
is a step of the record, and then it leads where the step leads, which is to a record that differs in
the field that is addressed. After changes one after the other, what is read of the message is what its
record says, and what it is written as is a function of its record, with the fields in the order of
their numbers. So messages with the same record are the same message, whatever has made them. -/
theorem Made.refines_record (hm : m.Made) {es : List Edit} (hes : ∀ e ∈ es, e.Made) :
    (∀ t, (empty t).record = .empty) ∧
      (∀ e : Edit, e.Made → ∀ r,
        ((∃ m', m.edit e = .ok m' ∧ m'.record = r) ↔ Record.Step m.type m.record e r) ∧
          (Record.Step m.type m.record e r → ∃ f, e.selector.Addresses m.type f ∧
            ∀ n ≠ f.number, r.value? n = m.record.value? n ∧ r.items n = m.record.items n)) ∧
      (∀ r, Record.Run m.type m.record es r ↔ r = (m.run es).record) ∧
      (m.run es).type = m.type ∧ (m.run es).Reads (m.run es).record ∧
      ((m.type.inOrder.map FieldDef.number).Pairwise (· < ·) ∧
        (m.run es).encode = (m.run es).record.encode m.type ∧
        (m.run es).text = (m.run es).record.text m.type) ∧
      ∀ (m' : Message) (es' : List Edit), m'.Made → (∀ e ∈ es', e.Made) → m'.type = m.type →
        (m'.run es').record = (m.run es).record → m'.run es' = m.run es := by
  have hnumbers := hm.sound.reachable.sound.numbers m.type.index
  obtain ⟨hmade, htype⟩ := hm.run hes
  have hcontent := hmade.sound.content_eq
  rw [htype] at hcontent
  refine ⟨record_empty, fun e he r => ⟨hm.sound.edit_iff_step he.1, Record.Step.frame⟩,
    Made.run_iff hes hm, htype, hmade.sound.reads, ?_, ?_⟩
  · refine ⟨MessageType.inOrder_pairwise hnumbers, ?_, ?_⟩
    · rw [Message.encode, hcontent, htype]
      exact Record.encode_content hnumbers
    · rw [Message.text, hcontent, htype]
      exact Record.text_content hnumbers
  · intro m' es' hm' hes' ht hr
    obtain ⟨hmade', htype'⟩ := hm'.run hes'
    exact hmade.sound.ext hmade'.sound (by rw [htype', ht, htype]) hr

/-- Changes of a link of a chain, of which the second is refused. -/
def linkEdits : List Edit :=
  [.add (.number 2) (.scalar (.int32 7)), .add (.name "next") (.scalar (.int32 7)),
    .set (.name "next") (.message (.empty ⟨⟨0, Pool.chain⟩, 0⟩))]

theorem made_linkEdits : ∀ e ∈ linkEdits, e.Made := by
  have hseven : Value.Made (.scalar (.int32 7)) := .scalar _
  have hlink : Value.Made (.message (.empty ⟨⟨0, Pool.chain⟩, 0⟩)) := .empty Pool.reachable_chain
  intro e he
  simp only [linkEdits, List.mem_cons, List.not_mem_nil, or_false] at he
  rcases he with rfl | rfl | rfl
  · exact ⟨trivial, fun v hv => Option.some.inj hv ▸ hseven⟩
  · exact ⟨trivial, fun v hv => Option.some.inj hv ▸ hseven⟩
  · exact ⟨trivial, fun v hv => Option.some.inj hv ▸ hlink⟩

theorem Made.refines_record_chain :
    Record.Run ⟨⟨0, Pool.chain⟩, 0⟩ .empty linkEdits
      ((empty ⟨⟨0, Pool.chain⟩, 0⟩).run linkEdits).record := by
  have hempty : (empty ⟨⟨0, Pool.chain⟩, 0⟩).Made := .empty Pool.reachable_chain
  have hrefines := Made.refines_record hempty made_linkEdits
  exact record_empty ⟨⟨0, Pool.chain⟩, 0⟩ ▸ (hrefines.2.2.1 _).2 rfl

end Message

end ProtoSchema
