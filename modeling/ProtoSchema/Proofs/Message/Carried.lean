import ProtoSchema.Message.Access
import ProtoSchema.Proofs.Message.Alike
import ProtoSchema.Proofs.Message.Concat

/-!
# Messages of carried types

A type behaves the same in every pool that carries it. Values of different schemas are never the same
ones, so they are compared by names: `Value.outline` replaces enums and messages by the names of their
types, down to the innermost message. Messages that are decoded from the same bytes, as the same type
of either schema, cannot be told apart by any of the names, bytes and texts that they give
(`Message.decode_carried`).
-/

namespace ProtoSchema

/-- A value by names: a floating-point number is its bits, an enum value goes by the names of the enum
and its own, and a message is the name of its type with its values one by one. -/
inductive ValueOutline
  | scalar (value : Scalar)
  | enum (type name : String) (number : Int32)
  | message (type : String) (values : List (FieldOutline × ValueOutline))
  | list (items : List ValueOutline)

mutual

/-- The outline of a value of a field of the kind. -/
def Element.outline (p : Pool) (kind : FieldKind) : Element → ValueOutline
  | .scalar v => .scalar v
  | .enum i =>
    let value := (p.enum kind.index).value i
    .enum (p.enum kind.index).fullName value.name value.number
  | .message c => .message (p.message kind.index).fullName (Content.outline p kind.index c)

/-- The outlines of the values of a message of the type, each with the one of its field. -/
def Content.outline (p : Pool) (t : Nat) : Content → List (FieldOutline × ValueOutline)
  | [] => []
  | (n, e) :: rest =>
    (match (p.message t).field? n with
      | some f => [(p.fieldOutline f, e.outline p f.kind)]
      | none => []) ++ Content.outline p t rest

end

namespace Value

mutual

def outline : Value → ValueOutline
  | scalar v => .scalar v
  | enum v => .enum v.type.fullName v.name v.number
  | message m =>
    .message m.type.fullName (Content.outline m.type.schema.pool m.type.index m.content)
  | list vs => .list (outlineList vs)

def outlineList : List Value → List ValueOutline
  | [] => []
  | v :: vs => v.outline :: outlineList vs

end

theorem outlineList_eq_map (vs : List Value) : outlineList vs = vs.map outline := by
  induction vs with
  | nil => rfl
  | cons v vs ih => rw [outlineList, ih, List.map_cons]

end Value

/-- A field with a value, by names. -/
def Field.outline (x : Field × Value) : FieldOutline × ValueOutline :=
  (x.1.message.schema.pool.fieldOutline x.1.field, x.2.outline)

/-- Messages that cannot be told apart by names, bytes and texts: the same fields are set, to the same
values, and every name and number reads the same value or default, or is refused alike. -/
structure Message.Alike (m m' : Message) : Prop where
  type : m'.type.fullName = m.type.fullName
  fields : m'.fields.map Field.outline = m.fields.map Field.outline
  values : (Value.message m').outline = (Value.message m).outline
  encode : m'.encode = m.encode
  text : m'.text = m.text
  initialized : m'.isInitialized = m.isInitialized
  named : ∀ name, (m'.get (.name name)).map Value.outline = (m.get (.name name)).map Value.outline
  numbered : ∀ number,
    (m'.get (.number number)).map Value.outline = (m.get (.number number)).map Value.outline

/-! ## Values by names -/

section Outline

variable {p q : Pool}

mutual

theorem Element.outline_congr (h : p.Agrees q) {kind kind' : FieldKind}
    (hk : kind.Namesakes p q kind') :
    ∀ e : Element, e.Typed p kind → e.outline q kind' = e.outline p kind
  | .scalar _, _ => by rw [Element.outline, Element.outline]
  | .enum i, he => by
    obtain ⟨k, l, rfl, rfl, hvalues, hname⟩ := hk.of_enum he
    rw [Element.outline, Element.outline]
    simp only [FieldKind.index, EnumDef.value, hvalues, hname]
  | .message c, he => by
    obtain ⟨t, u, rfl, rfl, hs, hc⟩ := hk.of_message he
    rw [Element.outline, Element.outline]
    simp only [FieldKind.index, hs.fullName, Content.outline_congr h hs c hc]

/-- **A content has the same outline for messages of the same name.** -/
theorem Content.outline_congr (h : p.Agrees q) {t u : Nat} (hs : p.Namesakes q t u) :
    ∀ c : Content, (∀ x ∈ c, Content.Belongs p t x) →
      Content.outline q u c = Content.outline p t c
  | [], _ => by rw [Content.outline, Content.outline]
  | (n, e) :: rest, hc => by
    rw [List.forall_mem_cons] at hc
    rw [Content.outline, Content.outline, Content.outline_congr h hs rest hc.2]
    rcases h.field? hs n with ⟨hp, hq⟩ | ⟨f, g, hp, hq, ha⟩
    · rw [hp, hq]
    · simp only [hp, hq, ha.outline, Element.outline_congr h ha.kind e (hc.1.typed hp)]

end

end Outline

/-! ## The same content in both schemas -/

section Carried

variable {s s' : Schema} {t u : Nat} {c : Content} {f g : FieldDef}

/-- A typed element stands for values of the same outline in both schemas. -/
theorem Value.outline_ofElement_congr (h : s.pool.Agrees s'.pool) {kind kind' : FieldKind}
    (hk : kind.Namesakes s.pool s'.pool kind') {e : Element} (he : e.Typed s.pool kind) :
    (Value.ofElement s' kind' e).outline = (Value.ofElement s kind e).outline := by
  have houtline := Element.outline_congr h hk e he
  cases he with
  | scalar =>
    cases hk
    rfl
  | enum =>
    cases hk
    rw [Element.outline, Element.outline] at houtline
    rw [ofElement, ofElement, outline, outline]
    exact houtline
  | message =>
    cases hk
    rw [Element.outline, Element.outline] at houtline
    rw [ofElement, ofElement, outline, outline]
    exact houtline

/-- Fields that are the same by names report the same for the same content. -/
theorem Message.report_congr (h : s.pool.Agrees s'.pool) (ha : f.Alike s.pool s'.pool g)
    (hc : ∀ e ∈ Content.values f.number c, e.Typed s.pool f.kind) :
    (report ⟨⟨s', u⟩, c⟩ g).map Value.outline = (report ⟨⟨s, t⟩, c⟩ f).map Value.outline := by
  rw [report, report, List.map_map, List.map_map, ha.number]
  exact List.map_congr_left fun e he => Value.outline_ofElement_congr h ha.kind (hc e he)

/-- Fields that are the same by names have the same default. -/
theorem Field.defaultValue_congr (ha : f.Alike s.pool s'.pool g) :
    (defaultValue ⟨⟨s', u⟩, g⟩).outline = (defaultValue ⟨⟨s, t⟩, f⟩).outline := by
  have hk := ha.kind
  unfold defaultValue kind
  rw [ha.default]
  generalize f.kind = k at hk ⊢
  generalize g.kind = l at hk ⊢
  cases hk with
  | scalar t => cases f.default <;> simp only [Value.outline, Value.outlineList]
  | message same =>
    cases f.default <;> simp only [Value.outline, Value.outlineList, Content.outline,
      MessageType.fullName, MessageType.define, same.fullName]
  | enum values fullName =>
    cases f.default <;> simp only [Value.outline, Value.outlineList, EnumType.fullName,
      EnumType.define, EnumValue.name, EnumValue.number, EnumDef.value, values, fullName]

/-- A field that is selected by name or number in both messages is the same by names. -/
theorem MessageType.select_cases (h : s.pool.Agrees s'.pool) (hs : s.pool.Namesakes s'.pool t u)
    {selector : Selector} (hsel : ∀ f, selector ≠ .field f) :
    (∃ e, select ⟨s, t⟩ selector = .error e ∧ select ⟨s', u⟩ selector = .error e) ∨
      ∃ f g, select ⟨s, t⟩ selector = .ok f ∧ select ⟨s', u⟩ selector = .ok g ∧
        f.Alike s.pool s'.pool g ∧ f ∈ (s.pool.message t).fields := by
  have hname : fullName ⟨s', u⟩ = fullName ⟨s, t⟩ := hs.fullName
  cases selector with
  | name name =>
    rw [select, select, hname, fieldNamed?, fieldNamed?, define, define]
    rcases h.fieldNamed? hs name with ⟨hp, hq⟩ | ⟨f, g, hp, hq, ha⟩
    · rw [hp, hq]
      exact Or.inl ⟨_, rfl, rfl⟩
    · rw [hp, hq]
      exact Or.inr ⟨f, g, rfl, rfl, ha, List.mem_of_find?_eq_some hp⟩
  | number n =>
    rw [select, select, hname, MessageType.field?, MessageType.field?, define, define]
    rcases h.field? hs n with ⟨hp, hq⟩ | ⟨f, g, hp, hq, ha⟩
    · rw [hp, hq]
      exact Or.inl ⟨_, rfl, rfl⟩
    · rw [hp, hq]
      exact Or.inr ⟨f, g, rfl, rfl, ha, MessageDef.mem_of_field? hp⟩
  | field f => exact absurd rfl (hsel f)

namespace Message

/-- **A field reads the same value or default in both messages.** -/
theorem get_congr (hsound : s.pool.Sound) (h : s.pool.Agrees s'.pool)
    (hs : s.pool.Namesakes s'.pool t u) (hc : Content.Typed s.pool t c) {selector : Selector}
    (hsel : ∀ f, selector ≠ .field f) :
    (get ⟨⟨s', u⟩, c⟩ selector).map Value.outline =
      (get ⟨⟨s, t⟩, c⟩ selector).map Value.outline := by
  rcases MessageType.select_cases h hs hsel with ⟨e, hp, hq⟩ | ⟨f, g, hp, hq, ha, hf⟩
  · rw [get, get, hp, hq]
    rfl
  · -- The field may have been found by its name, and its values stand under its number.
    have hvalues : ∀ e ∈ Content.values f.number c, e.Typed s.pool f.kind := fun e he =>
      hc.of_mem_values (MessageDef.field?_of_mem (hsound.numbers t) hf) he
    have hreport := report_congr (t := t) (u := u) h ha hvalues
    rw [get, get, hp, hq]
    show Except.map _ (if _ then _ else _) = Except.map _ (if _ then _ else _)
    rw [ha.isRepeated]
    split
    · show Except.ok (Value.list _).outline = Except.ok (Value.list _).outline
      rw [Value.outline, Value.outline, Value.outlineList_eq_map, Value.outlineList_eq_map, hreport]
    · show Except.ok (Value.outline _) = Except.ok (Value.outline _)
      rw [← Option.getD_map Value.outline, ← Option.getD_map Value.outline, ← List.head?_map,
        ← List.head?_map, hreport, Field.defaultValue_congr ha]

/-- **The same fields are set, to the same values.** -/
theorem fields_congr (h : s.pool.Agrees s'.pool) (hs : s.pool.Namesakes s'.pool t u)
    (hc : Content.Typed s.pool t c) :
    (fields ⟨⟨s', u⟩, c⟩).map Field.outline = (fields ⟨⟨s, t⟩, c⟩).map Field.outline := by
  rw [fields, fields, List.map_filterMap, List.map_filterMap]
  refine List.filterMap_congr fun n _ => ?_
  rw [MessageType.field?, MessageType.field?, MessageType.define, MessageType.define]
  rcases h.field? hs n with ⟨hp, hq⟩ | ⟨f, g, hp, hq, ha⟩
  · rw [hp, hq]
    rfl
  · have hvalues : ∀ e ∈ Content.values f.number c, e.Typed s.pool f.kind := by
      rw [MessageDef.number_of_field? hp]
      exact fun e he => hc.of_mem_values hp he
    have hreport := report_congr (t := t) (u := u) h ha hvalues
    simp only [hp, hq, Option.map_some, Option.bind_some, ha.isRepeated]
    split
    · rw [Option.map_some, Option.map_some, Field.outline, Field.outline, Value.outline,
        Value.outline, Value.outlineList_eq_map, Value.outlineList_eq_map, hreport, ha.outline]
    · have hhead := congrArg List.head? hreport
      rw [List.head?_map, List.head?_map] at hhead
      rw [Option.map_map, Option.map_map]
      show Option.map (fun v : Value => (s'.pool.fieldOutline g, v.outline)) _ =
        Option.map (fun v : Value => (s.pool.fieldOutline f, v.outline)) _
      rw [ha.outline]
      have hpair := congrArg (Option.map (Prod.mk (s.pool.fieldOutline f))) hhead
      rwa [Option.map_map, Option.map_map] at hpair

/-- **Messages of the same content, of types of the same name, are alike.** -/
theorem alike_of_agrees (hsound : s.pool.Sound) (h : s.pool.Agrees s'.pool)
    (hs : s.pool.Namesakes s'.pool t u) (hc : Content.Typed s.pool t c) :
    Alike ⟨⟨s, t⟩, c⟩ ⟨⟨s', u⟩, c⟩ where
  type := hs.fullName
  fields := fields_congr h hs hc
  values := by
    rw [Value.outline, Value.outline, Content.outline_congr h hs c hc.belongs]
    exact congrArg (ValueOutline.message · _) hs.fullName
  encode := Content.encode_congr h hs c
  text := Content.text_congr h hs 0 c hc.belongs
  initialized := by
    rw [isInitialized, isInitialized, missing, missing]
    exact congrArg List.isEmpty (Element.missing_congr h (.message hs) (.message c)
      (Content.typed_message_iff.2 hc))
  named _ := get_congr hsound h hs hc fun _ => Selector.noConfusion
  numbered _ := get_congr hsound h hs hc fun _ => Selector.noConfusion

/-- **A type behaves the same in every pool that carries it.** Each message type is one of the other
schema as well, by its full name. Decoding any bytes as either is refused with the same fault, or both
messages are alike. -/
theorem decode_carried {s s' : Schema} (hs : s.pool.Reachable) (hq : s'.pool.Carries s.pool)
    {t : MessageType} (ht : t ∈ s.messages) :
    (∃ t' ∈ s'.messages, t'.fullName = t.fullName) ∧
      ∀ t' ∈ s'.messages, t'.fullName = t.fullName → ∀ bs,
        (∃ e, decode t bs = .error e ∧ decode t' bs = .error e) ∨
          ∃ m m', decode t bs = .ok m ∧ decode t' bs = .ok m' ∧ m.Alike m' := by
  obtain ⟨i, hi, rfl⟩ := List.mem_map.1 ht
  have hi := List.mem_range.1 hi
  obtain ⟨hexposes, hagrees⟩ := hq.exposes hs
  constructor
  · have hmem : s.pool.message i ∈ s.pool.messages := by
      rw [Pool.message_of_getElem? (List.getElem?_eq_getElem hi)]
      exact List.getElem_mem hi
    obtain ⟨j, m', -, hj, houtline⟩ := hexposes.messages _ hmem
    have hlt := (List.getElem?_eq_some_iff.1 hj).1
    refine ⟨⟨s', j⟩, List.mem_map.2 ⟨j, List.mem_range.2 hlt, rfl⟩, ?_⟩
    show (s'.pool.message j).fullName = (s.pool.message i).fullName
    rw [Pool.message_of_getElem? hj]
    exact congrArg MessageOutline.fullName houtline
  · intro t' ht' hname bs
    obtain ⟨j, hj, rfl⟩ := List.mem_map.1 ht'
    have hsame : s.pool.Namesakes s'.pool i j := ⟨hi, List.mem_range.1 hj, hname⟩
    -- Both messages have the very same content, because contents know nothing of types.
    have hcontent := congrFun (Decode.content_congr hagrees Decode.nestingBudget i j hsame) bs
    cases hd : Decode.content s.pool Decode.nestingBudget i bs with
    | error e =>
      refine Or.inl ⟨e, ?_, ?_⟩
      · rw [decode, hd]
        rfl
      · rw [decode, hcontent, hd]
        rfl
    | ok c =>
      refine Or.inr ⟨⟨⟨s, i⟩, c⟩, ⟨⟨s', j⟩, c⟩, ?_, ?_, ?_⟩
      · rw [decode, hd]
        rfl
      · rw [decode, hcontent, hd]
        rfl
      · exact alike_of_agrees hs.sound hagrees hsame (Decode.content_typed hd).1

/-- A link that is decoded as a type of the schema with anchors is written as it was. -/
theorem decode_carried_anchor : ∃ q, Draft.anchor.build = .ok q ∧
    ∃ t ∈ Schema.messages ⟨1, q⟩, t.fullName = "Link" ∧
      ∃ m, decode t [10, 2, 16, 1] = .ok m ∧ m.encode = [10, 2, 16, 1] := by
  have hcarries : (Schema.mk 1 Pool.anchor).pool.Carries (Schema.mk 0 Pool.chain).pool :=
    .imports (.direct Draft.reachable_anchor_imports Draft.build_anchor (List.mem_singleton.2 rfl))
  have hlink : (⟨⟨0, Pool.chain⟩, 0⟩ : MessageType) ∈ Schema.messages ⟨0, Pool.chain⟩ :=
    List.mem_singleton.2 rfl
  obtain ⟨⟨t, ht, hname⟩, hdecode⟩ := decode_carried Pool.reachable_chain hcarries hlink
  have hmarked := decode_marked (n := 1) (by decide)
  refine ⟨Pool.anchor, Draft.build_anchor, t, ht, hname, ?_⟩
  rcases hdecode t ht hname [10, 2, 16, 1] with ⟨e, he, -⟩ | ⟨m, m', hm, hm', halike⟩
  · have hok := he.symm.trans hmarked
    simp at hok
  · obtain rfl := Except.ok.inj (hm.symm.trans hmarked)
    exact ⟨m', hm', halike.encode.trans (Content.encode_marked (by decide))⟩

end Message

end Carried

end ProtoSchema
