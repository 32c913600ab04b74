import Mathlib.Data.List.Nodup
import ProtoSchema.Decl

/-!
# Valid declarations

Declarations grow by steps that refuse what would make them ambiguous. `Built` holds of what such
steps make, and `Valid` says what it looks like: names and numbers are in range and used once by the
same owner. Whatever is built is valid (`MessageDecl.Built.valid`, `EnumDecl.Built.valid`).

Names of types may still be empty or hold dots, and enums may lack values: these are refused when
declarations are linked.
-/

namespace ProtoSchema

/-! ## One more element -/

theorem nodup_append_singleton {α : Type} {l : List α} {a : α} :
    (l ++ [a]).Nodup ↔ l.Nodup ∧ a ∉ l := by
  rw [← List.concat_eq_append, List.nodup_concat, and_comm]

theorem nodup_append_insert {α : Type} {l r : List α} {a : α} :
    (l ++ [a] ++ r).Nodup ↔ (l ++ r).Nodup ∧ a ∉ l ++ r := by
  rw [List.append_assoc, List.singleton_append, List.nodup_middle, List.nodup_cons, and_comm]

theorem forall_mem_append_singleton {α : Type} {P : α → Prop} {l : List α} {a : α} :
    (∀ x ∈ l ++ [a], P x) ↔ (∀ x ∈ l, P x) ∧ P a := by
  simp only [List.forall_mem_append, List.forall_mem_singleton]

/-! ## Fields -/

/-- A field that is made by `FieldDecl.make`, with or without a default. -/
inductive FieldDecl.Built : FieldDecl → Prop
  | make {label typeName name number f} (h : make label typeName name number = .ok f) : Built f
  | withDefault {f} (text : String) (h : Built f) : Built (f.withDefault text)

/-- A field with a name and a number that a field can have. -/
structure FieldDecl.Valid (f : FieldDecl) : Prop where
  name : f.name ≠ ""
  pos : 1 ≤ f.number
  le : f.number ≤ FieldDecl.maxNumber
  unreserved : ¬(19000 ≤ f.number ∧ f.number ≤ 19999)

namespace FieldDecl

/-- **A field can be made when it is valid.** -/
theorem make_eq_ok_iff {label : Label} {typeName name : String} {number : Nat} {f : FieldDecl} :
    make label typeName name number = .ok f ↔ f = ⟨label, typeName, name, number, none⟩ ∧ f.Valid := by
  unfold make
  by_cases hn : name = ""
  · rw [if_pos hn]
    constructor
    · intro h
      simp at h
    · rintro ⟨he, hv⟩
      exact absurd hn (by simpa [he] using hv.name)
  · rw [if_neg hn]
    by_cases hr : number = 0 ∨ maxNumber < number
    · rw [if_pos hr]
      refine ⟨fun h => by simp at h, ?_⟩
      rintro ⟨he, hv⟩
      subst he
      have hpos : 1 ≤ number := hv.pos
      have hle : number ≤ maxNumber := hv.le
      omega
    · rw [if_neg hr]
      by_cases hs : isReserved number = true
      · rw [if_pos hs]
        refine ⟨fun h => by simp at h, ?_⟩
        rintro ⟨he, hv⟩
        subst he
        exact absurd (by simpa [isReserved] using hs) hv.unreserved
      · rw [if_neg hs, Except.ok.injEq, eq_comm]
        refine ⟨fun he => ⟨he, ?_⟩, fun h => h.1⟩
        subst he
        refine ⟨hn, ?_, ?_, by simpa [isReserved] using hs⟩ <;> simp only <;> omega

theorem Built.valid {f : FieldDecl} (h : f.Built) : f.Valid := by
  induction h with
  | make h => exact (make_eq_ok_iff.1 h).2
  | withDefault text _ ih => exact ⟨ih.name, ih.pos, ih.le, ih.unreserved⟩

end FieldDecl

/-! ## Enums -/

/-- An enum that is made by adding values one after the other. -/
inductive EnumDecl.Built : EnumDecl → Prop
  | empty (name : String) : Built ⟨name, []⟩
  | addValue {e e' name number} (h : Built e) (ha : e.addValue name number = .ok e') : Built e'

/-- An enum whose values have names and numbers of their own. -/
structure EnumDecl.Valid (e : EnumDecl) : Prop where
  named : ∀ v ∈ e.values, v.name ≠ ""
  names : (e.values.map ValueDecl.name).Nodup
  numbers : (e.values.map ValueDecl.number).Nodup

namespace EnumDecl

/-- **A value can be added when its name is not empty, and neither name nor number is in use.** -/
theorem addValue_eq_ok_iff {e e' : EnumDecl} {name : String} {number : Int32} :
    e.addValue name number = .ok e' ↔ e' = { e with values := e.values ++ [⟨name, number⟩] } ∧
      name ≠ "" ∧ name ∉ e.values.map ValueDecl.name ∧ number ∉ e.values.map ValueDecl.number := by
  unfold addValue
  by_cases hn : name = ""
  · rw [if_pos hn]
    simp [hn]
  · rw [if_neg hn]
    by_cases ha : e.values.any (·.name = name) = true
    · rw [if_pos ha]
      have hmem : name ∈ e.values.map ValueDecl.name := by
        simpa [List.any_eq_true] using ha
      simp [hmem]
    · rw [if_neg ha]
      have hnew : name ∉ e.values.map ValueDecl.name := by
        simpa [List.any_eq_true] using ha
      cases hf : e.values.find? (·.number = number) with
      | some owner =>
        have hmem : number ∈ e.values.map ValueDecl.number :=
          List.mem_map.2 ⟨owner, List.mem_of_find?_eq_some hf, by simpa using List.find?_some hf⟩
        simp [hmem]
      | none =>
        have hnew' : number ∉ e.values.map ValueDecl.number := by
          rw [List.mem_map]
          rintro ⟨v, hv, heq⟩
          exact absurd heq (by simpa using List.find?_eq_none.1 hf v hv)
        rw [Except.ok.injEq]
        constructor
        · intro h
          exact ⟨h.symm, hn, hnew, hnew'⟩
        · intro h
          exact h.1.symm

theorem valid_append_iff {e : EnumDecl} {v : ValueDecl} :
    Valid { e with values := e.values ++ [v] } ↔
      e.Valid ∧ v.name ≠ "" ∧ v.name ∉ e.values.map ValueDecl.name ∧
        v.number ∉ e.values.map ValueDecl.number := by
  have hn : ∀ {α : Type} (g : ValueDecl → α), ((e.values ++ [v]).map g).Nodup ↔
      (e.values.map g).Nodup ∧ g v ∉ e.values.map g := by
    intro α g
    rw [List.map_append, List.map_cons, List.map_nil, nodup_append_singleton]
  constructor
  · rintro ⟨h1, h2, h3⟩
    rw [hn] at h2 h3
    rw [forall_mem_append_singleton] at h1
    exact ⟨⟨h1.1, h2.1, h3.1⟩, h1.2, h2.2, h3.2⟩
  · rintro ⟨⟨h1, h2, h3⟩, h4, h5, h6⟩
    exact ⟨forall_mem_append_singleton.2 ⟨h1, h4⟩, (hn _).2 ⟨h2, h5⟩, (hn _).2 ⟨h3, h6⟩⟩

theorem valid_empty (name : String) : Valid ⟨name, []⟩ :=
  ⟨fun _ h => absurd h List.not_mem_nil, List.nodup_nil, List.nodup_nil⟩

theorem Built.valid {e : EnumDecl} (h : e.Built) : e.Valid := by
  induction h with
  | empty name => exact valid_empty name
  | addValue _ ha ih =>
    obtain ⟨rfl, hname, hnew, hnew'⟩ := addValue_eq_ok_iff.1 ha
    exact valid_append_iff.2 ⟨ih, hname, hnew, hnew'⟩

end EnumDecl

/-! ## Messages -/

/-- A message that is made by adding fields and nested types that are made themselves. -/
inductive MessageDecl.Built : MessageDecl → Prop
  | empty (name : String) : Built (empty name)
  | addField {m m' f} (h : Built m) (hf : f.Built) (ha : m.addField f = .ok m') : Built m'
  | addEnum {m m' e} (h : Built m) (he : e.Built) (ha : m.addEnum e = .ok m') : Built m'
  | addMessage {m m' n} (h : Built m) (hn : Built n) (ha : m.addMessage n = .ok m') : Built m'

/-- The names of the types nested in a message. -/
def MessageDecl.typeNames (m : MessageDecl) : List String :=
  m.messages.map MessageDecl.name ++ m.enums.map EnumDecl.name

/-- A message whose fields have names and numbers of their own, whose nested types have names of their
own, and whose enums are valid. Nothing is said about what is nested in its messages. -/
structure MessageDecl.LocallyValid (m : MessageDecl) : Prop where
  fields : ∀ f ∈ m.fields, f.Valid
  numbers : (m.fields.map FieldDecl.number).Nodup
  names : (m.fields.map FieldDecl.name).Nodup
  types : m.typeNames.Nodup
  enums : ∀ e ∈ m.enums, e.Valid

/-- A message that is valid down to the innermost. -/
inductive MessageDecl.Valid : MessageDecl → Prop
  | mk {m} (here : m.LocallyValid) (nested : ∀ n ∈ m.messages, Valid n) : Valid m

namespace MessageDecl

theorem Valid.here {m : MessageDecl} : m.Valid → m.LocallyValid
  | mk h _ => h

theorem Valid.nested {m : MessageDecl} : m.Valid → ∀ n ∈ m.messages, n.Valid
  | mk _ h => h

/-! ### When parts can be added -/

variable {m m' : MessageDecl}

/-- **A field can be added when neither its number nor its name is in use.** -/
theorem addField_eq_ok_iff {f : FieldDecl} :
    m.addField f = .ok m' ↔ m' = { m with fields := m.fields ++ [f] } ∧
      f.number ∉ m.fields.map FieldDecl.number ∧ f.name ∉ m.fields.map FieldDecl.name := by
  unfold addField
  cases hf : m.fields.find? (·.number = f.number) with
  | some owner =>
    have hmem : f.number ∈ m.fields.map FieldDecl.number :=
      List.mem_map.2 ⟨owner, List.mem_of_find?_eq_some hf, by simpa using List.find?_some hf⟩
    simp [hmem]
  | none =>
    have hnew : f.number ∉ m.fields.map FieldDecl.number := by
      rw [List.mem_map]
      rintro ⟨g, hg, heq⟩
      exact absurd heq (by simpa using List.find?_eq_none.1 hf g hg)
    by_cases ha : m.fields.any (·.name = f.name) = true
    · have hmem : f.name ∈ m.fields.map FieldDecl.name := by simpa [List.any_eq_true] using ha
      simp only [if_pos ha]
      constructor
      · intro h
        simp at h
      · intro h
        exact absurd hmem h.2.2
    · have hnew' : f.name ∉ m.fields.map FieldDecl.name := by simpa [List.any_eq_true] using ha
      simp only [if_neg ha]
      rw [Except.ok.injEq]
      constructor
      · intro h
        exact ⟨h.symm, hnew, hnew'⟩
      · intro h
        exact h.1.symm

theorem declares_iff {name : String} : m.declares name = true ↔ name ∈ m.typeNames := by
  simp [declares, typeNames, List.any_eq_true]

/-- **An enum can be nested when its name is not in use.** -/
theorem addEnum_eq_ok_iff {e : EnumDecl} :
    m.addEnum e = .ok m' ↔ m' = { m with enums := m.enums ++ [e] } ∧ e.name ∉ m.typeNames := by
  unfold addEnum
  rw [← declares_iff]
  split
  · next h => simp [h]
  · next h =>
    rw [Except.ok.injEq]
    constructor
    · intro he
      exact ⟨he.symm, h⟩
    · intro he
      exact he.1.symm

/-- **A message can be nested when its name is not in use.** -/
theorem addMessage_eq_ok_iff {n : MessageDecl} :
    m.addMessage n = .ok m' ↔
      m' = { m with messages := m.messages ++ [n] } ∧ n.name ∉ m.typeNames := by
  unfold addMessage
  rw [← declares_iff]
  split
  · next h => simp [h]
  · next h =>
    rw [Except.ok.injEq]
    constructor
    · intro he
      exact ⟨he.symm, h⟩
    · intro he
      exact he.1.symm

/-! ### Messages stay valid -/

theorem locallyValid_addField_iff {f : FieldDecl} :
    LocallyValid { m with fields := m.fields ++ [f] } ↔ m.LocallyValid ∧ f.Valid ∧
      f.number ∉ m.fields.map FieldDecl.number ∧ f.name ∉ m.fields.map FieldDecl.name := by
  constructor
  · rintro ⟨h1, h2, h3, h4, h5⟩
    rw [List.map_append, List.map_cons, List.map_nil, nodup_append_singleton] at h2 h3
    rw [forall_mem_append_singleton] at h1
    exact ⟨⟨h1.1, h2.1, h3.1, h4, h5⟩, h1.2, h2.2, h3.2⟩
  · rintro ⟨⟨h1, h2, h3, h4, h5⟩, h6, h7, h8⟩
    refine ⟨forall_mem_append_singleton.2 ⟨h1, h6⟩, ?_, ?_, h4, h5⟩ <;>
      rw [List.map_append, List.map_cons, List.map_nil, nodup_append_singleton]
    · exact ⟨h2, h7⟩
    · exact ⟨h3, h8⟩

theorem locallyValid_addEnum_iff {e : EnumDecl} :
    LocallyValid { m with enums := m.enums ++ [e] } ↔
      m.LocallyValid ∧ e.Valid ∧ e.name ∉ m.typeNames := by
  have ht : typeNames { m with enums := m.enums ++ [e] } = m.typeNames ++ [e.name] := by
    rw [typeNames, typeNames, List.map_append, List.append_assoc]
    rfl
  constructor
  · rintro ⟨h1, h2, h3, h4, h5⟩
    rw [ht, nodup_append_singleton] at h4
    rw [forall_mem_append_singleton] at h5
    exact ⟨⟨h1, h2, h3, h4.1, h5.1⟩, h5.2, h4.2⟩
  · rintro ⟨⟨h1, h2, h3, h4, h5⟩, h6, h7⟩
    exact ⟨h1, h2, h3, by rw [ht, nodup_append_singleton]; exact ⟨h4, h7⟩,
      forall_mem_append_singleton.2 ⟨h5, h6⟩⟩

theorem locallyValid_addMessage_iff {n : MessageDecl} :
    LocallyValid { m with messages := m.messages ++ [n] } ↔
      m.LocallyValid ∧ n.name ∉ m.typeNames := by
  have ht : (typeNames { m with messages := m.messages ++ [n] }).Nodup ↔
      m.typeNames.Nodup ∧ n.name ∉ m.typeNames := by
    rw [typeNames, typeNames, List.map_append, ← nodup_append_insert]
    rfl
  constructor
  · rintro ⟨h1, h2, h3, h4, h5⟩
    rw [ht] at h4
    exact ⟨⟨h1, h2, h3, h4.1, h5⟩, h4.2⟩
  · rintro ⟨⟨h1, h2, h3, h4, h5⟩, h6⟩
    exact ⟨h1, h2, h3, ht.2 ⟨h4, h6⟩, h5⟩

theorem locallyValid_empty (name : String) : LocallyValid (empty name) :=
  ⟨fun _ h => absurd h List.not_mem_nil, List.nodup_nil, List.nodup_nil, List.nodup_nil,
    fun _ h => absurd h List.not_mem_nil⟩

/-- **Messages that are built step by step are valid.** -/
theorem Built.valid (h : m.Built) : m.Valid := by
  induction h with
  | empty name => exact .mk (locallyValid_empty name) fun _ h => absurd h List.not_mem_nil
  | addField _ hf ha ih =>
    obtain ⟨rfl, hnumber, hname⟩ := addField_eq_ok_iff.1 ha
    exact .mk (locallyValid_addField_iff.2 ⟨ih.here, hf.valid, hnumber, hname⟩) ih.nested
  | addEnum _ he ha ih =>
    obtain ⟨rfl, hname⟩ := addEnum_eq_ok_iff.1 ha
    exact .mk (locallyValid_addEnum_iff.2 ⟨ih.here, he.valid, hname⟩) ih.nested
  | addMessage _ _ ha ih ihn =>
    obtain ⟨rfl, hname⟩ := addMessage_eq_ok_iff.1 ha
    exact .mk (locallyValid_addMessage_iff.2 ⟨ih.here, hname⟩)
      (forall_mem_append_singleton.2 ⟨ih.nested, ihn⟩)

end MessageDecl

/-! ## Records -/

/-- A record whose top-level types are valid. -/
structure RecordDecl.Valid (r : RecordDecl) : Prop where
  messages : ∀ m ∈ r.messages, m.Valid
  enums : ∀ e ∈ r.enums, e.Valid

end ProtoSchema
