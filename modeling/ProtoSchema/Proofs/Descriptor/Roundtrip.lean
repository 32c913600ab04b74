import ProtoSchema.Descriptor.Wire
import ProtoSchema.Pool.Render
import ProtoSchema.Proofs.Pool.Reachable

/-!
# Descriptors of a pool

Describing a declaration and reading the description back gives the same declaration
(`RecordDecl.decl_describe`). The descriptors of a consistent pool therefore declare what the pool is
linked from (`Pool.Consistent.mapM_toDecl_describe`), and they give the pool again
(`Pool.Consistent.ofDescriptors_describe`).

Types are described by their form, which is the form of what each reference meets, so the check of
forms has nothing to object to.
-/

namespace ProtoSchema

open Descriptor (Described NamedType FieldType)

/-! ## Reading descriptions back -/

namespace FieldDecl

variable {p : Pool} {f : FieldDecl}

theorem toInt_number (h : f.Valid) : (Int32.ofInt f.number).toInt = f.number := by
  have hle : f.number ≤ 536870911 := h.le
  refine Int32.toInt_ofInt_of_le ?_ ?_ <;> omega

@[simp] theorem fieldType?_describe : (f.describe p).fieldType? = some (p.fieldType f.typeName) :=
  FieldType.ofNumber?_number _

/-- **A valid field is read back from its description.** -/
theorem decl_describe (h : f.Valid) : (f.describe p).decl = f := by
  have hlabel : (((f.describe p).label?.bind Label.ofNumber?).getD .optional) = f.label := by
    rw [describe, Option.bind_some, Label.ofNumber?_number, Option.getD_some]
  have hnumber : (((f.describe p).number?.map Int32.toInt).getD 0).toNat = f.number := by
    rw [describe, Option.map_some, Option.getD_some, toInt_number h, Int.toNat_natCast]
  have htype : (f.describe p).decl.typeName = f.typeName := by
    unfold Descriptor.Field.decl
    rw [fieldType?_describe, Pool.fieldType]
    cases hk : ScalarType.ofKeyword? f.typeName with
    | some t => exact ScalarType.keyword_of_ofKeyword? hk
    | none =>
      have hd : (f.describe p).typeName? = some f.typeName := by
        rw [describe, hk]
        rfl
      rw [hd]
      cases (Name.absolute? f.typeName).bind p.find? with
      | none => rfl
      | some ref => cases ref <;> rfl
  show FieldDecl.mk _ (f.describe p).decl.typeName _ _ _ = _
  rw [hlabel, hnumber, htype]
  rfl

end FieldDecl

theorem EnumDecl.decl_describe (e : EnumDecl) : e.describe.decl = e := by
  have hv : Descriptor.Value.decl ∘ (fun v : ValueDecl => ⟨some v.name, some v.number⟩) = id := rfl
  show EnumDecl.mk e.name ((e.values.map _).map Descriptor.Value.decl) = e
  rw [List.map_map, hv, List.map_id]

namespace MessageDecl

variable {p : Pool}

theorem describeList_eq_map (ms : List MessageDecl) : describeList p ms = ms.map (describe p) := by
  induction ms with
  | nil => rw [describeList, List.map_nil]
  | cons m ms ih => rw [describeList, ih, List.map_cons]

/-- **A valid message is read back from its description.** -/
theorem decl_describe {m : MessageDecl} (h : m.Valid) : (m.describe p).decl = m := by
  induction h with
  | @mk m here _ ih =>
    obtain ⟨name, fields, messages, enums⟩ := m
    have hfields : fields.map (Descriptor.Field.decl ∘ FieldDecl.describe p) = fields.map id :=
      List.map_congr_left fun f hf => FieldDecl.decl_describe (here.fields f hf)
    have hmessages : messages.map (Descriptor.Message.decl ∘ describe p) = messages.map id :=
      List.map_congr_left ih
    have henums : enums.map (Descriptor.Enum.decl ∘ EnumDecl.describe) = enums.map id :=
      List.map_congr_left fun e _ => e.decl_describe
    rw [describe, describeList_eq_map, Descriptor.Message.decl, Descriptor.Message.declList_eq_map,
      List.map_map, List.map_map, List.map_map, hfields, hmessages, henums, List.map_id, List.map_id,
      List.map_id]
    rfl

end MessageDecl

theorem RecordDecl.package_describe {p : Pool} (r : RecordDecl) :
    (r.describe p).package?.getD "" = r.package := by
  rw [describe]
  by_cases he : r.package = ""
  · rw [if_pos he, he]
    rfl
  · rw [if_neg he]
    rfl

/-- **A valid record is read back from its description.** -/
theorem RecordDecl.decl_describe {p : Pool} {r : RecordDecl} (h : r.Valid) :
    (r.describe p).decl = r := by
  have hmessages : r.messages.map (Descriptor.Message.decl ∘ MessageDecl.describe p) =
      r.messages.map id := List.map_congr_left fun m hm => MessageDecl.decl_describe (h.messages m hm)
  have henums : r.enums.map (Descriptor.Enum.decl ∘ EnumDecl.describe) = r.enums.map id :=
    List.map_congr_left fun e _ => e.decl_describe
  unfold Descriptor.File.decl
  rw [package_describe, describe, MessageDecl.describeList_eq_map]
  simp only [List.map_map]
  rw [hmessages, henums, List.map_id, List.map_id]
  rfl

/-! ## Described types of a description -/

/-- The description of a declared type. -/
def ScopedType.describe (p : Pool) (t : ScopedType) : Described :=
  ⟨t.scope, match t.decl with
    | .message m => .message (m.describe p)
    | .enum e => .enum e.describe⟩

namespace MessageDecl

variable {p : Pool}

mutual

theorem described_describe (scope : String) : ∀ m : MessageDecl,
    (m.describe p).described scope = (m.types scope).map (ScopedType.describe p)
  | ⟨name, fields, messages, enums⟩ => by
    have hm : ScopedType.describe p ⟨scope, .message ⟨name, fields, messages, enums⟩⟩ =
        ⟨scope, .message ((⟨name, fields, messages, enums⟩ : MessageDecl).describe p)⟩ := rfl
    rw [types, List.map_cons, hm, List.map_append, ← describedList_describeList, describe,
      Descriptor.Message.described, List.map_map, List.map_map]
    rfl

theorem describedList_describeList (scope : String) : ∀ ms : List MessageDecl,
    Descriptor.Message.describedList scope (describeList p ms) =
      (typesList scope ms).map (ScopedType.describe p)
  | [] => rfl
  | m :: ms => by
    rw [describeList, Descriptor.Message.describedList, typesList, List.map_append,
      described_describe, describedList_describeList]

end

end MessageDecl

/-- What a record's description describes are the descriptions of what the record declares. -/
theorem RecordDecl.described_describe {p : Pool} (r : RecordDecl) :
    (r.describe p).described = r.types.map (ScopedType.describe p) := by
  rw [Descriptor.File.described, types, List.map_append, package_describe, describe,
    ← MessageDecl.describedList_describeList, List.map_map, List.map_map]
  rfl

/-! ## The descriptors of a consistent pool -/

/-- The type of a field of the kind. -/
def FieldKind.type : FieldKind → FieldType
  | scalar t => .scalar t
  | message _ => .message
  | enum _ => .enum

/-- A reference by its absolute name is described by the form of what it meets. -/
theorem Pool.fieldType_typeName {p : Pool} {scope : String} {kind : FieldKind}
    (h : Link.kind? p scope (p.typeName kind) = some kind) :
    p.fieldType (p.typeName kind) = kind.type := by
  cases kind with
  | scalar t => rw [fieldType, typeName, ScalarType.ofKeyword?_keyword, FieldKind.type]
  | message i =>
    have hfind : p.find? (p.message i).fullName = some (.message i) := by
      rwa [typeName, Link.kind?_dot, Link.map_kindOf_message] at h
    rw [fieldType, typeName, ScalarType.ofKeyword?_dot, Name.absolute?_dot]
    simp only [Option.bind_some, hfind, FieldKind.type]
  | enum i =>
    have hfind : p.find? (p.enum i).fullName = some (.enum i) := by
      rwa [typeName, Link.kind?_dot, Link.map_kindOf_enum] at h
    rw [fieldType, typeName, ScalarType.ofKeyword?_dot, Name.absolute?_dot]
    simp only [Option.bind_some, hfind, FieldKind.type]

namespace FieldDecl

variable {p : Pool} {f : FieldDecl} {scope : String} {kind : FieldKind}

theorem fieldType?_describe_kind (hk : Link.kind? p scope f.typeName = some kind)
    (ht : f.typeName = p.typeName kind) : (f.describe p).fieldType? = some kind.type := by
  rw [fieldType?_describe, ht, Pool.fieldType_typeName (ht ▸ hk)]

/-- A valid field with a resolved type is described without anything missing. -/
theorem admissible_describe (h : f.Valid) (hk : Link.kind? p scope f.typeName = some kind)
    (ht : f.typeName = p.typeName kind) : (f.describe p).Admissible where
  label n hn := by
    obtain rfl : f.label.number = n := Option.some.inj hn
    rw [Label.ofNumber?_number]
    rfl
  type := by
    rw [fieldType?_describe_kind hk ht]
    have hd : ∀ n, f.typeName = "." ++ n → (f.describe p).typeName? = some ("." ++ n) := by
      intro n hn
      rw [describe, hn, ScalarType.ofKeyword?_dot]
      rfl
    cases kind with
    | scalar t => exact Or.inl ⟨t, rfl⟩
    | message i => exact Or.inr ⟨Or.inl rfl, _, hd _ ht⟩
    | enum i => exact Or.inr ⟨Or.inr rfl, _, hd _ ht⟩
  decl := by
    rw [decl_describe h]
    exact h

/-- A valid field with a resolved type is described by the form of its type. -/
theorem formed_describe (h : f.Valid) (hk : Link.kind? p scope f.typeName = some kind)
    (ht : f.typeName = p.typeName kind) : (f.describe p).Formed p scope := by
  intro form hform
  rw [decl_describe h, hk, Option.bind_some, ← hform]
  have hty := fieldType?_describe_kind hk ht
  unfold Descriptor.Field.fieldType? at hty
  rw [Descriptor.Field.form?, hty]
  cases kind <;> rfl

end FieldDecl

namespace Pool.Consistent

variable {p : Pool}

theorem decls_describe (h : p.Consistent) :
    p.describe.map Descriptor.File.decl = p.decls := by
  have hmap : p.decls.map (Descriptor.File.decl ∘ RecordDecl.describe p) = p.decls.map id :=
    List.map_congr_left fun r hr => RecordDecl.decl_describe (h.valid r hr)
  rw [describe, List.map_map, hmap, List.map_id]

theorem described_describe : p.describe.flatMap Descriptor.File.described =
    (p.decls.flatMap RecordDecl.types).map (ScopedType.describe p) := by
  rw [describe, List.flatMap_map, List.map_flatMap]
  simp only [RecordDecl.described_describe]

/-- A type of the pool is described without anything missing. -/
theorem admissible_describe (h : p.Consistent) {t : ScopedType}
    (ht : t ∈ p.decls.flatMap RecordDecl.types) : (t.describe p).Admissible := by
  obtain ⟨scope, m | e⟩ := t
  · have hv : m.Valid := h.valid_of_types ht
    have hname := (Name.isPlain_iff.1 (h.linked.plain _ ht)).1
    obtain ⟨name, fields, messages, enums⟩ := m
    refine ⟨?_, ?_, ?_⟩
    · rw [MessageDecl.decl_describe hv]
      exact hname
    · rw [MessageDecl.describe]
      simp only [List.forall_mem_map]
      intro f hf
      obtain ⟨kind, hk, htype⟩ := h.kind?_field ht hf
      exact FieldDecl.admissible_describe (hv.here.fields f hf) hk htype
    · rw [MessageDecl.decl_describe hv]
      exact hv.here
  · refine ⟨?_, ?_⟩
    · rw [EnumDecl.decl_describe]
      exact (Name.isPlain_iff.1 (h.linked.plain _ ht)).1
    · rw [EnumDecl.decl_describe]
      exact h.valid_of_types ht

/-- Nothing is missing in the descriptors of the pool. -/
theorem admissible_of_mem_describe (h : p.Consistent) : ∀ f ∈ p.describe, f.Admissible := by
  rw [Descriptor.admissible_iff, described_describe, List.forall_mem_map]
  intro t ht
  exact h.admissible_describe ht

/-- **The declarations of the pool are read back from its descriptors**: reading these is never
refused, and it changes nothing. -/
theorem mapM_toDecl_describe (h : p.Consistent) : p.describe.mapM (·.toDecl) = .ok p.decls :=
  Descriptor.File.mapM_toDecl_eq_ok_iff.2 ⟨h.admissible_of_mem_describe, h.decls_describe.symm⟩

/-- A type of the pool is described with the forms of what it refers to. -/
theorem formed_describe (h : p.Consistent) {t : ScopedType}
    (ht : t ∈ p.decls.flatMap RecordDecl.types) : (t.describe p).Formed p := by
  obtain ⟨scope, m | e⟩ := t
  · have hv : m.Valid := h.valid_of_types ht
    have hname : Described.fullName (ScopedType.describe p ⟨scope, .message m⟩) =
        Name.qualify scope m.name := by
      rw [← Described.fullName_decl]
      show Name.qualify scope (m.describe p).decl.name = _
      rw [MessageDecl.decl_describe hv]
    obtain ⟨name, fields, messages, enums⟩ := m
    show ∀ f ∈ (MessageDecl.describe p ⟨name, fields, messages, enums⟩).fields, f.Formed p _
    rw [MessageDecl.describe]
    simp only [List.forall_mem_map, hname]
    intro f hf
    obtain ⟨kind, hk, htype⟩ := h.kind?_field ht hf
    exact FieldDecl.formed_describe (hv.here.fields f hf) hk htype
  · exact trivial

/-- **The descriptors of a consistent pool give the pool again.** -/
theorem ofDescriptors_describe (h : p.Consistent) : ofDescriptors p.describe = .ok p := by
  refine ofDescriptors_eq_ok_iff.2 ⟨?_, h.admissible_of_mem_describe, ?_, ?_⟩
  · intro he
    exact h.nonempty (List.map_eq_nil_iff.1 he)
  · rw [h.decls_describe]
    exact h.linked
  · rw [described_describe, List.forall_mem_map]
    intro t ht
    exact h.formed_describe ht

end Pool.Consistent

/-! ## Reachable pools -/

/-- **The descriptors of a reachable pool give a pool that is the same in every part.** -/
theorem Pool.Reachable.describe_roundtrip {p : Pool} (h : p.Reachable) :
    ∃ q, ofDescriptors p.describe = .ok q ∧
      (q.records = p.records ∧ q.messages = p.messages ∧ q.enums = p.enums) ∧
      (∀ name, q.find? name = p.find? name) ∧ q.render = p.render ∧ q.toBytes = p.toBytes :=
  ⟨p, h.consistent.ofDescriptors_describe, ⟨rfl, rfl, rfl⟩, fun _ => rfl, rfl, rfl⟩

theorem Pool.Reachable.describe_roundtrip_tree : ∃ p, Draft.tree.build = .ok p ∧
    ∃ q, ofDescriptors p.describe = .ok q ∧
      (q.records = p.records ∧ q.messages = p.messages ∧ q.enums = p.enums) ∧
      (∀ name, q.find? name = p.find? name) ∧ q.render = p.render ∧ q.toBytes = p.toBytes := by
  obtain ⟨p, hp, hreachable⟩ := Draft.exists_tree
  exact ⟨p, hp, Pool.Reachable.describe_roundtrip hreachable⟩

end ProtoSchema
