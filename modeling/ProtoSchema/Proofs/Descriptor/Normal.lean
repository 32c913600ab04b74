import ProtoSchema.Proofs.Descriptor.Roundtrip
import ProtoSchema.Proofs.Descriptor.WellFormed
import ProtoSchema.Proofs.Wire.Reader

/-!
# Writing descriptors back

A pool keeps all that it reads of descriptors: its own descriptors are those it was made of, in the
same order, with what was left out put in where it has a meaning, and with what has none left out
(`Pool.describe_of_ofDescriptors`). An absolute reference is bound to the type of just that name, and
a field's type is the form of what its reference met, so both come back as they were.

What a pool does not read is not held in descriptors at all: on the wire, a record of such a part
changes nothing of what is read (`Silent`).
-/

namespace ProtoSchema.Descriptor

/-! ## Normal descriptors -/

/-- The field as it is written back. A label that is left out is optional, and a scalar type has no
name. -/
def Field.normal (f : Field) : Field :=
  { f with
    label? := some (f.label?.getD Label.optional.number)
    typeName? :=
      match f.fieldType? with
      | some (.scalar _) => none
      | _ => f.typeName? }

/-- The value as it is written back. A number that is left out is zero. -/
def Value.normal (v : Value) : Value := { v with number? := some (v.number?.getD 0) }

/-- The enum as it is written back. -/
def Enum.normal (e : Enum) : Enum := { e with values := e.values.map Value.normal }

namespace Message

mutual

/-- The message as it is written back. -/
def normal : Message → Message
  | ⟨name?, fields, messages, enums⟩ =>
    ⟨name?, fields.map Field.normal, normalList messages, enums.map Enum.normal⟩

def normalList : List Message → List Message
  | [] => []
  | m :: ms => m.normal :: normalList ms

end

end Message

/-- The file as it is written back. A name that is left out is empty, and an empty package is left
out. -/
def File.normal (f : File) : File where
  name? := some (f.name?.getD "")
  package? := if f.package? = some "" then none else f.package?
  dependencies := f.dependencies
  messages := Message.normalList f.messages
  enums := f.enums.map Enum.normal

/-! ## Fields -/

theorem number_of_ofNumber? {n : Int32} {t : FieldType} (h : FieldType.ofNumber? n = some t) :
    t.number = n := by
  simpa using List.find?_some h

theorem number_of_label_ofNumber? {n : Int32} {l : Label} (h : Label.ofNumber? n = some l) :
    l.number = n := by
  simpa using List.find?_some h

namespace Field

variable {p : Pool} {f : Field} {scope : String}

theorem label?_normal (h : f.Admissible) : some f.decl.label.number = f.normal.label? := by
  show some ((f.label?.bind Label.ofNumber?).getD .optional).number =
    some (f.label?.getD Label.optional.number)
  cases hl : f.label? with
  | none => rfl
  | some n =>
    obtain ⟨l, hn⟩ := Option.isSome_iff_exists.1 (h.label n hl)
    rw [Option.bind_some, hn, Option.getD_some, Option.getD_some, number_of_label_ofNumber? hn]

theorem number?_normal (h : f.Admissible) : some (Int32.ofInt f.decl.number) = f.number? := by
  obtain ⟨k, hk, hle⟩ := number_of_valid h.decl
  show some (Int32.ofInt (((f.number?.map Int32.toInt).getD 0).toNat : Int)) = _
  rw [hk, Option.map_some, Option.getD_some, Int.toNat_of_nonneg hle, Int32.ofInt_toInt]

/-- **A field's type is the form of what its reference met.** -/
theorem exists_kind (h : f.Admissible) (hf : f.Formed p scope) :
    ∃ kind, Link.kind? p scope f.decl.typeName = some kind ∧ f.fieldType? = some kind.type := by
  rcases h.type with ⟨t, ht⟩ | ⟨ht | ht, -⟩
  · refine ⟨.scalar t, ?_, ht⟩
    rw [typeName_of_scalar ht]
    exact Link.kind?_keyword t
  · have hform := hf .message (by rw [form?_eq, ht])
    obtain ⟨kind, hkind, hk⟩ := Option.bind_eq_some_iff.1 hform
    refine ⟨kind, hkind, ?_⟩
    cases kind <;> simp_all [FieldKind.form?, FieldKind.type]
  · have hform := hf .enum (by rw [form?_eq, ht])
    obtain ⟨kind, hkind, hk⟩ := Option.bind_eq_some_iff.1 hform
    refine ⟨kind, hkind, ?_⟩
    cases kind <;> simp_all [FieldKind.form?, FieldKind.type]

/-- **The declared type of an admissible field is the name of what it met.** It is a keyword or
absolute as it stands. -/
theorem typeName_eq (h : f.Admissible) {kind : FieldKind}
    (hk : Link.kind? p scope f.decl.typeName = some kind) (ht : f.fieldType? = some kind.type) :
    p.typeName kind = f.decl.typeName := by
  rcases h.type with ⟨t, hs⟩ | ⟨hs, n, hn⟩
  · rw [typeName_of_scalar hs, Link.kind?_keyword] at hk
    obtain rfl := Option.some.inj hk
    exact (typeName_of_scalar hs).symm
  · rw [typeName_of_named hn hs, Link.kind?_dot] at hk
    rw [typeName_of_named hn hs]
    obtain ⟨ref, href, rfl⟩ := Option.map_eq_some_iff.1 hk
    cases ref with
    | message i => rw [Link.kindOf, Pool.typeName, (Pool.fullName_of_find?_message href).2]
    | enum i => rw [Link.kindOf, Pool.typeName, (Pool.fullName_of_find?_enum href).2]

/-- **An admissible field with the right form is written back as it was.** -/
theorem describe_absolute (h : f.Admissible) (hf : f.Formed p scope) :
    (f.decl.absolute p scope).describe p = f.normal := by
  obtain ⟨kind, hkind, ht⟩ := exists_kind h hf
  have hname := typeName_eq h hkind ht
  have habs : f.decl.absolute p scope = f.decl := by
    rw [FieldDecl.absolute, hkind, Option.map_some, Option.getD_some, hname]
  have htype : some (p.fieldType f.decl.typeName).number = f.type? := by
    rw [← hname] at hkind ⊢
    rw [Pool.fieldType_typeName hkind]
    obtain ⟨n, hn, hof⟩ := Option.bind_eq_some_iff.1 ht
    rw [number_of_ofNumber? hof, hn]
  have htypeName : (f.decl.describe p).typeName? = f.normal.typeName? := by
    rw [FieldDecl.describe, normal]
    rcases h.type with ⟨t, hs⟩ | ⟨hs, n, hn⟩
    · rw [typeName_of_scalar hs, hs, ScalarType.ofKeyword?_keyword]
      rfl
    · rw [typeName_of_named hn hs, ScalarType.ofKeyword?_dot, hn]
      rcases hs with hs | hs <;> rw [hs] <;> rfl
  rw [habs]
  show Field.mk _ _ _ _ (f.decl.describe p).typeName? _ = _
  rw [htypeName, htype, label?_normal h, number?_normal h, ← name_of_valid h.decl]
  rfl

end Field

/-! ## Types and files -/

theorem Enum.describe_decl {e : Enum} (h : e.Admissible) : e.decl.describe = e.normal := by
  have hvalues : (e.decl.values.map fun v => (⟨some v.name, some v.number⟩ : Value)) =
      e.values.map Value.normal := by
    show (e.values.map Value.decl).map _ = _
    rw [List.map_map]
    refine List.map_congr_left fun v hv => ?_
    obtain ⟨name, hname, -⟩ := (Enum.admissible_iff.1 h).2.1 v hv
    show Value.mk (some (v.name?.getD "")) (some (v.number?.getD 0)) = _
    rw [hname, Value.normal, hname]
    rfl
  rw [EnumDecl.describe, hvalues, ← name_of_ne h.name]
  rfl

/-- What linking and writing back make of a described type. -/
def Described.Restored (p : Pool) (x : Described) : Prop :=
  match x.type with
  | .message m => m.name? = some m.decl.name ∧
      ∀ f ∈ m.fields, (f.decl.absolute p x.fullName).describe p = f.normal
  | .enum e => e.decl.describe = e.normal

/-- A described type that is admissible and has the right forms is written back as it was. -/
theorem Described.restored {p : Pool} {x : Described} (h : x.Admissible) (hf : x.Formed p) :
    x.Restored p := by
  obtain ⟨scope, m | e⟩ := x
  · obtain ⟨hname, hfields, -⟩ := h
    refine ⟨?_, fun f hmem => Field.describe_absolute (hfields f hmem) (hf f hmem)⟩
    rw [Message.name_decl] at hname ⊢
    cases hn : m.name? with
    | none => simp [hn] at hname
    | some name => rfl
  · exact Enum.describe_decl h

namespace Message

variable {p : Pool}

mutual

theorem describe_absolute (scope : String) : ∀ m : Message,
    (∀ x ∈ m.described scope, x.Restored p) → (m.decl.absolute p scope).describe p = m.normal
  | ⟨name?, fields, messages, enums⟩, h => by
    rw [described, List.forall_mem_cons, List.forall_mem_append, List.forall_mem_map] at h
    obtain ⟨⟨hname, hfields⟩, henums, hmessages⟩ := h
    rw [name_decl] at hname
    have hfields' : (((fields.map Field.decl).map (FieldDecl.absolute p
        (Name.qualify scope (name?.getD "")))).map (FieldDecl.describe p)) =
          fields.map Field.normal := by
      rw [List.map_map, List.map_map]
      exact List.map_congr_left hfields
    have henums' : (enums.map Enum.decl).map EnumDecl.describe = enums.map Enum.normal := by
      rw [List.map_map]
      exact List.map_congr_left henums
    rw [decl, MessageDecl.absolute, MessageDecl.describe, normal, hfields', henums',
      describeList_absoluteList _ messages hmessages, ← hname]

theorem describeList_absoluteList (scope : String) : ∀ ms : List Message,
    (∀ x ∈ describedList scope ms, x.Restored p) →
      MessageDecl.describeList p (MessageDecl.absoluteList p scope (declList ms)) = normalList ms
  | [], _ => rfl
  | m :: ms, h => by
    rw [describedList, List.forall_mem_append] at h
    rw [declList, MessageDecl.absoluteList, MessageDecl.describeList, normalList,
      describe_absolute scope m h.1, describeList_absoluteList scope ms h.2]

end

end Message

theorem File.describe_absolute {p : Pool} {f : File} (h : ∀ x ∈ f.described, x.Restored p) :
    (f.decl.absolute p).describe p = f.normal := by
  rw [described, List.forall_mem_append, List.forall_mem_map] at h
  obtain ⟨hmessages, henums⟩ := h
  have hpackage : (if f.package?.getD "" = "" then none else some (f.package?.getD "")) =
      if f.package? = some "" then none else f.package? := by
    cases f.package? with
    | none => rfl
    | some package => by_cases he : package = "" <;> simp [he]
  have hmessages' : MessageDecl.describeList p
      (MessageDecl.absoluteList p (f.package?.getD "") (f.messages.map Message.decl)) =
        Message.normalList f.messages := by
    rw [← Message.declList_eq_map]
    exact Message.describeList_absoluteList _ _ hmessages
  have henums' : (f.enums.map Enum.decl).map EnumDecl.describe = f.enums.map Enum.normal := by
    rw [List.map_map]
    exact List.map_congr_left henums
  show File.mk _ _ _ _ _ = _
  rw [normal, ← hpackage, ← hmessages', ← henums']
  rfl

/-! ## Parts that are not read -/

/-- Records of other fields than the numbered ones change nothing of what is read. -/
def Silent {α : Type} (held : List Nat) (r : Reader ReadError (α → α)) : Prop :=
  ∀ bs k after change rest, Reader.key.read bs = .ok (k, after) → k.tag ∉ held →
    r.read bs = .ok (change, rest) → change = id

/-- Whatever is read of the field changes nothing. -/
def Known.Unread {α : Type} (f : Known α) : Prop := ∀ type, (f.read type).Yields (· = id)

namespace Known

variable {α β : Type}

theorem unread_single (name : String) (type : WireType) (r : Reader WireFault β) :
    (single name type r fun _ (m : α) => m).Unread := fun _ _ _ _ h => by
  obtain ⟨_, -, rfl⟩ := Reader.map_eq_ok_iff.1 (Reader.mapError_eq_ok_iff.1 h)
  rfl

@[simp] theorem unread_unreadText (name : String) : (unreadText name : Known α).Unread :=
  unread_single name _ _

@[simp] theorem unread_unreadInt (name : String) : (unreadInt name : Known α).Unread :=
  unread_single name _ _

@[simp] theorem unread_unreadInts (name : String) : (unreadInts name : Known α).Unread :=
  fun _ _ _ _ h => by
    obtain ⟨_, -, rfl⟩ := Reader.map_eq_ok_iff.1 (Reader.mapError_eq_ok_iff.1 h)
    rfl

@[simp] theorem unread_unreadBody (name : String) (budget : Nat) :
    (unreadBody name budget : Known α).Unread := unread_single name _ _

end Known

/-- **Where only the numbered fields are kept, all other records are silent**, be they known or not. -/
theorem silent_record {α : Type} {held : List Nat} {message : String} {budget : Nat}
    {known : Nat → Option (Known α)}
    (h : ∀ tag f, known tag = some f → tag ∉ held → f.Unread) :
    Silent held (record message budget known) := by
  intro bs k after change rest hk htag hread
  obtain ⟨k', after', hk', hread⟩ := Reader.bind_eq_ok_iff.1 hread
  rw [Reader.mapError_eq_ok_iff, hk] at hk'
  obtain ⟨rfl, rfl⟩ := Prod.mk.inj (Except.ok.inj hk')
  cases hf : known k.tag with
  | some f =>
    simp only [hf] at hread
    exact h _ f hf htag _ _ _ _ (Reader.mapError_eq_ok_iff.1 hread)
  | none =>
    simp only [hf] at hread
    obtain ⟨_, -, rfl⟩ := Reader.map_eq_ok_iff.1 (Reader.mapError_eq_ok_iff.1 hread)
    rfl

theorem Field.unread_known {budget tag : Nat} {f : Known Field} (h : known budget tag = some f)
    (htag : tag ∉ [1, 3, 4, 5, 6, 7]) : f.Unread := by
  unfold known at h
  split at h <;> simp at h htag <;> simp [← h]

theorem Value.unread_known {budget tag : Nat} {f : Known Value} (h : known budget tag = some f)
    (htag : tag ∉ [1, 2]) : f.Unread := by
  unfold known at h
  split at h <;> simp at h htag
  simp [← h]

theorem Enum.unread_known {budget tag : Nat} {f : Known Enum} (h : known budget tag = some f)
    (htag : tag ∉ [1, 2]) : f.Unread := by
  unfold known at h
  split at h <;> simp at h htag <;> simp [← h]

theorem Message.unread_known {budget tag : Nat} {nested : Reader ReadError Message}
    {f : Known Message} (h : known budget nested tag = some f) (htag : tag ∉ [1, 2, 3, 4]) :
    f.Unread := by
  unfold known at h
  split at h <;> simp at h htag <;> simp [← h]

theorem File.unread_known {budget tag : Nat} {f : Known File} (h : known budget tag = some f)
    (htag : tag ∉ [1, 2, 3, 4, 5]) : f.Unread := by
  unfold known at h
  split at h <;> simp at h htag <;> simp [← h]

theorem unread_fileSetKnown {budget tag : Nat} {f : Known (List File)}
    (h : fileSetKnown budget tag = some f) (htag : tag ∉ [1]) : f.Unread := by
  unfold fileSetKnown at h
  split at h
  · simp at htag
  · simp at h

/-- Of the bytes of descriptors, only the parts that descriptors hold are kept. -/
structure KeepsHeldOnly (budget : Nat) : Prop where
  set : Silent [1] (record "FileDescriptorSet" budget (fileSetKnown budget))
  file : Silent [1, 2, 3, 4, 5] (record "FileDescriptorProto" budget (File.known budget))
  message : Silent [1, 2, 3, 4]
    (record "DescriptorProto" budget (Message.known budget (Message.body budget)))
  enum : Silent [1, 2] (record "EnumDescriptorProto" budget (Enum.known budget))
  value : Silent [1, 2] (record "EnumValueDescriptorProto" budget (Value.known budget))
  field : Silent [1, 3, 4, 5, 6, 7] (record "FieldDescriptorProto" budget (Field.known budget))

theorem keepsHeldOnly (budget : Nat) : KeepsHeldOnly budget where
  set := silent_record fun _ _ => unread_fileSetKnown
  file := silent_record fun _ _ => File.unread_known
  message := silent_record fun _ _ => Message.unread_known
  enum := silent_record fun _ _ => Enum.unread_known
  value := silent_record fun _ _ => Value.unread_known
  field := silent_record fun _ _ => Field.unread_known

end ProtoSchema.Descriptor

namespace ProtoSchema

open Descriptor

/-- **A pool's descriptors are those it was made of, in normal form.** -/
theorem Pool.describe_of_ofDescriptors {files : List File} {p : Pool}
    (h : ofDescriptors files = .ok p) : p.describe = files.map File.normal := by
  obtain ⟨-, hadm, hlinked, hformed⟩ := ofDescriptors_eq_ok_iff.1 h
  rw [admissible_iff] at hadm
  rw [describe, hlinked.decls_eq, List.map_map, List.map_map]
  refine List.map_congr_left fun f hf => File.describe_absolute fun x hx => ?_
  have hmem : x ∈ files.flatMap File.described := List.mem_flatMap.2 ⟨f, hf, hx⟩
  exact Described.restored (hadm x hmem) (hformed x hmem)

/-- **Writing a pool back is normalising what it was made of**: nothing that is read is lost, and
nothing else is read. -/
theorem Pool.ofDescriptors_normalizes {files : List File} {p : Pool}
    (h : ofDescriptors files = .ok p) :
    p.describe = files.map File.normal ∧ ∀ budget, KeepsHeldOnly budget :=
  ⟨describe_of_ofDescriptors h, keepsHeldOnly⟩

/-- A file that leaves out what may be left out, and names a scalar type. -/
def Descriptor.sparse : File where
  name? := none
  package? := some ""
  dependencies := ["soil.proto"]
  messages := [⟨some "Leaf", [⟨some "size", some 1, none, some 5, some ".Size", some "3"⟩,
    ⟨some "kind", some 2, none, some 14, some ".Leaf.Kind", some "BROAD"⟩], [],
    [⟨some "Kind", [⟨some "BROAD", none⟩]⟩]⟩]
  enums := []

theorem Pool.ofDescriptors_normalizes_sparse : ∃ p, ofDescriptors [sparse] = .ok p ∧
    p.describe = [{
      name? := some ""
      package? := none
      dependencies := ["soil.proto"]
      messages := [⟨some "Leaf", [⟨some "size", some 1, some 1, some 5, none, some "3"⟩,
        ⟨some "kind", some 2, some 1, some 14, some ".Leaf.Kind", some "BROAD"⟩], [],
        [⟨some "Kind", [⟨some "BROAD", some 0⟩]⟩]⟩]
      enums := [] }] := by
  have hok : (ofDescriptors [sparse]).isOk = true := by decide
  obtain ⟨p, hp⟩ := Traverse.exists_of_isOk hok
  exact ⟨p, hp, (ofDescriptors_normalizes hp).1⟩

end ProtoSchema
