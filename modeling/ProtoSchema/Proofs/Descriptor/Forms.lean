import ProtoSchema.Proofs.Descriptor.Admissible
import ProtoSchema.Proofs.Pool.Linked

/-!
# Forms of references

After linking, each reference must have met a type of the form that its field's type says. The check
walks through the descriptors once more and looks each message up by a name that it puts together by
itself, and each field by its number. Both lead to what the message and the field were linked to
(`checkForms_eq_ok_iff`), so the check comes down to one condition on each field, `Field.Formed`.
-/

namespace ProtoSchema

/-- The form of the type that a kind refers to. -/
def FieldKind.form? : FieldKind → Option TypeForm
  | scalar _ => none
  | message _ => some .message
  | enum _ => some .enum

namespace Descriptor

open Traverse

/-! ## Described types -/

/-- The description of a named type. -/
inductive NamedType
  | message (m : Message)
  | enum (e : Enum)
deriving Repr

namespace NamedType

def name? : NamedType → Option String
  | message m => m.name?
  | enum e => e.name?

/-- What the description declares. -/
def decl : NamedType → TypeDecl
  | message m => .message m.decl
  | enum e => .enum e.decl

theorem name_decl (t : NamedType) : t.decl.name = t.name?.getD "" := by
  cases t with
  | message m => exact Message.name_decl m
  | enum e => rfl

end NamedType

/-- A described type and the scope that its name is qualified with. -/
structure Described where
  scope : String
  type : NamedType
deriving Repr

/-- What the description declares. -/
def Described.decl (x : Described) : ScopedType := ⟨x.scope, x.type.decl⟩

/-- The full name of a described type. -/
def Described.fullName (x : Described) : String := Name.qualify x.scope (x.type.name?.getD "")

theorem Described.fullName_decl (x : Described) : x.decl.fullName = x.fullName :=
  congrArg (Name.qualify x.scope) x.type.name_decl

namespace Message

mutual

/-- The types that the description of a message in the scope describes. -/
def described (scope : String) : Message → List Described
  | ⟨name?, fields, messages, enums⟩ =>
    ⟨scope, .message ⟨name?, fields, messages, enums⟩⟩ ::
      (enums.map (⟨Name.qualify scope (name?.getD ""), .enum ·⟩) ++
        describedList (Name.qualify scope (name?.getD "")) messages)

def describedList (scope : String) : List Message → List Described
  | [] => []
  | m :: ms => m.described scope ++ describedList scope ms

end

end Message

/-- The types that a file describes. -/
def File.described (f : File) : List Described :=
  Message.describedList (f.package?.getD "") f.messages ++
    f.enums.map (⟨f.package?.getD "", .enum ·⟩)

namespace Message

mutual

theorem types_decl (scope : String) : ∀ m : Message,
    m.decl.types scope = (m.described scope).map Described.decl
  | ⟨name?, fields, messages, enums⟩ => by
    have hm : Described.decl ⟨scope, .message ⟨name?, fields, messages, enums⟩⟩ =
        ⟨scope, .message (decl ⟨name?, fields, messages, enums⟩)⟩ := rfl
    rw [described, List.map_cons, hm, List.map_append, ← typesList_decl, decl, MessageDecl.types,
      List.map_map, List.map_map]
    rfl

theorem typesList_decl (scope : String) : ∀ ms : List Message,
    MessageDecl.typesList scope (declList ms) = (describedList scope ms).map Described.decl
  | [] => rfl
  | m :: ms => by
    rw [declList, MessageDecl.typesList, describedList, List.map_append, types_decl, typesList_decl]

end

end Message

/-- **What a file declares is what its described types declare.** -/
theorem File.types_decl (f : File) : f.decl.types = f.described.map Described.decl := by
  rw [RecordDecl.types, described, List.map_append, decl, ← Message.declList_eq_map,
    ← Message.typesList_decl, List.map_map, List.map_map]
  rfl

theorem types_decls (files : List File) : (files.map File.decl).flatMap RecordDecl.types =
    (files.flatMap File.described).map Described.decl := by
  rw [List.flatMap_map, List.map_flatMap]
  simp only [File.types_decl]

/-! ## Admissible types, one by one -/

/-- The described type has a name, and what is there in it declares something valid. For a message
nothing is said about what is nested in its messages. -/
def Described.Admissible (x : Described) : Prop :=
  match x.type with
  | .message m => m.decl.name ≠ "" ∧ (∀ f ∈ m.fields, f.Admissible) ∧ m.decl.LocallyValid
  | .enum e => e.Admissible

namespace Message

mutual

theorem admissible_iff (scope : String) : ∀ m : Message,
    m.Admissible ↔ ∀ x ∈ m.described scope, x.Admissible
  | ⟨name?, fields, messages, enums⟩ => by
    rw [described, List.forall_mem_cons, List.forall_mem_append, List.forall_mem_map,
      ← admissibleList_iff]
    constructor
    · rintro ⟨hname, hfields, henums, hvalid, hnested⟩
      exact ⟨⟨hname, hfields, hvalid⟩, henums, hnested⟩
    · rintro ⟨⟨hname, hfields, hvalid⟩, henums, hnested⟩
      exact ⟨hname, hfields, henums, hvalid, hnested⟩

theorem admissibleList_iff (scope : String) : ∀ ms : List Message,
    (∀ m ∈ ms, m.Admissible) ↔ ∀ x ∈ describedList scope ms, x.Admissible
  | [] => by
    rw [describedList]
    constructor
    · intro _ x hx
      exact absurd hx List.not_mem_nil
    · intro _ m hm
      exact absurd hm List.not_mem_nil
  | m :: ms => by
    rw [describedList, List.forall_mem_cons, List.forall_mem_append, ← admissible_iff,
      ← admissibleList_iff]

end

end Message

/-- **A file is admissible when the types it describes are.** -/
theorem File.admissible_iff {f : File} : f.Admissible ↔ ∀ x ∈ f.described, x.Admissible := by
  rw [described, List.forall_mem_append, List.forall_mem_map, ← Message.admissibleList_iff]
  constructor
  · intro h
    exact ⟨h.messages, h.enums⟩
  · intro h
    exact ⟨h.1, h.2⟩

theorem admissible_iff {files : List File} :
    (∀ f ∈ files, f.Admissible) ↔ ∀ x ∈ files.flatMap File.described, x.Admissible := by
  simp only [File.admissible_iff, List.mem_flatMap]
  constructor
  · rintro h x ⟨f, hf, hx⟩
    exact h f hf x hx
  · intro h f hf x hx
    exact h x ⟨f, hf, hx⟩

/-! ## The check, type by type -/

/-- What is checked of one described type. -/
def Described.Checked (p : Pool) (x : Described) : Prop :=
  match x.type with
  | .message m => ∃ i, p.find? x.fullName = some (.message i) ∧
      ∀ f ∈ m.fields, f.checkForm (p.message i) = .ok ()
  | .enum _ => True

namespace Message

variable {p : Pool}

mutual

/-- **The check goes through all messages.** -/
theorem checkForms_eq_ok_iff_checked (scope : String) : ∀ m : Message,
    m.checkForms p scope = .ok () ↔ ∀ x ∈ m.described scope, x.Checked p
  | ⟨name?, fields, messages, enums⟩ => by
    have henums : ∀ x ∈ enums.map (⟨Name.qualify scope (name?.getD ""), .enum ·⟩),
        Described.Checked p x := by
      rw [List.forall_mem_map]
      intro _ _
      exact trivial
    have hname : Described.fullName ⟨scope, .message ⟨name?, fields, messages, enums⟩⟩ =
        Name.qualify scope (name?.getD "") := rfl
    rw [checkForms, described, List.forall_mem_cons, List.forall_mem_append,
      ← checkFormsList_eq_ok_iff_checked]
    simp only [Described.Checked, hname]
    constructor
    · intro h
      split at h
      · next i hi =>
        obtain ⟨u, hfields, hnested⟩ := bind_eq_ok.1 h
        exact ⟨⟨i, hi, forM_eq_ok.1 hfields⟩, henums, hnested⟩
      · simp at h
    · rintro ⟨⟨i, hi, hfields⟩, -, hnested⟩
      rw [hi]
      exact bind_eq_ok.2 ⟨(), forM_eq_ok.2 hfields, hnested⟩

theorem checkFormsList_eq_ok_iff_checked (scope : String) : ∀ ms : List Message,
    checkFormsList p scope ms = .ok () ↔ ∀ x ∈ describedList scope ms, x.Checked p
  | [] => by
    rw [checkFormsList, describedList]
    constructor
    · intro _ x hx
      exact absurd hx List.not_mem_nil
    · intro _
      exact rfl
  | m :: ms => by
    rw [checkFormsList, describedList, bind_eq_ok, List.forall_mem_append,
      ← checkForms_eq_ok_iff_checked, ← checkFormsList_eq_ok_iff_checked]
    constructor
    · rintro ⟨_, hm, hms⟩
      exact ⟨hm, hms⟩
    · rintro ⟨hm, hms⟩
      exact ⟨(), hm, hms⟩

end

end Message

/-! ## The check in a linked pool -/

/-- The field's reference means in the scope a type of the form that its type says. -/
def Field.Formed (p : Pool) (scope : String) (f : Field) : Prop :=
  ∀ form, f.form? = some form →
    (Link.kind? p scope f.decl.typeName).bind FieldKind.form? = some form

/-- A field that is linked is checked by what it was linked to. -/
theorem Field.checkForm_eq_ok_iff {p : Pool} {d : MessageDef} {scope : String} {f : Field}
    {g : FieldDef} (hf : f.Admissible) (hn : (d.fields.map FieldDef.number).Nodup)
    (hg : g ∈ d.fields) (hlink : Link.field p scope f.decl = .ok g) :
    f.checkForm d = .ok () ↔ f.Formed p scope := by
  obtain ⟨kind, value, hkind, -, rfl⟩ := Link.field_eq_ok_iff.1 hlink
  have hnumber : f.number = .ok f.decl.number := number_eq_ok_iff.2 ⟨number_of_valid hf.decl, rfl⟩
  have hmet : f.metForm? d = kind.form? := by
    rw [metForm?, hnumber]
    simp only [MessageDef.field?_of_mem hn hg, Option.map_some]
    cases kind <;> rfl
  unfold checkForm Formed
  rw [hmet, hkind, Option.bind_some]
  cases hform : f.form? with
  | none => simp
  | some form => by_cases he : kind.form? = some form <;> simp [he]

/-- Looking the message up leads to what it was linked to. -/
theorem checked_iff {rs : List RecordDecl} {p : Pool} (h : Linked rs p) {scope : String}
    {m : Message} (hfields : ∀ f ∈ m.fields, f.Admissible) (hvalid : m.decl.LocallyValid)
    (ht : ⟨scope, .message m.decl⟩ ∈ rs.flatMap RecordDecl.types) :
    Described.Checked p ⟨scope, .message m⟩ ↔
      ∀ f ∈ m.fields, f.Formed p (Name.qualify scope m.decl.name) := by
  obtain ⟨i, d, hi, hd, hlinks⟩ := h.message_of_types ht
  have hn : (d.fields.map FieldDef.number).Nodup := by
    rw [Link.map_number hlinks]
    exact hvalid.numbers
  rw [Message.fields_decl, List.forall₂_map_left_iff] at hlinks
  have hcheck : ∀ f ∈ m.fields, (f.checkForm (p.message i) = .ok () ↔
      f.Formed p (Name.qualify scope m.decl.name)) := by
    intro f hf
    obtain ⟨g, hg, hlink⟩ := exists_of_forall₂ hlinks hf
    rw [Pool.message_of_getElem? hd]
    exact Field.checkForm_eq_ok_iff (hfields f hf) hn hg hlink
  have hfull : Described.fullName ⟨scope, .message m⟩ = Name.qualify scope m.decl.name :=
    (Described.fullName_decl _).symm
  simp only [Described.Checked, hfull, hi]
  constructor
  · rintro ⟨j, hj, hall⟩ f hf
    obtain rfl : i = j := by simpa using hj
    exact (hcheck f hf).1 (hall f hf)
  · intro hall
    exact ⟨i, rfl, fun f hf => (hcheck f hf).2 (hall f hf)⟩

/-- The fields of a described message are formed. -/
def Described.Formed (p : Pool) (x : Described) : Prop :=
  match x.type with
  | .message m => ∀ f ∈ m.fields, f.Formed p x.fullName
  | .enum _ => True

/-- **The check succeeds when each field is formed.** -/
theorem checkForms_eq_ok_iff {files : List File} {p : Pool}
    (hadm : ∀ x ∈ files.flatMap File.described, x.Admissible)
    (h : Linked (files.map File.decl) p) :
    files.forM (fun f => Message.checkFormsList p (f.package?.getD "") f.messages) = .ok () ↔
      ∀ x ∈ files.flatMap File.described, x.Formed p := by
  have hchecked : ∀ x ∈ files.flatMap File.described, (x.Checked p ↔ x.Formed p) := by
    intro x hx
    have ht : x.decl ∈ (files.map File.decl).flatMap RecordDecl.types := by
      rw [types_decls]
      exact List.mem_map_of_mem hx
    obtain ⟨scope, m | e⟩ := x
    · obtain ⟨-, hfields, hvalid⟩ := hadm _ hx
      rw [checked_iff h hfields hvalid ht, Message.name_decl]
      exact Iff.rfl
    · exact Iff.rfl
  rw [← forall₂_congr hchecked, forM_eq_ok]
  simp only [Message.checkFormsList_eq_ok_iff_checked, List.mem_flatMap, File.described,
    List.mem_append]
  constructor
  · rintro hall x ⟨f, hf, hx | hx⟩
    · exact hall f hf x hx
    · obtain ⟨e, -, rfl⟩ := List.mem_map.1 hx
      exact trivial
  · intro hall f hf x hx
    exact hall x ⟨f, hf, Or.inl hx⟩

end Descriptor

/-- **Descriptors give the pool that they are linked to** when there are some, all are admissible, and
all fields are formed. -/
theorem Pool.ofDescriptors_eq_ok_iff {files : List Descriptor.File} {p : Pool} :
    ofDescriptors files = .ok p ↔ files ≠ [] ∧ (∀ f ∈ files, f.Admissible) ∧
      Linked (files.map Descriptor.File.decl) p ∧
      ∀ x ∈ files.flatMap Descriptor.File.described, x.Formed p := by
  unfold ofDescriptors
  by_cases hne : files = []
  · rw [if_pos hne]
    constructor
    · intro h
      simp at h
    · intro h
      exact absurd hne h.1
  · rw [if_neg hne, Traverse.bind_eq_ok]
    constructor
    · rintro ⟨decls, hdecls, h⟩
      obtain ⟨hadm, rfl⟩ := Descriptor.File.mapM_toDecl_eq_ok_iff.1 hdecls
      cases hl : link (files.map Descriptor.File.decl) with
      | error e => simp [hl] at h
      | ok q =>
        simp only [hl] at h
        obtain ⟨u, hforms, h⟩ := Traverse.bind_eq_ok.1 h
        obtain rfl := Except.ok.inj h
        have hlinked := link_eq_ok_iff.1 hl
        exact ⟨hne, hadm, hlinked, (Descriptor.checkForms_eq_ok_iff
          (Descriptor.admissible_iff.1 hadm) hlinked).1 hforms⟩
    · rintro ⟨-, hadm, hlinked, hformed⟩
      refine ⟨_, Descriptor.File.mapM_toDecl_eq_ok_iff.2 ⟨hadm, rfl⟩, ?_⟩
      rw [link_eq_ok_iff.2 hlinked]
      exact Traverse.bind_eq_ok.2 ⟨(), (Descriptor.checkForms_eq_ok_iff
        (Descriptor.admissible_iff.1 hadm) hlinked).2 hformed, rfl⟩

end ProtoSchema
