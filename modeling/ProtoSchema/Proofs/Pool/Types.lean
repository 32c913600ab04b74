import Mathlib.Data.List.Perm.Basic
import ProtoSchema.Pool.Link
import ProtoSchema.Proofs.Pool.Numbering
import ProtoSchema.Proofs.Valid

/-!
# Declared types

The types that records declare, each with the scope that its name is qualified with, and without any
index: `RecordDecl.types`. This is the order in which names are entered (`map_inScope_declared`).

The layout keeps messages and enums apart, and holds each declared type once (`declared_perm`).
-/

namespace ProtoSchema

/-- The declaration of a named type. -/
inductive TypeDecl
  | message (m : MessageDecl)
  | enum (e : EnumDecl)
deriving Repr

namespace TypeDecl

def name : TypeDecl → String
  | message m => m.name
  | enum e => e.name

def form : TypeDecl → TypeForm
  | message _ => .message
  | enum _ => .enum

/-- Whether it is an enum without values. -/
def lacksValues : TypeDecl → Bool
  | message _ => false
  | enum e => e.values.isEmpty

end TypeDecl

/-- A declared type and the scope that its name is qualified with. -/
structure ScopedType where
  scope : String
  decl : TypeDecl
deriving Repr

/-- The full name of a declared type. -/
def ScopedType.fullName (t : ScopedType) : String := Name.qualify t.scope t.decl.name

namespace MessageDecl

mutual

/-- The types that a message in the scope declares: itself, its enums, and those of its nested
messages. -/
def types (scope : String) : MessageDecl → List ScopedType
  | ⟨name, fields, messages, enums⟩ =>
    ⟨scope, .message ⟨name, fields, messages, enums⟩⟩ ::
      (enums.map (⟨Name.qualify scope name, .enum ·⟩) ++
        typesList (Name.qualify scope name) messages)

def typesList (scope : String) : List MessageDecl → List ScopedType
  | [] => []
  | m :: ms => m.types scope ++ typesList scope ms

end

end MessageDecl

/-- The types that a record declares. -/
def RecordDecl.types (r : RecordDecl) : List ScopedType :=
  MessageDecl.typesList r.package r.messages ++ r.enums.map (⟨r.package, .enum ·⟩)

/-! ## Nested types -/

namespace MessageDecl

mutual

theorem types_sublist {n : MessageDecl} {scope' : String} (scope : String) : ∀ m : MessageDecl,
    ⟨scope', .message n⟩ ∈ m.types scope → (n.types scope').Sublist (m.types scope)
  | ⟨name, fields, messages, enums⟩, hmem => by
    rw [types, List.mem_cons, List.mem_append] at hmem
    rcases hmem with heq | hmem | hmem
    · obtain ⟨rfl, rfl⟩ : scope' = scope ∧ n = ⟨name, fields, messages, enums⟩ := by simpa using heq
      exact List.Sublist.refl _
    · simp at hmem
    · rw [types]
      exact ((types_sublist_list _ messages hmem).trans (List.sublist_append_right _ _)).cons _

theorem types_sublist_list {n : MessageDecl} {scope' : String} (scope : String) :
    ∀ ms : List MessageDecl, ⟨scope', .message n⟩ ∈ typesList scope ms →
      (n.types scope').Sublist (typesList scope ms)
  | [], hmem => absurd hmem List.not_mem_nil
  | m :: ms, hmem => by
    rw [typesList, List.mem_append] at hmem
    rw [typesList]
    rcases hmem with hmem | hmem
    · exact (types_sublist scope m hmem).trans (List.sublist_append_left _ _)
    · exact (types_sublist_list scope ms hmem).trans (List.sublist_append_right _ _)

end

theorem enum_mem_types {scope : String} {m : MessageDecl} {e : EnumDecl} (h : e ∈ m.enums) :
    ⟨Name.qualify scope m.name, .enum e⟩ ∈ m.types scope := by
  obtain ⟨name, fields, messages, enums⟩ := m
  rw [types, List.mem_cons, List.mem_append, List.mem_map]
  exact Or.inr (Or.inl ⟨e, h, rfl⟩)

theorem message_mem_typesList {scope : String} {m : MessageDecl} {ms : List MessageDecl} (h : m ∈ ms) :
    ⟨scope, .message m⟩ ∈ typesList scope ms := by
  induction ms with
  | nil => exact absurd h List.not_mem_nil
  | cons n ms ih =>
    obtain ⟨name, fields, messages, enums⟩ := n
    rw [typesList, types]
    rcases List.mem_cons.1 h with rfl | h
    · exact List.mem_append_left _ List.mem_cons_self
    · exact List.mem_append_right _ (ih h)

theorem message_mem_types {scope : String} {m n : MessageDecl} (h : n ∈ m.messages) :
    ⟨Name.qualify scope m.name, .message n⟩ ∈ m.types scope := by
  obtain ⟨name, fields, messages, enums⟩ := m
  rw [types, List.mem_cons, List.mem_append]
  exact Or.inr (Or.inr (message_mem_typesList h))

theorem map_qualify_sublist (scope : String) (ms : List MessageDecl) :
    (ms.map fun m => Name.qualify scope m.name).Sublist
      ((typesList scope ms).map ScopedType.fullName) := by
  induction ms with
  | nil => exact List.Sublist.refl _
  | cons m ms ih =>
    obtain ⟨name, fields, messages, enums⟩ := m
    rw [typesList, types, List.map_append, List.map_cons, List.map_cons, List.cons_append]
    exact (ih.trans (List.sublist_append_right _ _)).cons_cons _

/-- **Types nested in one message have names of their own when all full names are different.** -/
theorem nodup_typeNames {scope : String} {m : MessageDecl}
    (h : ((m.types scope).map ScopedType.fullName).Nodup) : m.typeNames.Nodup := by
  obtain ⟨name, fields, messages, enums⟩ := m
  rw [types, List.map_cons, List.nodup_cons, List.map_append, List.map_map] at h
  have hnames := h.2.sublist ((map_qualify_sublist (Name.qualify scope name) messages).append_left _)
  have hall : ((enums.map EnumDecl.name ++ messages.map MessageDecl.name).map
      (Name.qualify (Name.qualify scope name))).Nodup := by
    rw [List.map_append, List.map_map, List.map_map]
    exact hnames
  rw [typeNames, List.nodup_append_comm]
  exact hall.of_map _

end MessageDecl

/-- **What is nested in a declared message is declared with it.** -/
theorem RecordDecl.types_sublist {rs : List RecordDecl} {scope : String} {m : MessageDecl}
    (h : ⟨scope, .message m⟩ ∈ rs.flatMap types) : (m.types scope).Sublist (rs.flatMap types) := by
  obtain ⟨r, hr, hm⟩ := List.mem_flatMap.1 h
  have hr' : r.types.Sublist (rs.flatMap types) := by
    rw [List.flatMap_def]
    exact List.sublist_flatten_of_mem (List.mem_map_of_mem hr)
  refine List.Sublist.trans ?_ hr'
  rw [types, List.mem_append] at hm
  rcases hm with hm | hm
  · exact (MessageDecl.types_sublist_list _ _ hm).trans (List.sublist_append_left _ _)
  · simp at hm

/-! ## Declared types and the layout -/

namespace PlacedMessage

def inScope (m : PlacedMessage) : ScopedType := ⟨m.place.scope, .message m.decl⟩

/-- The message and the enums nested in it, in the order of declaration. -/
def declared (m : PlacedMessage) : List Declared := .message m :: m.enums.map .enum

end PlacedMessage

def PlacedEnum.inScope (e : PlacedEnum) : ScopedType := ⟨e.place.scope, .enum e.decl⟩

namespace Declared

def inScope : Declared → ScopedType
  | message m => m.inScope
  | enum e => e.inScope

theorem fullName_inScope (d : Declared) : d.inScope.fullName = d.fullName := by cases d <;> rfl

theorem name_inScope (d : Declared) : d.inScope.decl.name = d.name := by cases d <;> rfl

theorem lacksValues_inScope (d : Declared) : d.inScope.decl.lacksValues = d.lacksValues := by
  cases d <;> rfl

theorem form_inScope (d : Declared) : d.inScope.decl.form = d.form := by cases d <;> rfl

theorem scope_inScope (d : Declared) : d.inScope.scope = d.place.scope := by cases d <;> rfl

end Declared

namespace MessageDecl

mutual

theorem map_inScope_placed (place : Place) (i e : Nat) : ∀ m : MessageDecl,
    ((m.placed place i e).flatMap PlacedMessage.declared).map Declared.inScope =
      m.types place.scope
  | ⟨name, fields, messages, enums⟩ => by
    rw [placed, types, List.flatMap_cons, List.map_append, map_inScope_placedList]
    simp only [PlacedMessage.declared, PlacedMessage.enums, List.map_cons, List.map_map,
      List.cons_append]
    rfl

theorem map_inScope_placedList (place : Place) (i e : Nat) : ∀ ms : List MessageDecl,
    ((placedList place i e ms).flatMap PlacedMessage.declared).map Declared.inScope =
      typesList place.scope ms
  | [] => rfl
  | m :: ms => by
    rw [placedList, typesList, List.flatMap_append, List.map_append, map_inScope_placed,
      map_inScope_placedList]

end

end MessageDecl

theorem PlacedRecord.map_inScope_declared (r : PlacedRecord) :
    r.declared.map Declared.inScope = r.decl.types := by
  rw [declared, RecordDecl.types, List.map_append, List.map_map]
  congr 1
  · exact MessageDecl.map_inScope_placedList r.place _ _ _
  · rw [topEnums, List.map_map]
    rfl

namespace Layout

/-- All declared types of the records, as they are laid out. -/
abbrev declared (rs : List RecordDecl) : List Declared :=
  (RecordDecl.placed 0 0 0 rs).flatMap PlacedRecord.declared

/-- **Names are entered in the order of declaration.** -/
theorem map_inScope_declared (rs : List RecordDecl) :
    (declared rs).map Declared.inScope = rs.flatMap RecordDecl.types := by
  suffices h : ∀ index i e, ((RecordDecl.placed index i e rs).flatMap PlacedRecord.declared).map
      Declared.inScope = rs.flatMap RecordDecl.types from h 0 0 0
  induction rs with
  | nil => exact fun _ _ _ => rfl
  | cons r rs ih =>
    intro index i e
    rw [RecordDecl.placed, List.flatMap_cons, List.flatMap_cons, List.map_append, ih,
      PlacedRecord.map_inScope_declared]

end Layout

theorem PlacedRecord.declared_perm (r : PlacedRecord) :
    r.declared.Perm (r.messages.map .message ++ r.enums.map .enum) := by
  have h : (r.messages.flatMap PlacedMessage.declared).Perm
      (r.messages.map Declared.message ++ (r.messages.flatMap PlacedMessage.enums).map .enum) := by
    rw [List.map_eq_flatMap, List.map_flatMap]
    exact (List.flatMap_append_perm r.messages (fun m => [Declared.message m])
      fun m => m.enums.map Declared.enum).symm
  rw [enums, List.map_append, ← List.append_assoc]
  exact h.append_right _

namespace Layout

variable {rs : List RecordDecl} {t : ScopedType}

/-- **Each declared type stands once in the layout.** -/
theorem declared_perm (rs : List RecordDecl) :
    (declared rs).Perm ((messages rs).map .message ++ (enums rs).map .enum) := by
  rw [List.map_flatMap, List.map_flatMap]
  refine List.Perm.trans ?_ (List.flatMap_append_perm _ _ _).symm
  exact List.Perm.flatMap_left _ fun r _ => r.declared_perm

theorem mem_declared_message {m : PlacedMessage} :
    .message m ∈ declared rs ↔ m ∈ messages rs := by
  rw [(declared_perm rs).mem_iff]
  simp

theorem mem_declared_enum {e : PlacedEnum} : .enum e ∈ declared rs ↔ e ∈ enums rs := by
  rw [(declared_perm rs).mem_iff]
  simp

/-- The full names of all types in the layout: those of the messages, then those of the enums. -/
abbrev names (rs : List RecordDecl) : List String :=
  (messages rs).map PlacedMessage.fullName ++ (enums rs).map PlacedEnum.fullName

theorem names_perm (rs : List RecordDecl) :
    ((rs.flatMap RecordDecl.types).map ScopedType.fullName).Perm (names rs) := by
  rw [← map_inScope_declared, List.map_map]
  refine ((declared_perm rs).map _).trans ?_
  rw [List.map_append, List.map_map, List.map_map]
  exact List.Perm.refl _

theorem mem_types_iff : t ∈ rs.flatMap RecordDecl.types ↔
    (∃ m ∈ messages rs, m.inScope = t) ∨ ∃ e ∈ enums rs, e.inScope = t := by
  rw [← map_inScope_declared, List.mem_map]
  constructor
  · rintro ⟨d, hd, rfl⟩
    cases d with
    | message m => exact Or.inl ⟨m, mem_declared_message.1 hd, rfl⟩
    | enum e => exact Or.inr ⟨e, mem_declared_enum.1 hd, rfl⟩
  · rintro (⟨m, hm, rfl⟩ | ⟨e, he, rfl⟩)
    · exact ⟨.message m, mem_declared_message.2 hm, rfl⟩
    · exact ⟨.enum e, mem_declared_enum.2 he, rfl⟩

theorem inScope_mem_types {m : PlacedMessage} (hm : m ∈ messages rs) :
    m.inScope ∈ rs.flatMap RecordDecl.types := mem_types_iff.2 (Or.inl ⟨m, hm, rfl⟩)

end Layout

end ProtoSchema
