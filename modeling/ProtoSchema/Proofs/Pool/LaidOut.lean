import ProtoSchema.Proofs.Pool.Find
import ProtoSchema.Proofs.Pool.Types

/-!
# Names of laid out types

`LaidOut records pool` says that the types of the records stand in the pool at their places, whatever
fields its messages have, and that no two of them have the same full name. A name then finds exactly
the type that is declared under it, so looking a name up in the pool is a question about the
declarations alone (`find?_isSome_iff`, `message_of_types`, `types_of_find?_message` and their like
for enums).
-/

namespace ProtoSchema

/-- The types of the records stand in the pool, each under a full name of its own. -/
structure LaidOut (rs : List RecordDecl) (p : Pool) : Prop where
  distinct : ((rs.flatMap RecordDecl.types).map ScopedType.fullName).Nodup
  messages : p.messages.map MessageDef.fullName = (Layout.messages rs).map PlacedMessage.fullName
  enums : p.enums = (Layout.enums rs).map PlacedEnum.define

namespace LaidOut

variable {rs : List RecordDecl} {p : Pool} {name scope : String}

/-- The pool without fields is laid out. -/
theorem layout (hd : ((rs.flatMap RecordDecl.types).map ScopedType.fullName).Nodup) :
    LaidOut rs (Pool.layout (RecordDecl.placed 0 0 0 rs)) where
  distinct := hd
  messages := by
    show ((Layout.messages rs).map PlacedMessage.define).map MessageDef.fullName = _
    rw [List.map_map]
    rfl
  enums := rfl

theorem names_eq (h : LaidOut rs p) : p.names = Layout.names rs := by
  rw [Pool.names, h.messages, h.enums, List.map_map]
  rfl

/-- **No full name of a laid out pool occurs twice.** -/
theorem names_nodup (h : LaidOut rs p) : p.names.Nodup := by
  rw [h.names_eq, ← (Layout.names_perm rs).nodup_iff]
  exact h.distinct

/-- **A name finds something when a type is declared under it.** -/
theorem find?_isSome_iff (h : LaidOut rs p) :
    (p.find? name).isSome = true ↔ ∃ t ∈ rs.flatMap RecordDecl.types, t.fullName = name := by
  rw [Option.isSome_iff_ne_none, Ne, Pool.find?_eq_none_iff, not_not, h.names_eq,
    ← (Layout.names_perm rs).mem_iff, List.mem_map]

/-! ### Messages -/

/-- **A declared message is found under its full name.** -/
theorem find?_message (h : LaidOut rs p) {m : PlacedMessage} (hm : m ∈ Layout.messages rs) :
    p.find? m.fullName = some (.message m.index) := by
  rw [Pool.find?_eq_message_iff h.names_nodup, ← List.getElem?_map, h.messages, List.getElem?_map,
    Layout.getElem?_index hm]
  rfl

theorem message_of_types (h : LaidOut rs p) {m : MessageDecl}
    (ht : ⟨scope, .message m⟩ ∈ rs.flatMap RecordDecl.types) :
    ∃ i, p.find? (Name.qualify scope m.name) = some (.message i) := by
  rcases Layout.mem_types_iff.1 ht with ⟨x, hx, heq⟩ | ⟨e, -, heq⟩
  · obtain ⟨rfl, rfl⟩ : x.place.scope = scope ∧ x.decl = m := by
      simpa [PlacedMessage.inScope] using heq
    exact ⟨x.index, h.find?_message hx⟩
  · simp [PlacedEnum.inScope] at heq

/-- **A name that finds a message is the full name of a declared message.** -/
theorem types_of_find?_message (h : LaidOut rs p) {i : Nat} (hf : p.find? name = some (.message i)) :
    ∃ scope m, ⟨scope, .message m⟩ ∈ rs.flatMap RecordDecl.types ∧
      Name.qualify scope m.name = name := by
  rw [Pool.find?_eq_message_iff h.names_nodup, ← List.getElem?_map, h.messages, List.getElem?_map] at hf
  obtain ⟨x, hx, hname⟩ := Option.map_eq_some_iff.1 hf
  exact ⟨x.place.scope, x.decl, Layout.inScope_mem_types (List.mem_of_getElem? hx), hname⟩

/-! ### Enums -/

/-- **A declared enum is found under its full name.** -/
theorem find?_enum (h : LaidOut rs p) {k : Nat} {e : PlacedEnum}
    (he : (Layout.enums rs)[k]? = some e) : p.find? e.fullName = some (.enum k) := by
  rw [Pool.find?_eq_enum_iff h.names_nodup, h.enums, List.getElem?_map, he]
  rfl

theorem enum_of_getElem? (h : LaidOut rs p) {k : Nat} {e : PlacedEnum}
    (he : (Layout.enums rs)[k]? = some e) : p.enum k = e.define := by
  refine Pool.enum_of_getElem? ?_
  rw [h.enums, List.getElem?_map, he]
  rfl

theorem enum_of_types (h : LaidOut rs p) {e : EnumDecl}
    (ht : ⟨scope, .enum e⟩ ∈ rs.flatMap RecordDecl.types) :
    ∃ k, p.find? (Name.qualify scope e.name) = some (.enum k) ∧ (p.enum k).values = e.values := by
  rcases Layout.mem_types_iff.1 ht with ⟨m, -, heq⟩ | ⟨x, hx, heq⟩
  · simp [PlacedMessage.inScope] at heq
  · obtain ⟨rfl, rfl⟩ : x.place.scope = scope ∧ x.decl = e := by
      simpa [PlacedEnum.inScope] using heq
    obtain ⟨k, hk⟩ := List.mem_iff_getElem?.1 hx
    exact ⟨k, h.find?_enum hk, by
      rw [h.enum_of_getElem? hk]
      rfl⟩

/-- **A name that finds an enum is the full name of a declared enum,** which has the same values. -/
theorem types_of_find?_enum (h : LaidOut rs p) {k : Nat} (hf : p.find? name = some (.enum k)) :
    ∃ scope e, ⟨scope, .enum e⟩ ∈ rs.flatMap RecordDecl.types ∧ Name.qualify scope e.name = name ∧
      (p.enum k).values = e.values := by
  rw [Pool.find?_eq_enum_iff h.names_nodup, h.enums, List.getElem?_map, Option.map_map] at hf
  obtain ⟨x, hx, hname⟩ := Option.map_eq_some_iff.1 hf
  refine ⟨x.place.scope, x.decl, ?_, hname, ?_⟩
  · exact Layout.mem_types_iff.2 (Or.inr ⟨x, List.mem_of_getElem? hx, rfl⟩)
  · rw [h.enum_of_getElem? hx]
    rfl

end LaidOut

end ProtoSchema
