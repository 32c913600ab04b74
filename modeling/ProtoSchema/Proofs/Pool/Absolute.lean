import ProtoSchema.Pool.Decls
import ProtoSchema.Proofs.Pool.Linked

/-!
# Absolute declarations

The declarations that a linked pool stands for are those it was linked from, with every reference
replaced by the absolute name of the type it met (`Linked.decls_eq`). They are linked to the same
pool again (`Linked.absolute`), so a linked pool is determined by its own declarations.

The first half inverts the layout: the indices that a message holds lead back to what was nested in
it, because each type stands where it was numbered. The second half says that an absolute reference
means in every scope what the relative one meant in its own.
-/

namespace ProtoSchema

/-! ## Replacing references -/

/-- The field with the absolute name of the type that its reference means in the scope. -/
def FieldDecl.absolute (p : Pool) (scope : String) (f : FieldDecl) : FieldDecl :=
  { f with typeName := ((Link.kind? p scope f.typeName).map p.typeName).getD f.typeName }

namespace MessageDecl

mutual

/-- The message, declared in the scope, with absolute references. -/
def absolute (p : Pool) (scope : String) : MessageDecl → MessageDecl
  | ⟨name, fields, messages, enums⟩ =>
    ⟨name, fields.map (FieldDecl.absolute p (Name.qualify scope name)),
      absoluteList p (Name.qualify scope name) messages, enums⟩

def absoluteList (p : Pool) (scope : String) : List MessageDecl → List MessageDecl
  | [] => []
  | m :: ms => m.absolute p scope :: absoluteList p scope ms

end

end MessageDecl

/-- The record with absolute references. -/
def RecordDecl.absolute (p : Pool) (r : RecordDecl) : RecordDecl :=
  { r with messages := MessageDecl.absoluteList p r.package r.messages }

/-! ## From the pool back to its declarations -/

/-- Looking up the places of a part gives the part. -/
theorem map_range'_of_prefix {α β : Type} {f : Nat → β} {g : α → β} {l : List α}
    (hf : ∀ k a, l[k]? = some a → f k = g a) {xs : List α} : ∀ {n : Nat},
    xs <+: l.drop n → (List.range' n xs.length).map f = xs.map g := by
  induction xs with
  | nil => exact fun _ => rfl
  | cons x xs ih =>
    rintro n ⟨rest, hrest⟩
    have hx : l[n]? = some x := by
      have h0 : (l.drop n)[0]? = some x := by rw [← hrest]; rfl
      rwa [List.getElem?_drop, Nat.add_zero] at h0
    have hxs : xs <+: l.drop (n + 1) := by
      refine ⟨rest, ?_⟩
      rw [← List.tail_drop, ← hrest]
      rfl
    rw [List.length_cons, List.range'_succ, List.map_cons, List.map_cons, hf n x hx, ih hxs]

namespace Linked

variable {rs : List RecordDecl} {p : Pool}

theorem enumDecl_of_getElem? (h : Linked rs p) {k : Nat} {e : PlacedEnum}
    (he : (Layout.enums rs)[k]? = some e) : p.enumDecl k = e.decl := by
  have hk : p.enums[k]? = some e.define := by rw [h.enums, List.getElem?_map, he]; rfl
  rw [Pool.enumDecl, Pool.enum_of_getElem? hk]
  rfl

/-- Enums that stand together in the layout are declared as they were. -/
theorem map_enumDecl (h : Linked rs p) {place : Place} {n : Nat} {enums : List EnumDecl}
    (hp : enums.map (⟨·, place⟩) <+: (Layout.enums rs).drop n) :
    (List.range' n enums.length).map p.enumDecl = enums := by
  have hm := map_range'_of_prefix (fun k a ha => h.enumDecl_of_getElem? ha) hp
  rw [List.length_map, List.map_map] at hm
  rw [hm]
  exact List.map_id _

/-- The declared fields of a linked message are those it was linked from, with absolute types. -/
theorem map_fieldDecl {scope : String} {fs : List FieldDecl} {gs : List FieldDef}
    (h : List.Forall₂ (fun f g => Link.field p scope f = .ok g) fs gs) :
    gs.map p.fieldDecl = fs.map (FieldDecl.absolute p scope) := by
  induction h with
  | nil => rfl
  | cons hg _ ih =>
    obtain ⟨kind, value, hkind, -, rfl⟩ := Link.field_eq_ok_iff.1 hg
    rw [List.map_cons, List.map_cons, ih, FieldDecl.absolute, hkind]
    rfl

/-- The messages of a part of the layout stand in the whole, with their enums. -/
def Holds (rs : List RecordDecl) (ms : List PlacedMessage) : Prop :=
  ∀ m ∈ ms, m ∈ Layout.messages rs ∧ m.enums <+: (Layout.enums rs).drop m.enumIndex

theorem Holds.append_left {as bs : List PlacedMessage} (h : Holds rs (as ++ bs)) : Holds rs as :=
  fun m hm => h m (List.mem_append_left _ hm)

theorem Holds.append_right {as bs : List PlacedMessage} (h : Holds rs (as ++ bs)) : Holds rs bs :=
  fun m hm => h m (List.mem_append_right _ hm)

end Linked

namespace MessageDecl

theorem le_of_mem_indices {ms : List MessageDecl} {j : Nat} : ∀ {i : Nat},
    j ∈ indices i ms → i ≤ j := by
  induction ms with
  | nil => exact fun h => absurd h List.not_mem_nil
  | cons m ms ih =>
    intro i h
    rcases List.mem_cons.1 h with rfl | h
    · exact Nat.le_refl _
    · exact Nat.le_trans (Nat.le_add_right i _) (ih h)

end MessageDecl

namespace Linked

variable {rs : List RecordDecl} {p : Pool}

mutual

/-- **A message of the pool is declared as it was, with absolute references.** -/
theorem messageDecl_eq (h : Linked rs p) (place : Place) (i e : Nat) :
    ∀ m : MessageDecl, Holds rs (m.placed place i e) →
      i < p.messages.length ∧ p.messageDecl i = m.absolute p place.scope
  | ⟨name, fields, messages, enums⟩, hm => by
    rw [MessageDecl.placed] at hm
    obtain ⟨hmem, henums⟩ := hm _ List.mem_cons_self
    obtain ⟨d, hd, hlink⟩ := h.message_at hmem
    obtain ⟨hfields, hdef⟩ := Link.message_eq_ok_iff.1 hlink
    have hlt : i < p.messages.length := (List.getElem?_eq_some_iff.1 hd).1
    have hnested := messageDecl_list h ⟨place.record, some i, Name.qualify place.scope name⟩
      (i + 1) (e + enums.length) messages fun x hx => hm x (List.mem_cons_of_mem _ hx)
    refine ⟨hlt, ?_⟩
    rw [Pool.messageDecl, Pool.message_of_getElem? hd, MessageDecl.absolute, MessageDecl.mk.injEq]
    refine ⟨by rw [hdef]; rfl, map_fieldDecl hfields, ?_, ?_⟩
    · rw [← hnested.2, ← List.filterMap_eq_map]
      have hidx : d.messages = MessageDecl.indices (i + 1) messages := by rw [hdef]; rfl
      rw [hidx]
      refine List.filterMap_congr ?_
      intro j hj
      exact dif_pos ⟨MessageDecl.le_of_mem_indices hj, hnested.1 j hj⟩
    · have hidx : d.enums = List.range' e enums.length := by rw [hdef]; rfl
      rw [hidx]
      exact h.map_enumDecl henums

theorem messageDecl_list (h : Linked rs p) (place : Place) (i e : Nat) :
    ∀ ms : List MessageDecl, Holds rs (MessageDecl.placedList place i e ms) →
      (∀ j ∈ MessageDecl.indices i ms, j < p.messages.length) ∧
        (MessageDecl.indices i ms).map p.messageDecl = MessageDecl.absoluteList p place.scope ms
  | [], _ => ⟨fun _ hj => absurd hj List.not_mem_nil, rfl⟩
  | m :: ms, hm => by
    rw [MessageDecl.placedList] at hm
    obtain ⟨hlt, hhead⟩ := messageDecl_eq h place i e m hm.append_left
    obtain ⟨hlts, htail⟩ := messageDecl_list h place _ _ ms hm.append_right
    rw [MessageDecl.indices, MessageDecl.absoluteList, List.map_cons, hhead, htail]
    refine ⟨?_, rfl⟩
    intro j hj
    rcases List.mem_cons.1 hj with rfl | hj
    · exact hlt
    · exact hlts j hj

end

theorem holds_messages {r : PlacedRecord} (hr : r ∈ RecordDecl.placed 0 0 0 rs) :
    Holds rs r.messages :=
  fun _ hm => ⟨List.mem_flatMap.2 ⟨r, hr, hm⟩, Layout.enums_prefix hr hm⟩

theorem recordDecl_define (h : Linked rs p) {r : PlacedRecord}
    (hr : r ∈ RecordDecl.placed 0 0 0 rs) : p.recordDecl r.define = r.decl.absolute p := by
  rw [Pool.recordDecl, RecordDecl.absolute, RecordDecl.mk.injEq]
  refine ⟨rfl, rfl, rfl, ?_, ?_⟩
  · exact (messageDecl_list h r.place _ _ _ (holds_messages hr)).2
  · exact h.map_enumDecl (Layout.topEnums_prefix hr)

theorem map_decl_placed (rs : List RecordDecl) : ∀ index i e : Nat,
    (RecordDecl.placed index i e rs).map PlacedRecord.decl = rs := by
  induction rs with
  | nil => exact fun _ _ _ => rfl
  | cons r rs ih => exact fun _ _ _ => by rw [RecordDecl.placed, List.map_cons, ih]

/-- **A linked pool is declared as it was, with absolute references.** -/
theorem decls_eq (h : Linked rs p) : p.decls = rs.map (RecordDecl.absolute p) := by
  rw [Pool.decls, h.records, List.map_map]
  conv_rhs => rw [← map_decl_placed rs 0 0 0, List.map_map]
  exact List.map_congr_left fun r hr => h.recordDecl_define hr

end Linked

/-! ## Absolute declarations stand in the same places -/

namespace MessageDecl

variable {p : Pool}

@[simp] theorem name_absolute (scope : String) (m : MessageDecl) :
    (m.absolute p scope).name = m.name := by
  cases m
  rw [absolute]

@[simp] theorem enums_absolute (scope : String) (m : MessageDecl) :
    (m.absolute p scope).enums = m.enums := by
  cases m
  rw [absolute]

@[simp] theorem messages_absolute (scope : String) (m : MessageDecl) :
    (m.absolute p scope).messages = absoluteList p (Name.qualify scope m.name) m.messages := by
  cases m
  rw [absolute]

@[simp] theorem fields_absolute (scope : String) (m : MessageDecl) :
    (m.absolute p scope).fields =
      m.fields.map (FieldDecl.absolute p (Name.qualify scope m.name)) := by
  cases m
  rw [absolute]

mutual

@[simp] theorem messageCount_absolute (scope : String) :
    ∀ m : MessageDecl, (m.absolute p scope).messageCount = m.messageCount
  | ⟨_, _, messages, _⟩ => by
    rw [absolute, messageCount, messageCount, messageCounts_absolute]

@[simp] theorem messageCounts_absolute (scope : String) :
    ∀ ms : List MessageDecl, messageCounts (absoluteList p scope ms) = messageCounts ms
  | [] => by rw [absoluteList]
  | m :: ms => by
    rw [absoluteList, messageCounts, messageCounts, messageCount_absolute, messageCounts_absolute]

end

mutual

@[simp] theorem enumCount_absolute (scope : String) :
    ∀ m : MessageDecl, (m.absolute p scope).enumCount = m.enumCount
  | ⟨_, _, messages, _⟩ => by rw [absolute, enumCount, enumCount, enumCounts_absolute]

@[simp] theorem enumCounts_absolute (scope : String) :
    ∀ ms : List MessageDecl, enumCounts (absoluteList p scope ms) = enumCounts ms
  | [] => by rw [absoluteList]
  | m :: ms => by
    rw [absoluteList, enumCounts, enumCounts, enumCount_absolute, enumCounts_absolute]

end

@[simp] theorem indices_absoluteList (scope : String) : ∀ (ms : List MessageDecl) (i : Nat),
    indices i (absoluteList p scope ms) = indices i ms
  | [], _ => by rw [absoluteList]
  | m :: ms, i => by
    rw [absoluteList, indices, indices, messageCount_absolute, indices_absoluteList scope ms]

end MessageDecl

/-- The type with absolute references. -/
def ScopedType.absolute (p : Pool) : ScopedType → ScopedType
  | ⟨scope, .message m⟩ => ⟨scope, .message (m.absolute p scope)⟩
  | ⟨scope, .enum e⟩ => ⟨scope, .enum e⟩

@[simp] theorem ScopedType.name_absolute (p : Pool) (t : ScopedType) :
    (t.absolute p).decl.name = t.decl.name := by
  obtain ⟨scope, m | e⟩ := t
  · exact MessageDecl.name_absolute scope m
  · rfl

@[simp] theorem ScopedType.fullName_absolute (p : Pool) (t : ScopedType) :
    (t.absolute p).fullName = t.fullName := by
  obtain ⟨scope, m | e⟩ := t
  · exact congrArg (Name.qualify scope) (MessageDecl.name_absolute scope m)
  · rfl

@[simp] theorem ScopedType.lacksValues_absolute (p : Pool) (t : ScopedType) :
    (t.absolute p).decl.lacksValues = t.decl.lacksValues := by
  obtain ⟨scope, m | e⟩ := t <;> rfl

/-- The message at its place with absolute references. -/
def PlacedMessage.absolute (p : Pool) (m : PlacedMessage) : PlacedMessage :=
  { m with decl := m.decl.absolute p m.place.scope }

/-- The record at its place with absolute references. -/
def PlacedRecord.absolute (p : Pool) (r : PlacedRecord) : PlacedRecord :=
  { r with decl := r.decl.absolute p }

namespace PlacedMessage

variable {p : Pool}

@[simp] theorem fullName_absolute (m : PlacedMessage) : (m.absolute p).fullName = m.fullName :=
  congrArg (Name.qualify m.place.scope) (MessageDecl.name_absolute _ _)

@[simp] theorem enums_absolute (m : PlacedMessage) : (m.absolute p).enums = m.enums := by
  have hi : (m.absolute p).inner = m.inner := by
    rw [inner, inner, fullName_absolute]
    rfl
  rw [enums, enums, hi, absolute, MessageDecl.enums_absolute]

@[simp] theorem define_absolute (m : PlacedMessage) : (m.absolute p).define = m.define := by
  rw [define, define, fullName_absolute, absolute, MessageDecl.name_absolute,
    MessageDecl.enums_absolute, MessageDecl.messages_absolute, MessageDecl.indices_absoluteList]

end PlacedMessage

namespace MessageDecl

variable {p : Pool}

mutual

theorem types_absolute (scope : String) : ∀ m : MessageDecl,
    (m.absolute p scope).types scope = (m.types scope).map (ScopedType.absolute p)
  | ⟨name, fields, messages, enums⟩ => by
    have hs : ScopedType.absolute p ⟨scope, .message ⟨name, fields, messages, enums⟩⟩ =
        ⟨scope, .message ((⟨name, fields, messages, enums⟩ : MessageDecl).absolute p scope)⟩ := rfl
    rw [types, List.map_cons, List.map_append, hs, absolute, types, typesList_absolute, List.map_map]
    rfl

theorem typesList_absolute (scope : String) : ∀ ms : List MessageDecl,
    typesList scope (absoluteList p scope ms) = (typesList scope ms).map (ScopedType.absolute p)
  | [] => by rw [absoluteList, typesList, List.map_nil]
  | m :: ms => by
    rw [absoluteList, typesList, typesList, List.map_append, types_absolute, typesList_absolute]

end

mutual

theorem placed_absolute (place : Place) (i e : Nat) : ∀ m : MessageDecl,
    (m.absolute p place.scope).placed place i e =
      (m.placed place i e).map (PlacedMessage.absolute p)
  | ⟨name, fields, messages, enums⟩ => by
    have hn := placedList_absolute ⟨place.record, some i, Name.qualify place.scope name⟩ (i + 1)
      (e + enums.length) messages
    have hm : PlacedMessage.absolute p ⟨⟨name, fields, messages, enums⟩, place, i, e⟩ =
        ⟨(⟨name, fields, messages, enums⟩ : MessageDecl).absolute p place.scope, place, i, e⟩ := rfl
    rw [placed, List.map_cons, ← hn, hm, absolute, placed]

theorem placedList_absolute (place : Place) (i e : Nat) : ∀ ms : List MessageDecl,
    placedList place i e (absoluteList p place.scope ms) =
      (placedList place i e ms).map (PlacedMessage.absolute p)
  | [] => by rw [absoluteList, placedList, List.map_nil]
  | m :: ms => by
    rw [absoluteList, placedList, placedList, List.map_append, placed_absolute, messageCount_absolute,
      enumCount_absolute, placedList_absolute]

end

end MessageDecl

namespace PlacedRecord

variable {p : Pool}

theorem messages_absolute (r : PlacedRecord) :
    (r.absolute p).messages = r.messages.map (PlacedMessage.absolute p) :=
  MessageDecl.placedList_absolute r.place r.messageIndex r.enumIndex r.decl.messages

theorem enums_absolute (r : PlacedRecord) : (r.absolute p).enums = r.enums := by
  have ht : (r.absolute p).topEnums = r.topEnums := rfl
  have hm : (r.messages.map (PlacedMessage.absolute p)).flatMap PlacedMessage.enums =
      r.messages.flatMap PlacedMessage.enums := by
    rw [List.flatMap_map]
    simp only [PlacedMessage.enums_absolute]
  rw [enums, enums, messages_absolute, ht, hm]

theorem define_absolute (r : PlacedRecord) : (r.absolute p).define = r.define := by
  rw [define, define, absolute, RecordDecl.absolute]
  simp only [MessageDecl.indices_absoluteList, MessageDecl.enumCounts_absolute]

end PlacedRecord

namespace RecordDecl

variable {p : Pool}

theorem types_absolute (r : RecordDecl) :
    (r.absolute p).types = r.types.map (ScopedType.absolute p) := by
  rw [types, types, List.map_append, absolute, List.map_map]
  simp only
  rw [MessageDecl.typesList_absolute]
  rfl

theorem placed_absolute (rs : List RecordDecl) : ∀ index i e : Nat,
    placed index i e (rs.map (RecordDecl.absolute p)) =
      (placed index i e rs).map (PlacedRecord.absolute p) := by
  induction rs with
  | nil => exact fun _ _ _ => rfl
  | cons r rs ih =>
    intro index i e
    have hm : MessageDecl.messageCounts (r.absolute p).messages =
        MessageDecl.messageCounts r.messages := MessageDecl.messageCounts_absolute _ _
    have he : MessageDecl.enumCounts (r.absolute p).messages =
        MessageDecl.enumCounts r.messages := MessageDecl.enumCounts_absolute _ _
    rw [List.map_cons, placed, placed, List.map_cons, ih, hm, he]
    rfl

end RecordDecl

/-! ## Absolute declarations mean the same -/

namespace Link

variable {p : Pool}

/-- **The absolute name of a type that was met means that type in every scope.** -/
theorem kind?_typeName {scope scope' typeName : String} {kind : FieldKind}
    (h : kind? p scope typeName = some kind) : kind? p scope' (p.typeName kind) = some kind := by
  rcases exists_find?_of_kind? h with ⟨t, rfl⟩ | ⟨name, ref, hname, rfl⟩
  · rw [kind?, Pool.typeName, ScalarType.ofKeyword?_keyword]
  · cases ref with
    | message i =>
      rw [kindOf, Pool.typeName, (Pool.fullName_of_find?_message hname).2, kind?_dot, hname]
      rfl
    | enum i =>
      rw [kindOf, Pool.typeName, (Pool.fullName_of_find?_enum hname).2, kind?_dot, hname]
      rfl

theorem field_absolute {scope : String} {f : FieldDecl} {g : FieldDef}
    (h : field p scope f = .ok g) : field p scope (f.absolute p scope) = .ok g := by
  obtain ⟨kind, value, hkind, hvalue, rfl⟩ := field_eq_ok_iff.1 h
  refine field_eq_ok_iff.2 ⟨kind, value, ?_, hvalue, rfl⟩
  rw [FieldDecl.absolute, hkind]
  exact kind?_typeName hkind

theorem message_absolute {m : PlacedMessage} {d : MessageDef} (h : message p m = .ok d) :
    message p (m.absolute p) = .ok d := by
  obtain ⟨hfields, hdef⟩ := message_eq_ok_iff.1 h
  refine message_eq_ok_iff.2 ⟨?_, ?_⟩
  · rw [PlacedMessage.fullName_absolute, PlacedMessage.absolute, MessageDecl.fields_absolute,
      List.forall₂_map_left_iff]
    exact hfields.imp fun _ _ => field_absolute
  · rw [PlacedMessage.define_absolute]
    exact hdef

end Link

/-- **The absolute declarations of a linked pool are linked to it as well.** -/
theorem Linked.absolute {rs : List RecordDecl} {p : Pool} (h : Linked rs p) :
    Linked (rs.map (RecordDecl.absolute p)) p := by
  have htypes : (rs.map (RecordDecl.absolute p)).flatMap RecordDecl.types =
      (rs.flatMap RecordDecl.types).map (ScopedType.absolute p) := by
    rw [List.flatMap_map, List.map_flatMap]
    simp only [RecordDecl.types_absolute]
  refine ⟨?_, ?_, ?_, ?_, ?_, ?_⟩
  · rw [htypes, List.forall_mem_map]
    simpa only [ScopedType.name_absolute] using h.plain
  · rw [htypes, List.forall_mem_map]
    simpa only [ScopedType.lacksValues_absolute] using h.values
  · rw [htypes, List.map_map]
    have hn : ScopedType.fullName ∘ ScopedType.absolute p = ScopedType.fullName :=
      funext (ScopedType.fullName_absolute p)
    rw [hn]
    exact h.distinct
  · rw [RecordDecl.placed_absolute, List.map_map, h.records]
    exact List.map_congr_left fun r _ => (r.define_absolute).symm
  · rw [Layout.messages, RecordDecl.placed_absolute, List.flatMap_map]
    simp only [PlacedRecord.messages_absolute]
    rw [← List.map_flatMap, List.forall₂_map_left_iff]
    exact h.messages.imp fun _ _ => Link.message_absolute
  · rw [Layout.enums, RecordDecl.placed_absolute, List.flatMap_map]
    simp only [PlacedRecord.enums_absolute]
    exact h.enums

end ProtoSchema
