import ProtoSchema.Proofs.Pool.Outline
import ProtoSchema.Proofs.Pool.Walk

/-!
# How types stand in a pool

`Pool.Arranged` says of a pool what its readers rely on: names find the types that have them, full
names are made of the names around them, each type is listed once and by whom it says, and the walk
comes by the types in the order of their indices. Linked pools are arranged (`Linked.arranged`).

That each type is listed once comes from the walk, which meets a type as often as it is listed. By
whom it is listed comes from the layout: what is placed beside each other has the same place.
-/

namespace ProtoSchema

namespace Pool

/-- The full name of the type that the reference means. -/
def fullName? (p : Pool) : TypeRef → Option String
  | .message i => p.messages[i]?.map MessageDef.fullName
  | .enum i => p.enums[i]?.map EnumDef.fullName

/-- The scope of what the record declares in the message, or at its top level: the full name of the
message, or the package. -/
def scope (p : Pool) (record : Nat) (parent? : Option Nat) : String :=
  match parent? with
  | some i => (p.message i).fullName
  | none => (p.record record).package

end Pool

/-- How types stand in a pool. -/
structure Pool.Arranged (p : Pool) : Prop where
  /-- A name finds exactly the type that has it as its full name. -/
  find : ∀ name ref, p.find? name = some ref ↔ p.fullName? ref = some name
  names : p.names.Nodup
  /-- A full name is that of the parent, or the package, a dot and the name. -/
  messageName : ∀ m ∈ p.messages, m.fullName = Name.qualify (p.scope m.record m.parent?) m.name
  enumName : ∀ e ∈ p.enums, e.fullName = Name.qualify (p.scope e.record e.parent?) e.name
  /-- Every message is listed once, by a record or by a message. -/
  messages : (p.records.flatMap RecordDef.messages ++ p.messages.flatMap MessageDef.messages).Perm
    (List.range p.messages.length)
  /-- Every enum is listed once, by a record or by a message. -/
  enums : (p.records.flatMap RecordDef.enums ++ p.messages.flatMap MessageDef.enums).Perm
    (List.range p.enums.length)
  /-- What a record lists is in the record, and in no message. -/
  top : ∀ (k : Nat) (r : RecordDef), p.records[k]? = some r →
    (∀ i ∈ r.messages, ∃ m, p.messages[i]? = some m ∧ m.record = k ∧ m.parent? = none) ∧
      ∀ i ∈ r.enums, ∃ e, p.enums[i]? = some e ∧ e.record = k ∧ e.parent? = none
  /-- What a message lists is in the message, in the same record, and messages stand behind it. -/
  nested : ∀ (j : Nat) (m : MessageDef), p.messages[j]? = some m →
    (∀ i ∈ m.messages, j < i ∧
      ∃ n, p.messages[i]? = some n ∧ n.record = m.record ∧ n.parent? = some j) ∧
      ∀ i ∈ m.enums, ∃ e, p.enums[i]? = some e ∧ e.record = m.record ∧ e.parent? = some j
  /-- The walk comes by messages and by enums in the order of their indices. -/
  walk : p.VisitsRecords p.records (List.range p.messages.length) (List.range p.enums.length) p.decls

/-- What messages have, in the order of their indices. -/
theorem Pool.flatMap_message (p : Pool) {α : Type} (f : MessageDef → List α) :
    (List.range p.messages.length).flatMap (fun i => f (p.message i)) = p.messages.flatMap f := by
  have hmap : (List.range p.messages.length).map p.message = p.messages := by
    refine List.ext_getElem (by simp) fun i hi hi' => ?_
    rw [List.getElem_map, List.getElem_range]
    exact message_of_getElem? (List.getElem?_eq_getElem hi')
  rw [← List.flatMap_map, hmap]

/-! ## What is listed is placed -/

namespace MessageDecl

/-- An index that is listed is the one of a message that is placed beside the others. -/
theorem exists_placed_of_mem_indices {place : Place} {j : Nat} {ms : List MessageDecl} :
    ∀ {i e : Nat}, j ∈ indices i ms → ∃ x ∈ placedList place i e ms, x.index = j ∧ x.place = place := by
  induction ms with
  | nil => exact fun h => absurd h List.not_mem_nil
  | cons m ms ih =>
    intro i e h
    obtain ⟨name, fields, messages, enums⟩ := m
    rw [placedList]
    rcases List.mem_cons.1 h with rfl | h
    · refine ⟨⟨⟨name, fields, messages, enums⟩, place, j, e⟩, List.mem_append_left _ ?_, rfl, rfl⟩
      rw [placed]
      exact List.mem_cons_self
    · obtain ⟨x, hx, hindex⟩ := ih h
      exact ⟨x, List.mem_append_right _ hx, hindex⟩

end MessageDecl

/-- What stands in a part of a list stands in the list. -/
theorem exists_getElem?_of_prefix {α β : Type} {f : α → β} {l : List β} {xs : List α} {n k : Nat}
    (hp : xs.map f <+: l.drop n) (hk : k ∈ List.range' n xs.length) : ∃ x, l[k]? = some (f x) := by
  obtain ⟨hle, hlt⟩ := List.mem_range'_1.1 hk
  have hlt' : k - n < xs.length := by omega
  refine ⟨xs[k - n], ?_⟩
  obtain ⟨rest, hrest⟩ := hp
  have hget : (l.drop n)[k - n]? = some (f xs[k - n]) := by
    rw [← hrest, List.getElem?_append_left (by simpa using hlt'), List.getElem?_map,
      List.getElem?_eq_getElem hlt']
    rfl
  rwa [List.getElem?_drop, Nat.add_sub_cancel' hle] at hget

namespace RecordDecl

theorem index_of_getElem?_placed {rs : List RecordDecl} {r : PlacedRecord} {k : Nat} :
    ∀ {index i e : Nat}, (placed index i e rs)[k]? = some r → r.index = index + k := by
  induction rs generalizing k with
  | nil => exact fun h => by simp [placed] at h
  | cons a rs ih =>
    intro index i e h
    rw [placed] at h
    cases k with
    | zero =>
      obtain rfl := Option.some.inj h
      rfl
    | succ k =>
      rw [List.getElem?_cons_succ] at h
      rw [ih h]
      omega

end RecordDecl

namespace Linked

variable {rs : List RecordDecl} {p : Pool} {r : PlacedRecord}

/-- Every record of the pool is placed. -/
theorem record_at (h : Linked rs p) {k : Nat} {d : RecordDef} (hd : p.records[k]? = some d) :
    ∃ r ∈ RecordDecl.placed 0 0 0 rs, r.index = k ∧ d = r.define := by
  rw [h.records, List.getElem?_map] at hd
  obtain ⟨r, hr, rfl⟩ := Option.map_eq_some_iff.1 hd
  exact ⟨r, List.mem_of_getElem? hr, (RecordDecl.index_of_getElem?_placed hr).trans (Nat.zero_add k),
    rfl⟩

/-- A placed record stands in the pool at its index. -/
theorem record_index (h : Linked rs p) (hr : r ∈ RecordDecl.placed 0 0 0 rs) :
    p.records[r.index]? = some r.define := by
  obtain ⟨k, hk⟩ := List.mem_iff_getElem?.1 hr
  rw [RecordDecl.index_of_getElem?_placed hk, Nat.zero_add, h.records, List.getElem?_map, hk]
  rfl

/-- The scope that full names of a place begin with. -/
theorem scope_of_places (h : Linked rs p) (hr : r ∈ RecordDecl.placed 0 0 0 rs) {place : Place}
    (hp : r.Places place) : p.scope place.record place.parent? = place.scope := by
  rcases hp with rfl | ⟨m, hm, rfl⟩
  · show (p.record r.index).package = r.decl.package
    rw [Pool.record, List.getD_eq_getElem?_getD, h.record_index hr]
    rfl
  · exact h.fullName_at (holds_messages hr m hm).1

/-- **What is listed beside each other is placed so.** -/
theorem message_of_mem_indices (h : Linked rs p) {place : Place} {ms : List MessageDecl} {i e j : Nat}
    (hms : MessageDecl.placedList place i e ms ⊆ Layout.messages rs)
    (hj : j ∈ MessageDecl.indices i ms) :
    ∃ m, p.messages[j]? = some m ∧ m.record = place.record ∧ m.parent? = place.parent? := by
  obtain ⟨x, hx, hindex, hplace⟩ := MessageDecl.exists_placed_of_mem_indices hj
  obtain ⟨d, hd, hlink⟩ := h.message_at (hms hx)
  subst hindex hplace
  have hdef := (Link.message_eq_ok_iff.1 hlink).2
  exact ⟨d, hd, congrArg MessageDef.record hdef, congrArg MessageDef.parent? hdef⟩

theorem enum_of_mem_range' (h : Linked rs p) {place : Place} {enums : List EnumDecl} {n k : Nat}
    (hp : enums.map (⟨·, place⟩) <+: (Layout.enums rs).drop n) (hk : k ∈ List.range' n enums.length) :
    ∃ e, p.enums[k]? = some e ∧ e.record = place.record ∧ e.parent? = place.parent? := by
  obtain ⟨decl, hdecl⟩ := exists_getElem?_of_prefix hp hk
  refine ⟨PlacedEnum.define ⟨decl, place⟩, ?_, rfl, rfl⟩
  rw [h.enums, List.getElem?_map, hdecl]
  rfl

/-- **What a record lists is in the record, at top level.** -/
theorem top (h : Linked rs p) {k : Nat} {d : RecordDef} (hd : p.records[k]? = some d) :
    (∀ i ∈ d.messages, ∃ m, p.messages[i]? = some m ∧ m.record = k ∧ m.parent? = none) ∧
      ∀ i ∈ d.enums, ∃ e, p.enums[i]? = some e ∧ e.record = k ∧ e.parent? = none := by
  obtain ⟨r, hr, rfl, rfl⟩ := h.record_at hd
  constructor
  · intro i hi
    have hsub : r.messages ⊆ Layout.messages rs := fun x hx => (holds_messages hr x hx).1
    exact h.message_of_mem_indices hsub hi
  · intro i hi
    exact h.enum_of_mem_range' (Layout.topEnums_prefix hr) hi

/-- **What a message lists is in the message.** -/
theorem nested (h : Linked rs p) {j : Nat} {d : MessageDef} (hd : p.messages[j]? = some d) :
    (∀ i ∈ d.messages, j < i ∧
      ∃ n, p.messages[i]? = some n ∧ n.record = d.record ∧ n.parent? = some j) ∧
      ∀ i ∈ d.enums, ∃ e, p.enums[i]? = some e ∧ e.record = d.record ∧ e.parent? = some j := by
  obtain ⟨x, hx, rfl, hlink⟩ := h.placed_at hd
  have hdef := (Link.message_eq_ok_iff.1 hlink).2
  obtain ⟨r, hr, hxr⟩ := List.mem_flatMap.1 hx
  have hnested : x.nested ⊆ Layout.messages rs := fun y hy =>
    (holds_messages hr y (MessageDecl.nested_subset_placedList _ _ _ _ hxr hy)).1
  rw [hdef]
  constructor
  · intro i hi
    exact ⟨MessageDecl.le_of_mem_indices hi, h.message_of_mem_indices hnested hi⟩
  · intro i hi
    exact h.enum_of_mem_range' (holds_messages hr x hxr).2 hi

/-! ### Full names -/

theorem messageName (h : Linked rs p) : ∀ d ∈ p.messages,
    d.fullName = Name.qualify (p.scope d.record d.parent?) d.name := by
  intro d hmem
  obtain ⟨i, hd⟩ := List.mem_iff_getElem?.1 hmem
  obtain ⟨x, hx, -, hlink⟩ := h.placed_at hd
  obtain ⟨r, hr, hxr⟩ := List.mem_flatMap.1 hx
  have hscope : p.scope x.place.record x.place.parent? = x.place.scope :=
    h.scope_of_places hr (r.places_of_mem_messages hxr)
  rw [(Link.message_eq_ok_iff.1 hlink).2]
  exact (congrArg (Name.qualify · x.decl.name) hscope).symm

theorem enumName (h : Linked rs p) : ∀ d ∈ p.enums,
    d.fullName = Name.qualify (p.scope d.record d.parent?) d.name := by
  rw [h.enums, List.forall_mem_map]
  intro x hx
  obtain ⟨r, hr, hxr⟩ := List.mem_flatMap.1 hx
  have hscope : p.scope x.place.record x.place.parent? = x.place.scope :=
    h.scope_of_places hr (r.places_of_mem_enums hxr)
  exact (congrArg (Name.qualify · x.decl.name) hscope).symm

/-- **Linked pools are arranged.** -/
theorem arranged (h : Linked rs p) : p.Arranged where
  find name ref := by
    cases ref with
    | message i => exact Pool.find?_eq_message_iff h.laidOut.names_nodup
    | enum k => exact Pool.find?_eq_enum_iff h.laidOut.names_nodup
  names := h.laidOut.names_nodup
  messageName := h.messageName
  enumName := h.enumName
  messages := by
    rw [← Pool.flatMap_message]
    exact h.visitsRecords.perm_messages.symm
  enums := by
    rw [← Pool.flatMap_message]
    exact h.visitsRecords.perm_enums.symm
  top _ _ hd := h.top hd
  nested _ _ hd := h.nested hd
  walk := h.visitsRecords

end Linked

/-! ## Arranged pools -/

namespace Pool.Arranged

variable {p : Pool}

/-- **A message is listed by its record, or by its parent.** -/
theorem message_listed (h : p.Arranged) {i : Nat} {m : MessageDef} (hm : p.messages[i]? = some m) :
    (m.parent? = none ∧ ∃ r, p.records[m.record]? = some r ∧ i ∈ r.messages) ∨
      ∃ j n, m.parent? = some j ∧ j < i ∧ p.messages[j]? = some n ∧ n.record = m.record ∧
        i ∈ n.messages := by
  have hi : i ∈ List.range p.messages.length := List.mem_range.2 (List.getElem?_eq_some_iff.1 hm).1
  rw [← h.messages.mem_iff, List.mem_append, List.mem_flatMap, List.mem_flatMap] at hi
  rcases hi with ⟨r, hr, hir⟩ | ⟨n, hn, hin⟩
  · obtain ⟨k, hk⟩ := List.mem_iff_getElem?.1 hr
    obtain ⟨m', hm', rfl, hparent⟩ := (h.top k r hk).1 i hir
    obtain rfl : m' = m := Option.some.inj (hm'.symm.trans hm)
    exact Or.inl ⟨hparent, r, hk, hir⟩
  · obtain ⟨j, hj⟩ := List.mem_iff_getElem?.1 hn
    obtain ⟨hlt, m', hm', hrecord, hparent⟩ := (h.nested j n hj).1 i hin
    obtain rfl : m' = m := Option.some.inj (hm'.symm.trans hm)
    exact Or.inr ⟨j, n, hparent, hlt, hj, hrecord.symm, hin⟩

/-- **An enum is listed by its record, or by its parent.** -/
theorem enum_listed (h : p.Arranged) {i : Nat} {e : EnumDef} (he : p.enums[i]? = some e) :
    (e.parent? = none ∧ ∃ r, p.records[e.record]? = some r ∧ i ∈ r.enums) ∨
      ∃ j n, e.parent? = some j ∧ p.messages[j]? = some n ∧ n.record = e.record ∧
        i ∈ n.enums := by
  have hi : i ∈ List.range p.enums.length := List.mem_range.2 (List.getElem?_eq_some_iff.1 he).1
  rw [← h.enums.mem_iff, List.mem_append, List.mem_flatMap, List.mem_flatMap] at hi
  rcases hi with ⟨r, hr, hir⟩ | ⟨n, hn, hin⟩
  · obtain ⟨k, hk⟩ := List.mem_iff_getElem?.1 hr
    obtain ⟨e', he', rfl, hparent⟩ := (h.top k r hk).2 i hir
    obtain rfl : e' = e := Option.some.inj (he'.symm.trans he)
    exact Or.inl ⟨hparent, r, hk, hir⟩
  · obtain ⟨j, hj⟩ := List.mem_iff_getElem?.1 hn
    obtain ⟨e', he', hrecord, hparent⟩ := (h.nested j n hj).2 i hin
    obtain rfl : e' = e := Option.some.inj (he'.symm.trans he)
    exact Or.inr ⟨j, n, hparent, hj, hrecord.symm, hin⟩

/-- The parent of a message is a message of the pool. -/
theorem parent_lt_of_message (h : p.Arranged) {i j : Nat} {m : MessageDef}
    (hm : p.messages[i]? = some m) (hj : m.parent? = some j) : j < p.messages.length := by
  rcases h.message_listed hm with ⟨hnone, -⟩ | ⟨k, n, hk, -, hn, -⟩
  · exact absurd (hnone.symm.trans hj) (Option.some_ne_none j).symm
  · obtain rfl : k = j := Option.some.inj (hk.symm.trans hj)
    exact (List.getElem?_eq_some_iff.1 hn).1

/-- The parent of an enum is a message of the pool. -/
theorem parent_lt_of_enum (h : p.Arranged) {i j : Nat} {e : EnumDef}
    (he : p.enums[i]? = some e) (hj : e.parent? = some j) : j < p.messages.length := by
  rcases h.enum_listed he with ⟨hnone, -⟩ | ⟨k, n, hk, hn, -⟩
  · exact absurd (hnone.symm.trans hj) (Option.some_ne_none j).symm
  · obtain rfl : k = j := Option.some.inj (hk.symm.trans hj)
    exact (List.getElem?_eq_some_iff.1 hn).1

/-- The record of a message is one of the pool's. -/
theorem record_lt_of_message (h : p.Arranged) {i : Nat} : ∀ {m : MessageDef},
    p.messages[i]? = some m → m.record < p.records.length := by
  -- A nested message has the record of its parent, which stands in front of it.
  induction i using Nat.strongRecOn with
  | ind i ih =>
    intro m hm
    rcases h.message_listed hm with ⟨-, r, hr, -⟩ | ⟨j, n, -, hlt, hn, hrecord, -⟩
    · exact (List.getElem?_eq_some_iff.1 hr).1
    · rw [← hrecord]
      exact ih j hlt hn

/-- The record of an enum is one of the pool's. -/
theorem record_lt_of_enum (h : p.Arranged) {i : Nat} {e : EnumDef} (he : p.enums[i]? = some e) :
    e.record < p.records.length := by
  rcases h.enum_listed he with ⟨-, r, hr, -⟩ | ⟨j, n, -, hn, hrecord, -⟩
  · exact (List.getElem?_eq_some_iff.1 hr).1
  · rw [← hrecord]
    exact h.record_lt_of_message hn

end Pool.Arranged

end ProtoSchema
