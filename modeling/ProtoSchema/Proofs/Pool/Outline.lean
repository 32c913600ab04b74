import ProtoSchema.Proofs.Pool.Refused

/-!
# Outlines

An outline tells a type of a pool by names alone, without any index, so that types of different
pools can be compared. The outline of a linked message depends on its declaration, on the record and
the scope that it is declared in, and on what its fields resolve to (`Linked.messageOutline_eq`).
-/

namespace ProtoSchema

/-- A kind of field by names. An enum comes with its values, because defaults are given by their
places among them. -/
inductive KindOutline
  | scalar (type : ScalarType)
  | message (fullName : String)
  | enum (fullName : String) (values : List ValueDecl)
deriving DecidableEq, Repr

/-- A field by names. -/
structure FieldOutline where
  name : String
  number : Nat
  label : Label
  kind : KindOutline
  declared? : Option String
  default : FieldDefault
deriving DecidableEq, Repr

/-- A message by names: its record, the message it is nested in, and what is nested in it. -/
structure MessageOutline where
  name : String
  fullName : String
  record : String
  parent? : Option String
  fields : List FieldOutline
  messages : List String
  enums : List String
deriving DecidableEq, Repr

/-- An enum by names. -/
structure EnumOutline where
  name : String
  fullName : String
  record : String
  parent? : Option String
  values : List ValueDecl
deriving DecidableEq, Repr

namespace Pool

variable (p : Pool)

def kindOutline : FieldKind → KindOutline
  | .scalar t => .scalar t
  | .message i => .message (p.message i).fullName
  | .enum i => .enum (p.enum i).fullName (p.enum i).values

def fieldOutline (f : FieldDef) : FieldOutline :=
  ⟨f.name, f.number, f.label, p.kindOutline f.kind, f.declared?, f.default⟩

def messageOutline (m : MessageDef) : MessageOutline where
  name := m.name
  fullName := m.fullName
  record := (p.record m.record).name
  parent? := m.parent?.map fun i => (p.message i).fullName
  fields := m.fields.map p.fieldOutline
  messages := m.messages.map fun i => (p.message i).fullName
  enums := m.enums.map fun i => (p.enum i).fullName

def enumOutline (e : EnumDef) : EnumOutline where
  name := e.name
  fullName := e.fullName
  record := (p.record e.record).name
  parent? := e.parent?.map fun i => (p.message i).fullName
  values := e.values

end Pool

/-- The full name of the message that the place is in. -/
def Place.owner? (place : Place) : Option String := place.parent?.map fun _ => place.scope

/-- The outline of a message that is declared in the record, with its fields resolved. -/
def PlacedMessage.outline (m : PlacedMessage) (record : String) (fields : List FieldOutline) :
    MessageOutline where
  name := m.decl.name
  fullName := m.fullName
  record := record
  parent? := m.place.owner?
  fields := fields
  messages := m.decl.messages.map fun n => Name.qualify m.fullName n.name
  enums := m.decl.enums.map fun e => Name.qualify m.fullName e.name

/-- The outline of an enum that is declared in the record. -/
def PlacedEnum.outline (e : PlacedEnum) (record : String) : EnumOutline where
  name := e.decl.name
  fullName := e.fullName
  record := record
  parent? := e.place.owner?
  values := e.decl.values

/-! ## What is nested in a placed message -/

/-- The messages nested in the message, at their places. -/
abbrev PlacedMessage.nested (m : PlacedMessage) : List PlacedMessage :=
  MessageDecl.placedList m.inner (m.index + 1) (m.enumIndex + m.decl.enums.length) m.decl.messages

namespace MessageDecl

mutual

/-- A message is placed where the whole is, or in another one of it. -/
theorem place_of_mem_placed {x : PlacedMessage} (place : Place) (i e : Nat) : ∀ m : MessageDecl,
    x ∈ m.placed place i e → x.place = place ∨ ∃ y ∈ m.placed place i e, x.place = y.inner
  | ⟨name, fields, messages, enums⟩, hx => by
    rw [placed] at hx ⊢
    rcases List.mem_cons.1 hx with rfl | hx
    · exact Or.inl rfl
    · rcases place_of_mem_placedList _ _ _ messages hx with hplace | ⟨y, hy, hplace⟩
      · exact Or.inr ⟨_, List.mem_cons_self, hplace⟩
      · exact Or.inr ⟨y, List.mem_cons_of_mem _ hy, hplace⟩

theorem place_of_mem_placedList {x : PlacedMessage} (place : Place) (i e : Nat) :
    ∀ ms : List MessageDecl, x ∈ placedList place i e ms →
      x.place = place ∨ ∃ y ∈ placedList place i e ms, x.place = y.inner
  | [], hx => absurd hx List.not_mem_nil
  | m :: ms, hx => by
    rw [placedList] at hx ⊢
    rcases List.mem_append.1 hx with hx | hx
    · rcases place_of_mem_placed _ _ _ m hx with hplace | ⟨y, hy, hplace⟩
      · exact Or.inl hplace
      · exact Or.inr ⟨y, List.mem_append_left _ hy, hplace⟩
    · rcases place_of_mem_placedList _ _ _ ms hx with hplace | ⟨y, hy, hplace⟩
      · exact Or.inl hplace
      · exact Or.inr ⟨y, List.mem_append_right _ hy, hplace⟩

end

mutual

theorem nested_subset_placed {x : PlacedMessage} (place : Place) (i e : Nat) : ∀ m : MessageDecl,
    x ∈ m.placed place i e → x.nested ⊆ m.placed place i e
  | ⟨name, fields, messages, enums⟩, hx => by
    rw [placed] at hx ⊢
    rcases List.mem_cons.1 hx with rfl | hx
    · exact List.subset_cons_self _ _
    · exact List.subset_cons_of_subset _ (nested_subset_placedList _ _ _ messages hx)

/-- **What is nested in a placed message is placed with it.** -/
theorem nested_subset_placedList {x : PlacedMessage} (place : Place) (i e : Nat) :
    ∀ ms : List MessageDecl, x ∈ placedList place i e ms → x.nested ⊆ placedList place i e ms
  | [], hx => absurd hx List.not_mem_nil
  | m :: ms, hx => by
    rw [placedList] at hx ⊢
    rcases List.mem_append.1 hx with hx | hx
    · exact List.subset_append_of_subset_left _ (nested_subset_placed _ _ _ m hx)
    · exact List.subset_append_of_subset_right _ (nested_subset_placedList _ _ _ ms hx)

end

end MessageDecl

namespace PlacedRecord

/-- The place is the record's own, or in one of its messages. -/
def Places (r : PlacedRecord) (place : Place) : Prop :=
  place = r.place ∨ ∃ m ∈ r.messages, place = m.inner

theorem places_of_mem_messages (r : PlacedRecord) {m : PlacedMessage} (hm : m ∈ r.messages) :
    r.Places m.place := MessageDecl.place_of_mem_placedList _ _ _ _ hm

theorem places_of_mem_enums (r : PlacedRecord) {e : PlacedEnum} (he : e ∈ r.enums) :
    r.Places e.place := by
  rw [enums, List.mem_append, List.mem_flatMap] at he
  rcases he with ⟨m, hm, he⟩ | he
  · obtain ⟨decl, -, rfl⟩ := List.mem_map.1 he
    exact Or.inr ⟨m, hm, rfl⟩
  · obtain ⟨decl, -, rfl⟩ := List.mem_map.1 he
    exact Or.inl rfl

end PlacedRecord

/-! ## Outlines of linked types -/

namespace Linked

variable {rs : List RecordDecl} {p : Pool} {r : PlacedRecord}

theorem recordName_of_getElem? (h : Linked rs p) {k : Nat} {decl : RecordDecl}
    (hk : rs[k]? = some decl) : (p.record k).name = decl.name := by
  have hname : p.records[k]?.map RecordDef.name = some decl.name := by
    rw [h.records, List.getElem?_map, Option.map_map]
    rw [← map_decl_placed rs 0 0 0, List.getElem?_map] at hk
    obtain ⟨r, hr, rfl⟩ := Option.map_eq_some_iff.1 hk
    rw [hr]
    rfl
  obtain ⟨d, hd, hname⟩ := Option.map_eq_some_iff.1 hname
  rw [Pool.record, List.getD_eq_getElem?_getD, hd, Option.getD_some, hname]

theorem recordName (h : Linked rs p) (hr : r ∈ RecordDecl.placed 0 0 0 rs) :
    (p.record r.index).name = r.decl.name := by
  obtain ⟨k, hk, hdecl⟩ := RecordDecl.index_of_mem_placed hr
  rw [hk, Nat.zero_add]
  exact h.recordName_of_getElem? hdecl

theorem fullName_at (h : Linked rs p) {m : PlacedMessage} (hm : m ∈ Layout.messages rs) :
    (p.message m.index).fullName = m.fullName := by
  obtain ⟨d, hd, hlink⟩ := h.message_at hm
  rw [Pool.message_of_getElem? hd, Link.fullName_of_message hlink]

/-- Messages that are placed side by side have the full names that they are declared under. -/
theorem map_fullName_indices (h : Linked rs p) {place : Place} {ms : List MessageDecl} :
    ∀ {i e : Nat}, MessageDecl.placedList place i e ms ⊆ Layout.messages rs →
      (MessageDecl.indices i ms).map (fun j => (p.message j).fullName) =
        ms.map fun m => Name.qualify place.scope m.name := by
  induction ms with
  | nil => exact fun _ => rfl
  | cons m ms ih =>
    intro i e hsub
    obtain ⟨name, fields, messages, enums⟩ := m
    rw [MessageDecl.placedList, List.append_subset] at hsub
    have hhead := h.fullName_at (m := ⟨⟨name, fields, messages, enums⟩, place, i, e⟩)
      (hsub.1 (by rw [MessageDecl.placed]; exact List.mem_cons_self))
    rw [MessageDecl.indices, List.map_cons, List.map_cons, ih hsub.2, hhead]
    rfl

theorem recordName_of_places (h : Linked rs p) (hr : r ∈ RecordDecl.placed 0 0 0 rs) {place : Place}
    (hp : r.Places place) : (p.record place.record).name = r.decl.name := by
  rcases hp with rfl | ⟨m, hm, rfl⟩
  · exact h.recordName hr
  · have hrecord : m.place.record = r.index := MessageDecl.record_of_mem_placedList r.place _ _ _ hm
    show (p.record m.place.record).name = _
    rw [hrecord, h.recordName hr]

theorem parent_of_places (h : Linked rs p) (hr : r ∈ RecordDecl.placed 0 0 0 rs) {place : Place}
    (hp : r.Places place) :
    place.parent?.map (fun i => (p.message i).fullName) = place.owner? := by
  rcases hp with rfl | ⟨m, hm, rfl⟩
  · rfl
  · exact congrArg some (h.fullName_at (holds_messages hr m hm).1)

/-- **The outline of a linked message is the one of its declaration.** -/
theorem messageOutline_eq (h : Linked rs p) (hr : r ∈ RecordDecl.placed 0 0 0 rs)
    {m : PlacedMessage} (hm : m ∈ r.messages) {d : MessageDef} (hd : Link.message p m = .ok d) :
    p.messageOutline d = m.outline r.decl.name (d.fields.map p.fieldOutline) := by
  obtain ⟨-, hdef⟩ := Link.message_eq_ok_iff.1 hd
  have hplace : r.Places m.place := r.places_of_mem_messages hm
  have hnested : m.nested ⊆ Layout.messages rs := fun x hx =>
    (holds_messages hr x (MessageDecl.nested_subset_placedList _ _ _ _ hm hx)).1
  have henums : (List.range' m.enumIndex m.decl.enums.length).map (fun k => (p.enum k).fullName) =
      m.decl.enums.map fun e => Name.qualify m.fullName e.name := by
    have hnames : ∀ k e, (Layout.enums rs)[k]? = some e → (p.enum k).fullName = e.fullName := by
      intro k e he
      rw [h.laidOut.enum_of_getElem? he]
      rfl
    have hmap := map_range'_of_prefix hnames (holds_messages hr m hm).2
    rw [PlacedMessage.length_enums, PlacedMessage.enums, List.map_map] at hmap
    exact hmap
  rw [Pool.messageOutline, PlacedMessage.outline, MessageOutline.mk.injEq]
  refine ⟨by rw [hdef]; rfl, by rw [hdef]; rfl, ?_, ?_, rfl, ?_, ?_⟩
  · rw [← h.recordName_of_places hr hplace, hdef]
    rfl
  · rw [← h.parent_of_places hr hplace, hdef]
    rfl
  · rw [hdef]
    exact h.map_fullName_indices hnested
  · rw [hdef]
    exact henums

/-- **The outline of a linked enum is the one of its declaration.** -/
theorem enumOutline_eq (h : Linked rs p) (hr : r ∈ RecordDecl.placed 0 0 0 rs) {e : PlacedEnum}
    (he : e ∈ r.enums) : p.enumOutline e.define = e.outline r.decl.name := by
  have hplace : r.Places e.place := r.places_of_mem_enums he
  rw [Pool.enumOutline, PlacedEnum.outline, EnumOutline.mk.injEq]
  exact ⟨rfl, rfl, h.recordName_of_places hr hplace, h.parent_of_places hr hplace, rfl⟩

end Linked

end ProtoSchema
