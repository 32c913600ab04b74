import ProtoSchema.Proofs.Pool.Alike
import ProtoSchema.Proofs.Schema.Draft

/-!
# Imported types

Building a schema exposes its imports unchanged (`Draft.build_exposes`): each imported type has the
outline that it has in the pool it comes from, and nothing is added to these types but the schema's
own. References of imported records are absolute, so they mean the types of the same names, whatever
else is declared around them (`Pool.Consistent.sameKind`).
-/

namespace ProtoSchema

/-! ## Records of consistent pools -/

section Shared

variable {rs : List RecordDecl} {p q : Pool} {r' : PlacedRecord}

/-- **What a consistent pool declares means the same in every pool that has its records.** -/
theorem Pool.Consistent.sameKind (hp : p.Consistent) (hq : LaidOut rs q) (hsub : p.decls ⊆ rs)
    {scope : String} {m : MessageDecl}
    (hm : ⟨scope, .message m⟩ ∈ p.decls.flatMap RecordDecl.types) {f : FieldDecl}
    (hf : f ∈ m.fields) : Link.SameKind p q (Name.qualify scope m.name) f.typeName := by
  obtain ⟨kind, hkind, hname⟩ := hp.kind?_field hm hf
  rw [hname] at hkind ⊢
  exact Link.sameKind_typeName hp.linked.laidOut hq (Linked.types_subset hsub) hkind

namespace Linked

/-- **What is linked from the records of a consistent pool exposes it.** -/
theorem exposes (hp : p.Consistent) (hq : Linked rs q) (hsub : p.decls ⊆ rs) : q.Exposes p :=
  exposes_of_alike hp.linked hq (fun r hr => ⟨r, hsub hr, .refl r⟩)
    fun _ _ hm _ hf => hp.sameKind hq.laidOut hsub hm hf

/-- A message of one of the records that a consistent pool shares has an outline of that pool. -/
theorem exists_messageOutline (hp : p.Consistent) (hq : Linked rs q) (hsub : p.decls ⊆ rs)
    (hr' : r' ∈ RecordDecl.placed 0 0 0 rs) (hshared : r'.decl ∈ p.decls) {y : PlacedMessage}
    (hy : y ∈ r'.messages) {m' : MessageDef} (hm' : Link.message q y = .ok m') :
    ∃ m ∈ p.messages, q.messageOutline m' = p.messageOutline m := by
  obtain ⟨r, hr, hdecl⟩ := RecordDecl.exists_placed hshared
  have halike : r.decl.Alike r'.decl := hdecl ▸ .refl _
  obtain ⟨x, hx, ha⟩ := PlacedRecord.exists_alike_messages halike.symm hy
  have hmem := (holds_messages hr x hx).1
  obtain ⟨m, hm, hlink⟩ := hp.linked.message_at hmem
  exact ⟨m, List.mem_of_getElem? hm, messageOutline_congr hp.linked hq hr hr' halike hx hy ha.symm
    (fun f hf => hp.sameKind hq.laidOut hsub (Layout.inScope_mem_types hmem) hf) hlink hm'⟩

/-- An enum of one of the records that a consistent pool shares has an outline of that pool. -/
theorem exists_enumOutline (hp : p.Consistent) (hq : Linked rs q)
    (hr' : r' ∈ RecordDecl.placed 0 0 0 rs) (hshared : r'.decl ∈ p.decls) {y : PlacedEnum}
    (hy : y ∈ r'.enums) : ∃ e ∈ p.enums, q.enumOutline y.define = p.enumOutline e := by
  obtain ⟨r, hr, hdecl⟩ := RecordDecl.exists_placed hshared
  have halike : r'.decl.Alike r.decl := hdecl ▸ .refl _
  obtain ⟨x, hx, ha⟩ := PlacedRecord.exists_alike_enums halike hy
  refine ⟨x.define, ?_, ?_⟩
  · rw [hp.linked.enums]
    exact List.mem_map_of_mem (List.mem_flatMap.2 ⟨r, hr, hx⟩)
  · rw [hq.enumOutline_eq hr' hy, hp.linked.enumOutline_eq hr hx, ha.outline, halike.name]

end Linked

end Shared

/-! ## A schema's own types -/

/-- The message of the pool is linked from the declaration, which is in the scope in the record. -/
structure MessageDef.LinkedFrom (q : Pool) (record scope : String) (m : MessageDecl)
    (d : MessageDef) : Prop where
  name : d.name = m.name
  fullName : d.fullName = Name.qualify scope m.name
  record : (q.record d.record).name = record
  parent : ∀ i, d.parent? = some i → (q.message i).fullName = scope
  fields : List.Forall₂ (fun f g => Link.field q d.fullName f = .ok g) m.fields d.fields
  messages : d.messages.map (fun i => (q.message i).fullName) =
    m.messages.map fun n => Name.qualify d.fullName n.name
  enums : d.enums.map (fun i => (q.enum i).fullName) =
    m.enums.map fun e => Name.qualify d.fullName e.name

/-- The enum of the pool is linked from the declaration, which is in the scope in the record. -/
structure EnumDef.LinkedFrom (q : Pool) (record scope : String) (e : EnumDecl) (d : EnumDef) :
    Prop where
  name : d.name = e.name
  fullName : d.fullName = Name.qualify scope e.name
  record : (q.record d.record).name = record
  parent : ∀ i, d.parent? = some i → (q.message i).fullName = scope
  values : d.values = e.values

namespace PlacedRecord

variable {r : PlacedRecord} {scope : String}

/-- The types of a record are its placed messages and enums. -/
theorem mem_types_iff {t : ScopedType} : t ∈ r.decl.types ↔
    (∃ m ∈ r.messages, m.inScope = t) ∨ ∃ e ∈ r.enums, e.inScope = t := by
  rw [← r.map_inScope_declared, (r.declared_perm.map _).mem_iff, List.map_append, List.mem_append,
    List.map_map, List.map_map, List.mem_map, List.mem_map]
  exact Iff.rfl

theorem exists_message_of_types {m : MessageDecl} (h : ⟨scope, .message m⟩ ∈ r.decl.types) :
    ∃ x ∈ r.messages, x.place.scope = scope ∧ x.decl = m := by
  rcases mem_types_iff.1 h with ⟨x, hx, heq⟩ | ⟨e, -, heq⟩
  · exact ⟨x, hx, by simpa [PlacedMessage.inScope] using heq⟩
  · simp [PlacedEnum.inScope] at heq

theorem exists_enum_of_types {e : EnumDecl} (h : ⟨scope, .enum e⟩ ∈ r.decl.types) :
    ∃ x ∈ r.enums, x.place.scope = scope ∧ x.decl = e := by
  rcases mem_types_iff.1 h with ⟨m, -, heq⟩ | ⟨x, hx, heq⟩
  · simp [PlacedMessage.inScope] at heq
  · exact ⟨x, hx, by simpa [PlacedEnum.inScope] using heq⟩

end PlacedRecord

/-- A place is in the message whose full name its scope is. -/
theorem Place.scope_of_owner? {place : Place} {name : String} (h : place.owner? = some name) :
    place.scope = name := by
  obtain ⟨-, -, hname⟩ := Option.map_eq_some_iff.1 h
  exact hname

namespace Linked

variable {rs : List RecordDecl} {q : Pool} {r : PlacedRecord}

theorem message_linkedFrom (h : Linked rs q) (hr : r ∈ RecordDecl.placed 0 0 0 rs)
    {x : PlacedMessage} (hx : x ∈ r.messages) {d : MessageDef} (hd : Link.message q x = .ok d) :
    d.LinkedFrom q r.decl.name x.place.scope x.decl := by
  obtain ⟨hname, hfull, hrecord, hparent, -, hmessages, henums⟩ :=
    MessageOutline.mk.inj (h.messageOutline_eq hr hx hd)
  refine ⟨hname, hfull, hrecord, ?_, ?_, ?_, ?_⟩
  · intro i hi
    rw [hi] at hparent
    exact (Place.scope_of_owner? hparent.symm).symm
  · rw [hfull]
    exact (Link.message_eq_ok_iff.1 hd).1
  · rw [hfull]
    exact hmessages
  · rw [hfull]
    exact henums

theorem enum_linkedFrom (h : Linked rs q) (hr : r ∈ RecordDecl.placed 0 0 0 rs) {x : PlacedEnum}
    (hx : x ∈ r.enums) : x.define.LinkedFrom q r.decl.name x.place.scope x.decl := by
  obtain ⟨hname, hfull, hrecord, hparent, hvalues⟩ := EnumOutline.mk.inj (h.enumOutline_eq hr hx)
  refine ⟨hname, hfull, hrecord, ?_, hvalues⟩
  intro i hi
  rw [hi] at hparent
  exact (Place.scope_of_owner? hparent.symm).symm

/-- **Every declared message is linked under its full name.** -/
theorem exists_message_linkedFrom (h : Linked rs q) {decl : RecordDecl} (hdecl : decl ∈ rs)
    {scope : String} {m : MessageDecl} (hm : ⟨scope, .message m⟩ ∈ decl.types) :
    ∃ i d, q.find? (Name.qualify scope m.name) = some (.message i) ∧ q.messages[i]? = some d ∧
      d.LinkedFrom q decl.name scope m := by
  obtain ⟨r, hr, rfl⟩ := RecordDecl.exists_placed hdecl
  obtain ⟨x, hx, rfl, rfl⟩ := PlacedRecord.exists_message_of_types hm
  have hmem := (holds_messages hr x hx).1
  obtain ⟨d, hd, hlink⟩ := h.message_at hmem
  exact ⟨x.index, d, h.laidOut.find?_message hmem, hd, h.message_linkedFrom hr hx hlink⟩

/-- **Every declared enum is linked under its full name.** -/
theorem exists_enum_linkedFrom (h : Linked rs q) {decl : RecordDecl} (hdecl : decl ∈ rs)
    {scope : String} {e : EnumDecl} (he : ⟨scope, .enum e⟩ ∈ decl.types) :
    ∃ i d, q.find? (Name.qualify scope e.name) = some (.enum i) ∧ q.enums[i]? = some d ∧
      d.LinkedFrom q decl.name scope e := by
  obtain ⟨r, hr, rfl⟩ := RecordDecl.exists_placed hdecl
  obtain ⟨x, hx, rfl, rfl⟩ := PlacedRecord.exists_enum_of_types he
  have hmem : x ∈ Layout.enums rs := List.mem_flatMap.2 ⟨r, hr, hx⟩
  obtain ⟨i, hi⟩ := List.mem_iff_getElem?.1 hmem
  refine ⟨i, x.define, h.laidOut.find?_enum hi, ?_, h.enum_linkedFrom hr hx⟩
  rw [h.enums, List.getElem?_map, hi]
  rfl

end Linked

namespace Draft

variable {d : Draft} {q : Pool}

/-- **Imports are exposed unchanged, with nothing lost and nothing added.** The built pool exposes
every import; it has every type that the draft declares itself; and each of its types is one of the
draft's own or has the outline of a type of an import. -/
theorem build_exposes (hi : ∀ p ∈ d.imports, p.Reachable) (h : d.build = .ok q) :
    (∀ p ∈ d.imports, q.Exposes p) ∧
      (∀ scope m, ⟨scope, .message m⟩ ∈ d.own.types →
        ∃ i m', q.find? (Name.qualify scope m.name) = some (.message i) ∧
          q.messages[i]? = some m' ∧ m'.LinkedFrom q d.name scope m) ∧
      (∀ scope e, ⟨scope, .enum e⟩ ∈ d.own.types →
        ∃ i e', q.find? (Name.qualify scope e.name) = some (.enum i) ∧
          q.enums[i]? = some e' ∧ e'.LinkedFrom q d.name scope e) ∧
      (∀ m' ∈ q.messages,
        (∃ scope m, ⟨scope, .message m⟩ ∈ d.own.types ∧ m'.LinkedFrom q d.name scope m) ∨
          ∃ p ∈ d.imports, ∃ m ∈ p.messages, q.messageOutline m' = p.messageOutline m) ∧
      ∀ e' ∈ q.enums,
        (∃ scope e, ⟨scope, .enum e⟩ ∈ d.own.types ∧ e'.LinkedFrom q d.name scope e) ∨
          ∃ p ∈ d.imports, ∃ e ∈ p.enums, q.enumOutline e' = p.enumOutline e := by
  have hq : Linked (d.imported ++ [d.own]) q := link_eq_ok_iff.1 h
  have hsub : ∀ p ∈ d.imports, p.decls ⊆ d.imported ++ [d.own] := fun p hp r hr =>
    List.mem_append_left _ (mem_imported.2 ⟨p, hp, hr⟩)
  have hown : d.own ∈ d.imported ++ [d.own] := List.mem_append_right _ (List.mem_singleton.2 rfl)
  -- A placed record is the draft's own, or one of an import.
  have hcases : ∀ r ∈ RecordDecl.placed 0 0 0 (d.imported ++ [d.own]),
      r.decl = d.own ∨ ∃ p ∈ d.imports, r.decl ∈ p.decls := by
    intro r hr
    rcases List.mem_append.1 (Linked.decl_mem hr) with hr | hr
    · exact Or.inr (mem_imported.1 hr)
    · exact Or.inl (List.mem_singleton.1 hr)
  refine ⟨fun p hp => Linked.exposes (hi p hp).consistent hq (hsub p hp),
    fun _ _ => hq.exists_message_linkedFrom hown, fun _ _ => hq.exists_enum_linkedFrom hown, ?_, ?_⟩
  · intro m' hm'
    obtain ⟨i, hget⟩ := List.mem_iff_getElem?.1 hm'
    obtain ⟨x, hx, -, hlink⟩ := hq.placed_at hget
    obtain ⟨r, hr, hx⟩ := List.mem_flatMap.1 hx
    rcases hcases r hr with hdecl | ⟨p, hp, hdecl⟩
    · refine Or.inl ⟨x.place.scope, x.decl, ?_, ?_⟩
      · rw [← hdecl]
        exact PlacedRecord.mem_types_iff.2 (Or.inl ⟨x, hx, rfl⟩)
      · have hfrom := hq.message_linkedFrom hr hx hlink
        rwa [hdecl] at hfrom
    · exact Or.inr ⟨p, hp, Linked.exists_messageOutline (hi p hp).consistent hq (hsub p hp) hr hdecl
        hx hlink⟩
  · intro e' he'
    rw [hq.enums, List.mem_map] at he'
    obtain ⟨x, hx, rfl⟩ := he'
    obtain ⟨r, hr, hx⟩ := List.mem_flatMap.1 hx
    rcases hcases r hr with hdecl | ⟨p, hp, hdecl⟩
    · refine Or.inl ⟨x.place.scope, x.decl, ?_, ?_⟩
      · rw [← hdecl]
        exact PlacedRecord.mem_types_iff.2 (Or.inr ⟨x, hx, rfl⟩)
      · have hfrom := hq.enum_linkedFrom hr hx
        rwa [hdecl] at hfrom
    · exact Or.inr ⟨p, hp, Linked.exists_enumOutline (hi p hp).consistent hq hr hdecl hx⟩

/-- A schema that imports a message and has another of the same short name next to one that refers
to both. -/
def anchor : Draft where
  name := "anchor.proto"
  package := "sea"
  messages := [⟨"Link", [], [], []⟩, ⟨"Anchor", [⟨.optional, ".Link", "first", 1, none⟩,
    ⟨.optional, "Link", "own", 2, none⟩], [], []⟩]
  enums := []
  imports := [Pool.chain]

theorem imported_anchor : anchor.imported = [⟨"chain.proto", "", [],
    [⟨"Link", [⟨.optional, ".Link", "next", 1, none⟩, ⟨.repeated, "int32", "marks", 2, none⟩], [],
      []⟩], []⟩] := by
  have hlink : Pool.link [chain.own] = .ok Pool.chain := rfl
  have hdecls := (link_eq_ok_iff.1 hlink).decls_eq
  rw [imported, anchor, List.flatMap_cons, List.flatMap_nil, List.append_nil, hdecls]
  rfl

end Draft

/-- The pool of the schema that imports the links of a chain. -/
def Pool.anchor : Pool where
  records := [⟨"chain.proto", "", [], [0], []⟩, ⟨"anchor.proto", "sea", ["chain.proto"], [1, 2], []⟩]
  messages := [⟨"Link", "Link", 0, none, [⟨"next", 1, .optional, .message 0, none, .emptyMessage⟩,
      ⟨"marks", 2, .repeated, .scalar .int32, none, .emptyList⟩], [], []⟩,
    ⟨"Link", "sea.Link", 1, none, [], [], []⟩,
    ⟨"Anchor", "sea.Anchor", 1, none, [⟨"first", 1, .optional, .message 0, none, .emptyMessage⟩,
      ⟨"own", 2, .optional, .message 1, none, .emptyMessage⟩], [], []⟩]
  enums := []

namespace Draft

theorem build_anchor : anchor.build = .ok Pool.anchor := by
  rw [build, own, imported_anchor]
  rfl

theorem build_exposes_chain : ∃ q, anchor.build = .ok q ∧ q.Exposes Pool.chain := by
  refine ⟨Pool.anchor, build_anchor,
    (build_exposes (d := anchor) ?_ build_anchor).1 Pool.chain (List.mem_singleton.2 rfl)⟩
  intro p hp
  obtain rfl := List.mem_singleton.1 hp
  exact Pool.reachable_chain

end Draft

end ProtoSchema
