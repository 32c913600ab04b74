import ProtoSchema.Proofs.Descriptor.Forms
import ProtoSchema.Proofs.Pool.Absolute
import ProtoSchema.Schema.Draft

/-!
# Reachable pools

`Pool.Reachable` holds of the pools that schemas can have: those that are built from drafts whose own
types are built step by step and whose imports are reachable, and those that descriptors describe.

Whatever way a pool was reached, it is linked from its own declarations, and these are valid
(`Reachable.consistent`). Nothing else about how it was reached is needed further on.
-/

namespace ProtoSchema

/-- The pools of schemas. -/
inductive Pool.Reachable : Pool → Prop
  | build {d : Draft} {p : Pool} (messages : ∀ m ∈ d.messages, m.Built)
    (enums : ∀ e ∈ d.enums, e.Built) (imports : ∀ q ∈ d.imports, Reachable q)
    (h : d.build = .ok p) : Reachable p
  | parse {files : List Descriptor.File} {p : Pool} (h : Pool.ofDescriptors files = .ok p) :
    Reachable p

/-- The pool is linked from its own declarations, which are valid. -/
structure Pool.Consistent (p : Pool) : Prop where
  nonempty : p.decls ≠ []
  valid : ∀ r ∈ p.decls, r.Valid
  linked : Linked p.decls p

/-! ## Absolute declarations are valid -/

namespace MessageDecl

variable {p : Pool}

theorem absoluteList_eq_map (scope : String) (ms : List MessageDecl) :
    absoluteList p scope ms = ms.map (absolute p scope) := by
  induction ms with
  | nil => rw [absoluteList, List.map_nil]
  | cons m ms ih => rw [absoluteList, ih, List.map_cons]

theorem locallyValid_absolute {scope : String} {m : MessageDecl} (h : m.LocallyValid) :
    (m.absolute p scope).LocallyValid := by
  have hnames : ((m.messages.map (absolute p (Name.qualify scope m.name))).map name) =
      m.messages.map name := by
    rw [List.map_map]
    exact List.map_congr_left fun n _ => name_absolute _ n
  refine ⟨?_, ?_, ?_, ?_, ?_⟩
  · rw [fields_absolute, List.forall_mem_map]
    intro f hf
    have hv := h.fields f hf
    exact ⟨hv.name, hv.pos, hv.le, hv.unreserved⟩
  · rw [fields_absolute, List.map_map]
    exact h.numbers
  · rw [fields_absolute, List.map_map]
    exact h.names
  · rw [typeNames, messages_absolute, enums_absolute, absoluteList_eq_map, hnames]
    exact h.types
  · rw [enums_absolute]
    exact h.enums

theorem Valid.absolute {m : MessageDecl} (h : m.Valid) :
    ∀ scope : String, (m.absolute p scope).Valid := by
  induction h with
  | mk here _ ih =>
    intro scope
    refine .mk (locallyValid_absolute here) ?_
    rw [messages_absolute, absoluteList_eq_map, List.forall_mem_map]
    intro n hn
    exact ih n hn _

end MessageDecl

theorem RecordDecl.Valid.absolute {p : Pool} {r : RecordDecl} (h : r.Valid) :
    (r.absolute p).Valid where
  messages := by
    rw [RecordDecl.absolute, MessageDecl.absoluteList_eq_map, List.forall_mem_map]
    intro m hm
    exact (h.messages m hm).absolute r.package
  enums := h.enums

/-! ## Reachable pools are consistent -/

namespace Pool

/-- **A pool that valid records are linked to is consistent.** -/
theorem consistent_of_linked {rs : List RecordDecl} {p : Pool} (hne : rs ≠ [])
    (hv : ∀ r ∈ rs, r.Valid) (h : Linked rs p) : p.Consistent where
  nonempty := by
    rw [h.decls_eq]
    intro he
    exact hne (List.map_eq_nil_iff.1 he)
  valid := by
    rw [h.decls_eq, List.forall_mem_map]
    intro r hr
    exact (hv r hr).absolute
  linked := by
    rw [h.decls_eq]
    exact h.absolute

end Pool

namespace Descriptor

theorem Message.Admissible.valid {m : Message} (h : m.Admissible) : m.decl.Valid := by
  induction h with
  | mk _ _ _ here _ ih =>
    refine .mk here ?_
    rw [messages_decl, List.forall_mem_map]
    exact ih

theorem File.Admissible.valid {f : File} (h : f.Admissible) : f.decl.Valid where
  messages := by
    rw [decl, List.forall_mem_map]
    intro m hm
    exact (h.messages m hm).valid
  enums := by
    rw [decl, List.forall_mem_map]
    intro e he
    exact (h.enums e he).decl

end Descriptor

namespace Draft

theorem mem_imported {d : Draft} {r : RecordDecl} :
    r ∈ d.imported ↔ ∃ q ∈ d.imports, r ∈ q.decls := by
  rw [imported, List.mem_eraseDups, List.mem_flatMap]

/-- The records of a draft are valid when its own types and its imports are. -/
theorem valid_records {d : Draft} (hm : ∀ m ∈ d.messages, m.Valid) (he : ∀ e ∈ d.enums, e.Valid)
    (hi : ∀ q ∈ d.imports, q.Consistent) : ∀ r ∈ d.imported ++ [d.own], r.Valid := by
  rw [forall_mem_append_singleton]
  refine ⟨?_, ⟨hm, he⟩⟩
  intro r hr
  obtain ⟨q, hq, hrq⟩ := mem_imported.1 hr
  exact (hi q hq).valid r hrq

end Draft

/-- **Every reachable pool is consistent.** -/
theorem Pool.Reachable.consistent {p : Pool} (h : p.Reachable) : p.Consistent := by
  induction h with
  | @build d p hm he _ h ih =>
    have hvalid : ∀ r ∈ d.imported ++ [d.own], r.Valid :=
      Draft.valid_records (fun m hmem => (hm m hmem).valid) (fun e hmem => (he e hmem).valid) ih
    exact consistent_of_linked (by simp) hvalid (link_eq_ok_iff.1 h)
  | @parse files p h =>
    obtain ⟨hne, hadm, hlinked, -⟩ := ofDescriptors_eq_ok_iff.1 h
    refine consistent_of_linked (fun h => hne (List.map_eq_nil_iff.1 h)) ?_ hlinked
    rw [List.forall_mem_map]
    intro f hf
    exact (hadm f hf).valid

/-! ## Declarations of a consistent pool -/

/-- A type that is valid down to the innermost. -/
def TypeDecl.Valid : TypeDecl → Prop
  | message m => m.Valid
  | enum e => e.Valid

namespace MessageDecl

mutual

theorem valid_of_types (scope : String) : ∀ m : MessageDecl, m.Valid → ∀ t ∈ m.types scope, t.decl.Valid
  | ⟨name, fields, messages, enums⟩, hv => by
    rw [types, List.forall_mem_cons, List.forall_mem_append, List.forall_mem_map]
    exact ⟨hv, hv.here.enums, valid_of_typesList _ messages hv.nested⟩

theorem valid_of_typesList (scope : String) : ∀ ms : List MessageDecl,
    (∀ m ∈ ms, m.Valid) → ∀ t ∈ typesList scope ms, t.decl.Valid
  | [], _ => fun _ ht => absurd ht List.not_mem_nil
  | m :: ms, hv => by
    rw [List.forall_mem_cons] at hv
    rw [typesList, List.forall_mem_append]
    exact ⟨valid_of_types scope m hv.1, valid_of_typesList scope ms hv.2⟩

end

end MessageDecl

/-- The types that a valid record declares are valid. -/
theorem RecordDecl.Valid.of_types {r : RecordDecl} (h : r.Valid) : ∀ t ∈ r.types, t.decl.Valid := by
  rw [types, List.forall_mem_append, List.forall_mem_map]
  exact ⟨MessageDecl.valid_of_typesList _ _ h.messages, h.enums⟩

namespace Pool.Consistent

variable {p : Pool}

theorem valid_of_types (h : p.Consistent) {t : ScopedType}
    (ht : t ∈ p.decls.flatMap RecordDecl.types) : t.decl.Valid := by
  obtain ⟨r, hr, ht⟩ := List.mem_flatMap.1 ht
  exact (h.valid r hr).of_types t ht

/-- References in the declarations are absolute already. -/
theorem absolute_decl (h : p.Consistent) : ∀ r ∈ p.decls, r.absolute p = r :=
  List.map_inj_left.1 (h.linked.decls_eq.symm.trans (List.map_id _).symm)

theorem absolute_eq (h : p.Consistent) : ∀ t ∈ p.decls.flatMap RecordDecl.types,
    t.absolute p = t := by
  intro t ht
  obtain ⟨r, hmem, ht⟩ := List.mem_flatMap.1 ht
  have htypes : r.types.map (ScopedType.absolute p) = r.types.map id := by
    rw [← RecordDecl.types_absolute, h.absolute_decl r hmem, List.map_id]
  exact List.map_inj_left.1 htypes t ht

/-- **A declared field names the type that it refers to by a keyword or an absolute name.** -/
theorem kind?_field (h : p.Consistent) {scope : String} {m : MessageDecl}
    (hmem : ⟨scope, .message m⟩ ∈ p.decls.flatMap RecordDecl.types) {f : FieldDecl}
    (hf : f ∈ m.fields) : ∃ kind,
      Link.kind? p (Name.qualify scope m.name) f.typeName = some kind ∧
        f.typeName = p.typeName kind := by
  obtain ⟨-, d, -, -, hlinks⟩ := h.linked.message_of_types hmem
  obtain ⟨g, -, hlink⟩ := Traverse.exists_of_forall₂ hlinks hf
  obtain ⟨kind, value, hkind, -, -⟩ := Link.field_eq_ok_iff.1 hlink
  have hm : m.absolute p scope = m := by
    simpa [ScopedType.absolute] using h.absolute_eq _ hmem
  have hfields : m.fields.map (FieldDecl.absolute p (Name.qualify scope m.name)) =
      m.fields.map id := by
    rw [← MessageDecl.fields_absolute, hm, List.map_id]
  have hfield : f.absolute p (Name.qualify scope m.name) = f := List.map_inj_left.1 hfields f hf
  refine ⟨kind, hkind, ?_⟩
  rw [← congrArg FieldDecl.typeName hfield, FieldDecl.absolute, hkind]
  rfl

end Pool.Consistent

/-! ## Reachable pools -/

namespace Draft

/-- A schema with a message that refers to itself and to an enum that is nested in it. -/
def tree : Draft where
  name := "tree.proto"
  package := "forest"
  messages := [⟨"Tree", [⟨.repeated, "Tree", "branches", 1, none⟩,
    ⟨.optional, "Leaf", "leaf", 2, some "NEEDLE"⟩], [], [⟨"Leaf", [⟨"BROAD", 0⟩, ⟨"NEEDLE", 1⟩]⟩]⟩]
  enums := []
  imports := []

theorem tree_built : ∀ m ∈ tree.messages, m.Built := by
  have hbroad : EnumDecl.addValue ⟨"Leaf", []⟩ "BROAD" 0 = .ok ⟨"Leaf", [⟨"BROAD", 0⟩]⟩ := rfl
  have hneedle : EnumDecl.addValue ⟨"Leaf", [⟨"BROAD", 0⟩]⟩ "NEEDLE" 1 =
      .ok ⟨"Leaf", [⟨"BROAD", 0⟩, ⟨"NEEDLE", 1⟩]⟩ := rfl
  have hbranches : FieldDecl.make .repeated "Tree" "branches" 1 =
      .ok ⟨.repeated, "Tree", "branches", 1, none⟩ := rfl
  have hleaf : FieldDecl.make .optional "Leaf" "leaf" 2 =
      .ok ⟨.optional, "Leaf", "leaf", 2, none⟩ := rfl
  have htree := MessageDecl.Built.addEnum (.empty "Tree")
    (.addValue (.addValue (.empty "Leaf") hbroad) hneedle) rfl
  have htree := MessageDecl.Built.addField htree (.make hbranches) rfl
  have htree := MessageDecl.Built.addField htree (.withDefault "NEEDLE" (.make hleaf)) rfl
  intro m hm
  obtain rfl := List.mem_singleton.1 hm
  exact htree

theorem exists_tree : ∃ p, tree.build = .ok p ∧ p.Reachable := by
  have hok : tree.build.isOk = true := by decide
  obtain ⟨p, hp⟩ := Traverse.exists_of_isOk hok
  exact ⟨p, hp, .build tree_built (fun e he => absurd he List.not_mem_nil)
    (fun q hq => absurd hq List.not_mem_nil) hp⟩

/-- A schema with a message that holds at most one message of its own type. -/
def chain : Draft where
  name := "chain.proto"
  package := ""
  messages := [⟨"Link", [⟨.optional, "Link", "next", 1, none⟩,
    ⟨.repeated, "int32", "marks", 2, none⟩], [], []⟩]
  enums := []
  imports := []

theorem chain_built : ∀ m ∈ chain.messages, m.Built := by
  have hnext : FieldDecl.make .optional "Link" "next" 1 =
      .ok ⟨.optional, "Link", "next", 1, none⟩ := rfl
  have hmarks : FieldDecl.make .repeated "int32" "marks" 2 =
      .ok ⟨.repeated, "int32", "marks", 2, none⟩ := rfl
  have hlink := MessageDecl.Built.addField (.empty "Link") (.make hnext) rfl
  intro m hm
  obtain rfl := List.mem_singleton.1 hm
  exact .addField hlink (.make hmarks) rfl

end Draft

/-- The pool of the schema with a message that holds at most one of its own type. -/
def Pool.chain : Pool where
  records := [⟨"chain.proto", "", [], [0], []⟩]
  messages := [⟨"Link", "Link", 0, none, [⟨"next", 1, .optional, .message 0, none, .emptyMessage⟩,
    ⟨"marks", 2, .repeated, .scalar .int32, none, .emptyList⟩], [], []⟩]
  enums := []

theorem Pool.reachable_chain : Pool.chain.Reachable := by
  have hbuild : Draft.chain.build = .ok Pool.chain := rfl
  exact .build Draft.chain_built (fun e he => absurd he List.not_mem_nil)
    (fun q hq => absurd hq List.not_mem_nil) hbuild

end ProtoSchema
