import ProtoSchema.Proofs.Pool.Concat
import ProtoSchema.Proofs.Schema.Imports

/-!
# The order of imports

What building a draft comes to depends on which records are imported, and neither on the order nor on
how often or by way of which schema (`Draft.build_same_records`). Records are told apart by what they
declare; those of a pool are declared with absolute references, so a record stays the same through
every schema that hands it on (`Pool.Consistent.absolute_of_laidOut`).

Imported records have been linked before. Together they can be refused only because two of them
declare the same name (`Draft.exists_conflict_of_build`), and otherwise they are settled, so that the
draft's own record is linked behind them in whatever order they stand.
-/

namespace ProtoSchema

/-- What is kept of a list that may repeat itself does not repeat itself. -/
theorem nodup_eraseDups {α : Type} [BEq α] [LawfulBEq α] (as : List α) : as.eraseDups.Nodup := by
  induction h : as.length using Nat.strong_induction_on generalizing as with
  | _ n ih =>
    cases as with
    | nil => exact List.nodup_nil
    | cons a as =>
      -- What is left behind the first element is without it, and shorter.
      rw [List.eraseDups_cons, List.nodup_cons, List.mem_eraseDups]
      refine ⟨by simp, ih _ ?_ _ rfl⟩
      rw [← h, List.length_cons]
      exact Nat.lt_succ_of_le (List.length_filter_le _ _)

/-- **Records whose own names are different declare different names when no two of them share one.** -/
theorem RecordDecl.distinct_iff_apart {rs : List RecordDecl} (hn : rs.Nodup)
    (hown : ∀ r ∈ rs, (r.types.map ScopedType.fullName).Nodup) :
    ((rs.flatMap types).map ScopedType.fullName).Nodup ↔ Apart rs := by
  have hdeclares : ∀ {r : RecordDecl} {name : String},
      name ∈ r.types.map ScopedType.fullName ↔ Declares r.types name := List.mem_map
  rw [List.map_flatMap, List.nodup_flatMap]
  constructor
  · rintro ⟨-, hpair⟩ r hr s hs name hrn hsn
    by_contra hne
    have : Std.Symm (Function.onFun List.Disjoint fun r : RecordDecl =>
      r.types.map ScopedType.fullName) := ⟨fun _ _ hd _ hx hy => hd hy hx⟩
    exact hpair.forall hr hs hne (hdeclares.2 hrn) (hdeclares.2 hsn)
  · intro h
    refine ⟨hown, hn.pairwise_of_forall_ne fun r hr s hs hne name hrn hsn => ?_⟩
    exact hne (h r hr s hs name (hdeclares.1 hrn) (hdeclares.1 hsn))

/-! ## Records that are handed on -/

/-- **A record of a consistent pool is declared the same in every pool that has it.** -/
theorem Pool.Consistent.absolute_of_laidOut {rs : List RecordDecl} {p q : Pool} (hp : p.Consistent)
    (hq : LaidOut rs q) (hsub : p.decls ⊆ rs) : ∀ r ∈ p.decls, r.absolute q = r := by
  intro r hr
  have hsame : r.absolute q = r.absolute p := RecordDecl.absolute_congr fun scope m hm f hf =>
    hp.sameKind hq hsub (List.mem_flatMap.2 ⟨r, hr, hm⟩) hf
  rw [hsame, hp.absolute_decl r hr]

/-- The schema of the pool was built with an import of the other one, or of a schema that was. -/
inductive Pool.Imports : Pool → Pool → Prop
  | direct {d : Draft} {q p : Pool} (imports : ∀ r ∈ d.imports, r.Reachable) (h : d.build = .ok q)
    (mem : p ∈ d.imports) : Imports q p
  | through {q r p : Pool} (first : Imports q r) (rest : Imports r p) : Imports q p

namespace Draft

variable {d d' : Draft} {q q' : Pool}

/-- **The declarations of a built pool are those of its imports, each once, and its own.** -/
theorem decls_of_build (hi : ∀ p ∈ d.imports, p.Consistent) (h : d.build = .ok q) :
    q.decls = d.imported ++ [d.own.absolute q] := by
  have hq : Linked (d.imported ++ [d.own]) q := link_eq_ok_iff.1 h
  have himported : ∀ r ∈ d.imported, r.absolute q = r := by
    intro r hr
    obtain ⟨p, hp, hmem⟩ := mem_imported.1 hr
    refine (hi p hp).absolute_of_laidOut hq.laidOut ?_ r hmem
    exact fun s hs => List.mem_append_left _ (mem_imported.2 ⟨p, hp, hs⟩)
  rw [hq.decls_eq, List.map_append, List.map_singleton, List.map_congr_left himported, List.map_id']

theorem dropLast_decls_of_build (hi : ∀ p ∈ d.imports, p.Consistent) (h : d.build = .ok q) :
    q.decls.dropLast = d.imported := by
  rw [decls_of_build hi h, List.dropLast_concat]

/-- The dependencies of a built pool are the names of the imported records. -/
theorem dependencies_of_build (h : d.build = .ok q) :
    q.own.dependencies = (d.imported.map RecordDecl.name).eraseDups := by
  have hq : Linked (d.imported ++ [d.own]) q := link_eq_ok_iff.1 h
  obtain ⟨r, hr, -, hplaced⟩ := RecordDecl.placed_concat d.imported d.own
  rw [Pool.own, hq.records, hplaced, List.map_append, List.map_singleton, List.getLastD_concat,
    PlacedRecord.define, hr]
  rfl

end Draft

/-- A pool has the records of all schemas that it was built with. -/
theorem Pool.Imports.decls_subset {p q : Pool} (h : q.Imports p) :
    p.Reachable ∧ p.decls ⊆ q.decls := by
  induction h with
  | @direct d q p imports h mem =>
    refine ⟨imports p mem, fun r hr => ?_⟩
    rw [Draft.decls_of_build (fun r hr => (imports r hr).consistent) h]
    exact List.mem_append_left _ (Draft.mem_imported.2 ⟨p, mem, hr⟩)
  | through _ _ ihfirst ihrest => exact ⟨ihrest.1, List.Subset.trans ihrest.2 ihfirst.2⟩

/-! ## Imports together -/

namespace Draft

variable {d d' : Draft} {q q' : Pool}

theorem nodup_imported (d : Draft) : d.imported.Nodup := nodup_eraseDups _

theorem distinct_imported_iff (hi : ∀ p ∈ d.imports, p.Consistent) :
    ((d.imported.flatMap RecordDecl.types).map ScopedType.fullName).Nodup ↔
      RecordDecl.Apart d.imported := by
  refine RecordDecl.distinct_iff_apart d.nodup_imported fun r hr => ?_
  obtain ⟨p, hp, hmem⟩ := mem_imported.1 hr
  have hdistinct := (hi p hp).linked.distinct
  rw [List.map_flatMap, List.nodup_flatMap] at hdistinct
  exact hdistinct.1 r hmem

theorem plain_imported (hi : ∀ p ∈ d.imports, p.Consistent) :
    ∀ t ∈ d.imported.flatMap RecordDecl.types, Name.isPlain t.decl.name = true := by
  intro t ht
  obtain ⟨p, hp, ht⟩ := mem_imported_types.1 ht
  exact (hi p hp).linked.plain t ht

theorem values_imported (hi : ∀ p ∈ d.imports, p.Consistent) :
    ∀ t ∈ d.imported.flatMap RecordDecl.types, t.decl.lacksValues = false := by
  intro t ht
  obtain ⟨p, hp, ht⟩ := mem_imported_types.1 ht
  exact (hi p hp).linked.values t ht

/-- **Imports that share no names are settled.** -/
theorem settled_imported (hi : ∀ p ∈ d.imports, p.Consistent) (ha : RecordDecl.Apart d.imported) :
    Settled d.imported where
  plain := plain_imported hi
  values := values_imported hi
  distinct := (distinct_imported_iff hi).2 ha
  apart := ha
  fields types hsub scope m hm f hf := by
    obtain ⟨p, hp, hm⟩ := mem_imported_types.1 hm
    refine (hi p hp).resolves ?_ hm hf
    exact fun t ht => hsub (mem_imported_types.2 ⟨p, hp, ht⟩)

/-- **Imports that share names are refused for a conflict**, before anything of the draft is looked at. -/
theorem exists_conflict_of_build (hi : ∀ p ∈ d.imports, p.Consistent)
    (ha : ¬RecordDecl.Apart d.imported) :
    ∃ name record, d.build = .error (.conflict name record) := by
  obtain ⟨r, hr, -, hdeclared⟩ := Layout.declared_concat d.imported d.own
  obtain ⟨e, he, name, record, rfl⟩ : ∃ e,
      Link.enter (RecordDecl.placed 0 0 0 (d.imported ++ [d.own])) []
        (Layout.declared d.imported) = .error e ∧ ∃ name record, e = .conflict name record := by
    cases he : Link.enter (RecordDecl.placed 0 0 0 (d.imported ++ [d.own])) []
        (Layout.declared d.imported) with
    | ok u =>
      obtain ⟨-, -, hdistinct⟩ := enter_declared_eq_ok_iff.1 he
      exact absurd ((distinct_imported_iff hi).1 hdistinct) ha
    | error e =>
      refine ⟨e, rfl, ?_⟩
      have hmem : ∀ x ∈ Layout.declared d.imported,
          x.inScope ∈ d.imported.flatMap RecordDecl.types := by
        intro x hx
        rw [← Layout.map_inScope_declared]
        exact List.mem_map_of_mem hx
      rcases Link.enter_error he with ⟨x, hx, hplain, -⟩ | ⟨x, hx, hlacks, -⟩ | ⟨x, y, hsub, -, rfl⟩
      · have hp := plain_imported hi _ (hmem x hx)
        rw [x.name_inScope, hplain] at hp
        exact absurd hp Bool.false_ne_true
      · have hv := values_imported hi _ (hmem x hx)
        rw [x.lacksValues_inScope, hlacks] at hv
        exact absurd hv.symm Bool.false_ne_true
      · -- The first of the two is imported, so it is no duplicate.
        have hfirst : x ∈ Layout.declared d.imported := hsub.subset List.mem_cons_self
        have hlt := Layout.record_lt hfirst
        rw [RecordDecl.length_placed, List.length_append, List.length_singleton, Nat.add_sub_cancel,
          if_neg fun hown => absurd hown.1 (Nat.ne_of_lt hlt)]
        exact ⟨_, _, rfl⟩
  -- The draft's own names come behind the imported ones, and are not looked at.
  refine ⟨name, record, Traverse.fault?_eq_some.1 ?_⟩
  rw [build, Link.fault?_link, hdeclared, Link.enter_append, he]
  rfl

/-! ## Drafts with the same imported records -/

/-- The drafts say the same of themselves and import the same records, in whatever order and by way of
whichever schemas. -/
structure SameRecords (d d' : Draft) : Prop where
  name : d'.name = d.name
  package : d'.package = d.package
  messages : d'.messages = d.messages
  enums : d'.enums = d.enums
  records : ∀ r, (∃ p ∈ d'.imports, r ∈ p.decls) ↔ ∃ p ∈ d.imports, r ∈ p.decls

/-- Two different imported records declare a type of the same name. -/
def ImportsConflict (d : Draft) : Prop :=
  ∃ p ∈ d.imports, ∃ r ∈ p.decls, ∃ q ∈ d.imports, ∃ s ∈ q.decls,
    r ≠ s ∧ ∃ name, Declares r.types name ∧ Declares s.types name

theorem importsConflict_iff : d.ImportsConflict ↔ ¬RecordDecl.Apart d.imported := by
  constructor
  · rintro ⟨p, hp, r, hr, q, hq, s, hs, hne, name, hrn, hsn⟩ ha
    exact hne (ha r (mem_imported.2 ⟨p, hp, hr⟩) s (mem_imported.2 ⟨q, hq, hs⟩) name hrn hsn)
  · intro ha
    simp only [RecordDecl.Apart, not_forall] at ha
    obtain ⟨r, hr, s, hs, name, hrn, hsn, hne⟩ := ha
    obtain ⟨p, hp, hr⟩ := mem_imported.1 hr
    obtain ⟨q, hq, hs⟩ := mem_imported.1 hs
    exact ⟨p, hp, r, hr, q, hq, s, hs, hne, name, hrn, hsn⟩

namespace SameRecords

theorem symm (h : d.SameRecords d') : d'.SameRecords d :=
  ⟨h.name.symm, h.package.symm, h.messages.symm, h.enums.symm, fun r => (h.records r).symm⟩

theorem mem_imported_iff (h : d.SameRecords d') {r : RecordDecl} :
    r ∈ d.imported ↔ r ∈ d'.imported := by
  rw [mem_imported, mem_imported]
  exact (h.records r).symm

theorem own (h : d.SameRecords d') : d.own.Alike d'.own :=
  ⟨h.name, h.package, h.messages, h.enums⟩

theorem apart_iff (h : d.SameRecords d') :
    RecordDecl.Apart d.imported ↔ RecordDecl.Apart d'.imported := by
  simp only [RecordDecl.Apart, h.mem_imported_iff]

/-- **Drafts that import the same records are refused for the same reason**, unless two of these
records conflict. -/
theorem fault?_build (hi : ∀ p ∈ d.imports, p.Consistent) (hi' : ∀ p ∈ d'.imports, p.Consistent)
    (h : d.SameRecords d') (ha : RecordDecl.Apart d.imported) :
    Traverse.fault? d'.build = Traverse.fault? d.build :=
  Link.fault?_link_concat (settled_imported hi ha) (settled_imported hi' (h.apart_iff.1 ha))
    (fun _ => h.mem_imported_iff) h.own

/-- **Pools of drafts that import the same records have the same types.** -/
theorem exposes (h : d.SameRecords d') (hq : d.build = .ok q) (hq' : d'.build = .ok q') :
    q'.Exposes q := by
  have hl : Linked (d.imported ++ [d.own]) q := link_eq_ok_iff.1 hq
  have hl' : Linked (d'.imported ++ [d'.own]) q' := link_eq_ok_iff.1 hq'
  refine Linked.exposes_of_alike hl hl' ?_ fun scope m _ f _ =>
    Link.sameKind hl.laidOut hl'.laidOut fun t =>
      RecordDecl.mem_types_concat_iff (fun _ => h.mem_imported_iff) h.own
  intro r hr
  rcases List.mem_append.1 hr with hr | hr
  · exact ⟨r, List.mem_append_left _ (h.mem_imported_iff.1 hr), .refl r⟩
  · rw [List.mem_singleton.1 hr]
    exact ⟨d'.own, List.mem_append_right _ (List.mem_singleton.2 rfl), h.own⟩

theorem dependencies_perm (h : d.SameRecords d') (hq : d.build = .ok q) (hq' : d'.build = .ok q') :
    q'.own.dependencies.Perm q.own.dependencies := by
  rw [dependencies_of_build hq, dependencies_of_build hq',
    List.perm_ext_iff_of_nodup (nodup_eraseDups _) (nodup_eraseDups _)]
  intro name
  simp only [List.mem_eraseDups, List.mem_map, h.mem_imported_iff]

theorem exists_build (hi : ∀ p ∈ d.imports, p.Consistent) (hi' : ∀ p ∈ d'.imports, p.Consistent)
    (h : d.SameRecords d') (hq : ∃ q, d.build = .ok q) : ∃ q', d'.build = .ok q' := by
  -- A draft whose imports conflict cannot be built.
  have ha : RecordDecl.Apart d.imported := by
    by_contra ha
    obtain ⟨q, hq⟩ := hq
    obtain ⟨name, record, he⟩ := exists_conflict_of_build hi ha
    rw [hq] at he
    simp at he
  rw [← Traverse.fault?_eq_none] at hq ⊢
  rw [fault?_build hi hi' h ha, hq]

end SameRecords

/-- A draft that also imports what one of its imports has been built with. -/
theorem sameRecords_cons {p : Pool} (hq : q ∈ d.imports) (h : q.Imports p) :
    d.SameRecords { d with imports := p :: d.imports } where
  name := rfl
  package := rfl
  messages := rfl
  enums := rfl
  records r := by
    rw [List.exists_mem_cons_iff, or_iff_right_iff_imp]
    exact fun hr => ⟨q, hq, h.decls_subset.2 hr⟩

/-- **What a draft is built to depends on the imported records alone.** Of two drafts that import the
same records, both can be built or neither. The pools have each imported record once, the same types,
and the same dependencies in some order. If they cannot be built, the errors are the same one, or both
are conflicts because two imported records conflict. What is imported both directly and by way of
another import is no reason for a conflict. -/
theorem build_same_records {d d' : Draft} (hi : ∀ p ∈ d.imports, p.Reachable)
    (hi' : ∀ p ∈ d'.imports, p.Reachable) (h : d.SameRecords d') :
    ((∃ q, d.build = .ok q) ↔ ∃ q', d'.build = .ok q') ∧
      (∀ q q', d.build = .ok q → d'.build = .ok q' →
        (q.decls.dropLast.Nodup ∧ q'.decls.dropLast.Nodup ∧
          ∀ r, (r ∈ q.decls.dropLast ↔ ∃ p ∈ d.imports, r ∈ p.decls) ∧
            (r ∈ q'.decls.dropLast ↔ ∃ p ∈ d.imports, r ∈ p.decls)) ∧
        (q'.Exposes q ∧ q.Exposes q') ∧ q'.own.dependencies.Perm q.own.dependencies) ∧
      (∀ e e', d.build = .error e → d'.build = .error e' →
        (d.ImportsConflict → (∃ name record, e = .conflict name record) ∧
          ∃ name record, e' = .conflict name record) ∧
        (¬d.ImportsConflict → e' = e)) ∧
      ∀ p q, q ∈ d.imports → q.Imports p →
        ((∃ x, d.build = .ok x) ↔ ∃ x, build { d with imports := p :: d.imports } = .ok x) ∧
          ∀ name record, build { d with imports := p :: d.imports } = .error (.conflict name record) →
            ∃ name record, d.build = .error (.conflict name record) := by
  have hc : ∀ p ∈ d.imports, p.Consistent := fun p hp => (hi p hp).consistent
  have hc' : ∀ p ∈ d'.imports, p.Consistent := fun p hp => (hi' p hp).consistent
  refine ⟨⟨h.exists_build hc hc', h.symm.exists_build hc' hc⟩, ?_, ?_, ?_⟩
  · intro q q' hq hq'
    refine ⟨?_, ⟨h.exposes hq hq', h.symm.exposes hq' hq⟩, h.dependencies_perm hq hq'⟩
    rw [dropLast_decls_of_build hc hq, dropLast_decls_of_build hc' hq']
    refine ⟨d.nodup_imported, d'.nodup_imported, fun r => ⟨mem_imported, ?_⟩⟩
    rw [← h.mem_imported_iff, mem_imported]
  · intro e e' he he'
    rw [importsConflict_iff, not_not]
    constructor
    · intro ha
      obtain ⟨name, record, hb⟩ := exists_conflict_of_build hc ha
      obtain ⟨name', record', hb'⟩ := exists_conflict_of_build hc' (h.apart_iff.not.1 ha)
      rw [hb] at he
      rw [hb'] at he'
      exact ⟨⟨name, record, (Except.error.inj he).symm⟩, name', record', (Except.error.inj he').symm⟩
    · intro ha
      have hfault := h.fault?_build hc hc' ha
      rw [he, he'] at hfault
      exact Option.some.inj hfault
  · intro p q hq hp
    have hsame := sameRecords_cons hq hp
    have hmore : ∀ x ∈ p :: d.imports, x.Consistent :=
      List.forall_mem_cons.2 ⟨hp.decls_subset.1.consistent, hc⟩
    refine ⟨⟨hsame.exists_build hc hmore, hsame.symm.exists_build hmore hc⟩, ?_⟩
    intro name record hb
    by_cases ha : RecordDecl.Apart d.imported
    · refine ⟨name, record, Traverse.fault?_eq_some.1 ?_⟩
      rw [← hsame.fault?_build hc hmore ha, hb]
      rfl
    · exact exists_conflict_of_build hc ha

theorem reachable_anchor_imports : ∀ p ∈ anchor.imports, p.Reachable := by
  intro p hp
  obtain rfl := List.mem_singleton.1 hp
  exact Pool.reachable_chain

theorem anchor_built : ∀ m ∈ anchor.messages, m.Built := by
  have hfirst : FieldDecl.make .optional ".Link" "first" 1 =
      .ok ⟨.optional, ".Link", "first", 1, none⟩ := rfl
  have hown : FieldDecl.make .optional "Link" "own" 2 = .ok ⟨.optional, "Link", "own", 2, none⟩ := rfl
  have hone := MessageDecl.Built.addField (.empty "Anchor") (.make hfirst) rfl
  have htwo := MessageDecl.Built.addField hone (.make hown) rfl
  intro m hm
  rcases List.mem_cons.1 hm with rfl | hm
  · exact .empty "Link"
  · obtain rfl := List.mem_singleton.1 hm
    exact htwo

/-- A schema that refers to a type of an import and to one that the import has imported itself. -/
def harbor (imports : List Pool) : Draft where
  name := "harbor.proto"
  package := "sea"
  messages := [⟨"Harbor", [⟨.repeated, "Anchor", "anchors", 1, none⟩,
    ⟨.optional, ".Link", "boom", 2, none⟩], [], []⟩]
  enums := []
  imports := imports

theorem decls_anchor : Pool.anchor.decls = anchor.imported ++ [anchor.own.absolute Pool.anchor] :=
  decls_of_build (fun p hp => (reachable_anchor_imports p hp).consistent) build_anchor

theorem exists_harbor {imports : List Pool} (h : (harbor imports).imported =
    anchor.imported ++ [anchor.own.absolute Pool.anchor]) : ∃ q, (harbor imports).build = .ok q := by
  have hok : (harbor imports).build.isOk = true := by
    rw [build, own, h, own, imported_anchor]
    simp only [harbor]
    decide
  exact Traverse.exists_of_isOk hok

theorem reachable_harbor_imports {imports : List Pool}
    (h : ∀ p ∈ imports, p = Pool.chain ∨ p = Pool.anchor) :
    ∀ p ∈ (harbor imports).imports, p.Reachable := by
  intro p hp
  rcases h p hp with rfl | rfl
  · exact Pool.reachable_chain
  · exact .build anchor_built (fun e he => absurd he List.not_mem_nil) reachable_anchor_imports
      build_anchor

/-- What the anchors have been built with may also be imported by itself, before and after. -/
theorem sameRecords_harbor :
    (harbor [Pool.anchor]).SameRecords (harbor [Pool.chain, Pool.anchor, Pool.chain]) := by
  have hsub : Pool.chain.decls ⊆ Pool.anchor.decls :=
    (Pool.Imports.direct reachable_anchor_imports build_anchor
      (List.mem_singleton.2 rfl)).decls_subset.2
  refine ⟨rfl, rfl, rfl, rfl, fun r => ?_⟩
  simp only [harbor, List.mem_cons, List.not_mem_nil, or_false, exists_eq_or_imp, exists_eq_left]
  exact ⟨fun h => h.elim (hsub ·) fun h => h.elim id (hsub ·), fun h => Or.inr (Or.inl h)⟩

/-- Both drafts are built, each pool has the imported records once, and each exposes the other. -/
theorem build_same_records_harbor : ∃ q, anchor.build = .ok q ∧
    ((∃ x, (harbor [q]).build = .ok x) ↔
      ∃ x, (harbor [Pool.chain, q, Pool.chain]).build = .ok x) ∧
    ∃ x x', (harbor [q]).build = .ok x ∧ (harbor [Pool.chain, q, Pool.chain]).build = .ok x' ∧
      (x.decls.dropLast.Nodup ∧ x'.decls.dropLast.Nodup ∧
        ∀ r, (r ∈ x.decls.dropLast ↔ r ∈ q.decls) ∧ (r ∈ x'.decls.dropLast ↔ r ∈ q.decls)) ∧
      (x'.Exposes x ∧ x.Exposes x') ∧ x'.own.dependencies.Perm x.own.dependencies := by
  have himported : (harbor [Pool.anchor]).imported =
      anchor.imported ++ [anchor.own.absolute Pool.anchor] := by
    rw [imported, harbor, List.flatMap_singleton, decls_anchor, own, imported_anchor]
    rfl
  obtain ⟨x, hx⟩ := exists_harbor himported
  obtain ⟨hiff, hpools, -⟩ := build_same_records (reachable_harbor_imports (by simp))
    (reachable_harbor_imports (by simp)) sameRecords_harbor
  obtain ⟨x', hx'⟩ := hiff.1 ⟨x, hx⟩
  obtain ⟨⟨hnodup, hnodup', hrecords⟩, hexposes, hperm⟩ := hpools x x' hx hx'
  refine ⟨Pool.anchor, build_anchor, hiff, x, x', hx, hx', ⟨hnodup, hnodup', fun r => ?_⟩,
    hexposes, hperm⟩
  simpa [harbor] using hrecords r

end Draft

end ProtoSchema
