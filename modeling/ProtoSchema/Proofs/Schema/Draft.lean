import ProtoSchema.Proofs.Descriptor.Roundtrip
import ProtoSchema.Proofs.Pool.Refused

/-!
# When drafts can be built

`Draft.Consistent` says what a draft must satisfy for its schema to be built. It asks for the full
names of all types to be different, and everything else of the draft's own types only: what is
imported has been linked before, under absolute names, so it resolves among any types that hold its
own (`Draft.linkable_iff`).

The names that references are bound to depend on the declared names alone, not on the order in which
types are declared (`Link.typeName_congr`).

What is imported are the declarations of pools. Writing the imports out as descriptors and reading
these back gives the same declarations (`Draft.imported_of_descriptors`).
-/

namespace ProtoSchema

/-! ## What is asked of a draft -/

namespace Draft

/-- The types of a draft and of its imports. -/
def types (d : Draft) : List ScopedType := (d.imported ++ [d.own]).flatMap RecordDecl.types

theorem types_eq (d : Draft) : d.types = d.imported.flatMap RecordDecl.types ++ d.own.types := by
  rw [types, List.flatMap_append, List.flatMap_cons, List.flatMap_nil, List.append_nil]

/-- The draft can be built: its types are told apart by their full names, and its own types are well
declared. -/
structure Consistent (d : Draft) : Prop where
  distinct : (d.types.map ScopedType.fullName).Nodup
  plain : ∀ t ∈ d.own.types, t.decl.name ≠ "" ∧ '.' ∉ t.decl.name.toList
  values : ∀ t ∈ d.own.types, ∀ e, t.decl = .enum e → e.values ≠ []
  bound : ∀ scope m, ⟨scope, .message m⟩ ∈ d.own.types → ∀ f ∈ m.fields,
    Bound d.types (Name.qualify scope m.name) f.typeName
  defaults : ∀ scope m, ⟨scope, .message m⟩ ∈ d.own.types → ∀ f ∈ m.fields,
    ∀ text, f.default? = some text → f.label ≠ .repeated ∧
      ∃ target, Means d.types (Name.qualify scope m.name) f.typeName target ∧ target.Accepts text

end Draft

/-! ## Imports by their descriptors -/

/-- **Imports may be handed over by their descriptors.** Reading these is never refused, and the
records that are read, each once, are the imported ones. -/
theorem Draft.imported_of_descriptors {d : Draft} (hi : ∀ q ∈ d.imports, q.Consistent) :
    (d.imports.mapM fun q : Pool => q.describe.mapM Descriptor.File.toDecl).map (·.flatten.eraseDups) =
      .ok d.imported := by
  have hread : (d.imports.mapM fun q : Pool => q.describe.mapM Descriptor.File.toDecl) =
      .ok (d.imports.map Pool.decls) :=
    Traverse.mapM_eq_map fun q hq => (hi q hq).mapM_toDecl_describe
  rw [hread, imported, List.flatMap_def]
  rfl

/-! ## Imported types -/

/-- An absolute field resolves among any types that hold those it was linked with. -/
theorem FieldDecl.Resolves.mono {types types' : List ScopedType} {scope : String} {f : FieldDecl}
    (h : f.Resolves types scope) (hsub : types ⊆ types')
    (ha : (∃ t : ScalarType, f.typeName = t.keyword) ∨ ∃ name, f.typeName = "." ++ name) :
    f.Resolves types' scope := by
  obtain ⟨target, hmeans, hdefault⟩ := h
  refine ⟨target, ?_, hdefault⟩
  rcases ha with ⟨t, ht⟩ | ⟨name, hname⟩
  · rw [ht, means_keyword_iff] at hmeans ⊢
    exact hmeans
  · rw [hname, means_dot_iff] at hmeans ⊢
    obtain ⟨t, ht, hn⟩ := hmeans
    exact ⟨t, hsub ht, hn⟩

namespace Pool.Consistent

variable {p : Pool}

theorem linkable (h : p.Consistent) : Linkable p.decls := linkable_iff.2 ⟨p, h.linked⟩

/-- The declared fields of a consistent pool resolve among any types that hold the pool's own. -/
theorem resolves (h : p.Consistent) {types : List ScopedType}
    (hsub : p.decls.flatMap RecordDecl.types ⊆ types) {scope : String} {m : MessageDecl}
    (hm : ⟨scope, .message m⟩ ∈ p.decls.flatMap RecordDecl.types) {f : FieldDecl}
    (hf : f ∈ m.fields) : f.Resolves types (Name.qualify scope m.name) := by
  refine (h.linkable.fields scope m hm f hf).mono hsub ?_
  obtain ⟨kind, -, hkind⟩ := h.kind?_field hm hf
  cases kind with
  | scalar t => exact Or.inl ⟨t, hkind⟩
  | message i => exact Or.inr ⟨_, hkind⟩
  | enum i => exact Or.inr ⟨_, hkind⟩

end Pool.Consistent

namespace Draft

variable {d : Draft}

theorem mem_imported_types {t : ScopedType} : t ∈ d.imported.flatMap RecordDecl.types ↔
    ∃ q ∈ d.imports, t ∈ q.decls.flatMap RecordDecl.types := by
  simp only [List.mem_flatMap, mem_imported]
  constructor
  · rintro ⟨r, ⟨q, hq, hr⟩, ht⟩
    exact ⟨q, hq, r, hr, ht⟩
  · rintro ⟨q, hq, r, hr, ht⟩
    exact ⟨r, ⟨q, hq, hr⟩, ht⟩

/-- **The records of a draft can be linked when the draft is consistent.** -/
theorem linkable_iff (hi : ∀ q ∈ d.imports, q.Consistent) :
    Linkable (d.imported ++ [d.own]) ↔ d.Consistent := by
  have hmem : ∀ t, t ∈ (d.imported ++ [d.own]).flatMap RecordDecl.types ↔
      (∃ q ∈ d.imports, t ∈ q.decls.flatMap RecordDecl.types) ∨ t ∈ d.own.types := by
    intro t
    rw [← mem_imported_types, ← List.mem_append, ← types_eq]
    exact Iff.rfl
  constructor
  · rintro ⟨hplain, hvalues, hdistinct, hfields⟩
    have hown : ∀ t ∈ d.own.types, t ∈ (d.imported ++ [d.own]).flatMap RecordDecl.types :=
      fun t ht => (hmem t).2 (Or.inr ht)
    refine ⟨hdistinct, fun t ht => Name.isPlain_iff.1 (hplain t (hown t ht)), ?_, ?_, ?_⟩
    · rintro ⟨scope, decl⟩ ht e rfl hnil
      have hlacks : e.values.isEmpty = false := hvalues _ (hown _ ht)
      rw [hnil] at hlacks
      exact absurd hlacks (by decide)
    · intro scope m hm f hf
      obtain ⟨target, hmeans, -⟩ := hfields scope m (hown _ hm) f hf
      exact exists_means_iff.1 ⟨target, hmeans⟩
    · intro scope m hm f hf text htext
      obtain ⟨target, hmeans, hdefault⟩ := hfields scope m (hown _ hm) f hf
      exact ⟨(hdefault text htext).1, target, hmeans, (hdefault text htext).2⟩
  · rintro ⟨hdistinct, hplain, hvalues, hbound, hdefaults⟩
    refine ⟨?_, ?_, hdistinct, ?_⟩
    · intro t ht
      rcases (hmem t).1 ht with ⟨q, hq, htq⟩ | hown
      · exact (hi q hq).linked.plain t htq
      · exact Name.isPlain_iff.2 (hplain t hown)
    · intro t ht
      rcases (hmem t).1 ht with ⟨q, hq, htq⟩ | hown
      · exact (hi q hq).linked.values t htq
      · obtain ⟨scope, m | e⟩ := t
        · rfl
        · exact List.isEmpty_eq_false_iff.2 (hvalues _ hown e rfl)
    · intro scope m hm f hf
      -- Imported fields resolved before; own ones are what the draft's conditions are about.
      rcases (hmem _).1 hm with ⟨q, hq, hmq⟩ | hown
      · exact (hi q hq).resolves (fun t ht => (hmem t).2 (Or.inl ⟨q, hq, ht⟩)) hmq hf
      · cases hd : f.default? with
        | none =>
          obtain ⟨target, hmeans⟩ := exists_means_iff.2 (hbound scope m hown f hf)
          exact ⟨target, hmeans, fun text htext => by simp [hd] at htext⟩
        | some text =>
          obtain ⟨hlabel, target, hmeans, haccepts⟩ := hdefaults scope m hown f hf text hd
          refine ⟨target, hmeans, ?_⟩
          intro text' htext
          obtain rfl : text = text' := by simpa [hd] using htext
          exact ⟨hlabel, haccepts⟩

/-- **A draft is refused only for a condition that is violated**, and other than by its name only for
one of its own types. -/
theorem refuses_of_build (hi : ∀ q ∈ d.imports, q.Consistent) {e : LinkError}
    (h : d.build = .error e) : Link.Refuses d.imported d.own d.own.types e := by
  have hmem : ∀ t ∈ (d.imported ++ [d.own]).flatMap RecordDecl.types,
      (∃ q ∈ d.imports, t ∈ q.decls.flatMap RecordDecl.types) ∨ t ∈ d.own.types := by
    intro t ht
    rwa [← mem_imported_types, ← List.mem_append, ← types_eq]
  -- What is imported has been linked before, so its types are not to blame.
  have hresolves : ∀ q ∈ d.imports, ∀ scope m, ⟨scope, .message m⟩ ∈ q.decls.flatMap RecordDecl.types →
      ∀ f ∈ m.fields, f.Resolves ((d.imported ++ [d.own]).flatMap RecordDecl.types)
        (Name.qualify scope m.name) := by
    intro q hq scope m hm f hf
    refine (hi q hq).resolves ?_ hm hf
    intro t ht
    rw [List.flatMap_append]
    exact List.mem_append_left _ (mem_imported_types.2 ⟨q, hq, ht⟩)
  cases Link.refuses_of_link h with
  | @notPlain t mem name =>
    rcases hmem t mem with ⟨q, hq, ht⟩ | hown
    · have hplain := Name.isPlain_iff.1 ((hi q hq).linked.plain t ht)
      rcases name with hempty | hdot
      · exact absurd hempty hplain.1
      · exact absurd hdot hplain.2
    · exact .notPlain hown name
  | @noValues scope e mem lacks =>
    rcases hmem _ mem with ⟨q, hq, ht⟩ | hown
    · have hvalues : e.values.isEmpty = false := (hi q hq).linked.values _ ht
      rw [lacks] at hvalues
      exact absurd hvalues (by decide)
    · exact .noValues hown lacks
  | duplicate twice => exact .duplicate twice
  | conflict mem declares twice => exact .conflict mem declares twice
  | @unresolved scope m f mem field unbound =>
    rcases hmem _ mem with ⟨q, hq, ht⟩ | hown
    · obtain ⟨target, hmeans, -⟩ := hresolves q hq scope m ht f field
      exact absurd (exists_means_iff.1 ⟨target, hmeans⟩) unbound
    · exact .unresolved hown field unbound
  | @invalidDefault scope m f text fault mem field declared unfit =>
    rcases hmem _ mem with ⟨q, hq, ht⟩ | hown
    · obtain ⟨target, hmeans, hdefault⟩ := hresolves q hq scope m ht f field
      exact absurd (hdefault text declared) (unfit target hmeans)
    · exact .invalidDefault hown field declared unfit

end Draft

/-! ## What references are bound to -/

namespace Link

variable {rs rs' : List RecordDecl} {p q : Pool} {scope reference : String}

/-- The name of the type that a reference is bound to is the first candidate that is declared. -/
theorem typeName_kind? (hk : ScalarType.ofKeyword? reference = none) :
    (kind? p scope reference).map p.typeName =
      ((Name.candidates scope reference).find? fun n => (p.find? n).isSome).map ("." ++ ·) := by
  rw [kind?, hk]
  simp only [Option.map_map]
  induction Name.candidates scope reference with
  | nil => rfl
  | cons n ns ih =>
    rw [List.findSome?_cons, List.find?_cons]
    cases hf : p.find? n with
    | none => exact ih
    | some ref =>
      cases ref with
      | message i =>
        show some ("." ++ (p.message i).fullName) = some ("." ++ n)
        rw [(Pool.fullName_of_find?_message hf).2]
      | enum i =>
        show some ("." ++ (p.enum i).fullName) = some ("." ++ n)
        rw [(Pool.fullName_of_find?_enum hf).2]

/-- **The names that references are bound to depend on the declared names alone.** -/
theorem typeName_congr (hp : LaidOut rs p) (hq : LaidOut rs' q)
    (h : ∀ name, Declares (rs.flatMap RecordDecl.types) name ↔
      Declares (rs'.flatMap RecordDecl.types) name) :
    (kind? p scope reference).map p.typeName = (kind? q scope reference).map q.typeName := by
  cases hk : ScalarType.ofKeyword? reference with
  | some t =>
    rw [kind?, kind?, hk]
    rfl
  | none =>
    have hfind : (fun n => (p.find? n).isSome) = fun n => (q.find? n).isSome := by
      funext n
      rw [Bool.eq_iff_iff, hp.find?_isSome_iff, hq.find?_isSome_iff]
      exact h n
    rw [typeName_kind? hk, typeName_kind? hk, hfind]

end Link

/-- **A field is linked to what its type means.** -/
theorem Link.kind?_of_field {rs : List RecordDecl} {p : Pool} {scope : String} (h : LaidOut rs p)
    {f : FieldDecl} {g : FieldDef} (hlink : field p scope f = .ok g) :
    g.name = f.name ∧ (∃ target, Means (rs.flatMap RecordDecl.types) scope f.typeName target) ∧
      ∀ target, Means (rs.flatMap RecordDecl.types) scope f.typeName target →
        target.kind? p = some g.kind := by
  obtain ⟨kind, value, hkind, -, rfl⟩ := field_eq_ok_iff.1 hlink
  obtain ⟨target, hmeans, -⟩ := (kind?_eq_some_iff h).1 hkind
  refine ⟨rfl, ⟨target, hmeans⟩, ?_⟩
  intro target' hmeans'
  obtain ⟨kind', hk⟩ := hmeans'.kind?_isSome h
  have hkind' := (kind?_eq_some_iff h).2 ⟨target', hmeans', hk⟩
  rw [hk, ← hkind', hkind]

/-! ## Building -/

namespace Draft

/-- **A draft can be built exactly when it is consistent.** Each reference of its own is then bound to
what it means in its scope, and the names that references are bound to are the same for all drafts
that declare the same names. If it cannot be built, the error stands for a condition that is
violated. -/
theorem build_consistent {d : Draft} (hi : ∀ q ∈ d.imports, q.Reachable) :
    ((∃ p, d.build = .ok p) ↔ d.Consistent) ∧
      (∀ p, d.build = .ok p → ∀ scope m, ⟨scope, .message m⟩ ∈ d.own.types →
        ∃ i def', p.find? (Name.qualify scope m.name) = some (.message i) ∧
          p.messages[i]? = some def' ∧ List.Forall₂ (fun f g => g.name = f.name ∧
            (∃ target, Means d.types (Name.qualify scope m.name) f.typeName target) ∧
            ∀ target, Means d.types (Name.qualify scope m.name) f.typeName target →
              target.kind? p = some g.kind) m.fields def'.fields) ∧
      (∀ d' p p', (∀ name, Declares d.types name ↔ Declares d'.types name) → d.build = .ok p →
        build d' = .ok p' → ∀ scope reference, (Link.kind? p scope reference).map p.typeName =
          (Link.kind? p' scope reference).map p'.typeName) ∧
      ∀ e, d.build = .error e → Link.Refuses d.imported d.own d.own.types e := by
  refine ⟨?_, ?_, ?_, fun e => refuses_of_build fun q hq => (hi q hq).consistent⟩
  · rw [← linkable_iff fun q hq => (hi q hq).consistent, ProtoSchema.linkable_iff]
    simp only [build, link_eq_ok_iff]
  · intro p h scope m hm
    have hlinked := link_eq_ok_iff.1 h
    have hmem : ⟨scope, .message m⟩ ∈ d.types := by
      rw [types_eq]
      exact List.mem_append_right _ hm
    obtain ⟨i, def', hfind, hdef, hlinks⟩ := hlinked.message_of_types hmem
    exact ⟨i, def', hfind, hdef, hlinks.imp fun _ _ => Link.kind?_of_field hlinked.laidOut⟩
  · intro d' p p' hd h h' scope reference
    exact Link.typeName_congr (link_eq_ok_iff.1 h).laidOut (link_eq_ok_iff.1 h').laidOut hd

/-- A schema that imports others and refers to one of their types from within a nested message. -/
def grove (imports : List Pool) : Draft where
  name := "grove.proto"
  package := "forest.old"
  messages := [⟨"Grove", [], [⟨"Row", [⟨.repeated, "Tree", "trees", 1, none⟩], [], []⟩], []⟩]
  enums := []
  imports := imports

section Grove

variable {q : Pool}

theorem fullName_types_grove (hq : tree.build = .ok q) : (grove [q]).types.map ScopedType.fullName =
    ["forest.Tree", "forest.Tree.Leaf", "forest.old.Grove", "forest.old.Grove.Row"] := by
  have hdecls : q.decls = [tree.own.absolute q] := (link_eq_ok_iff.1 hq).decls_eq
  have himported : (grove [q]).imported = [tree.own.absolute q] := by
    rw [imported, grove, List.flatMap_singleton, hdecls, List.eraseDups_cons]
    rfl
  have hfull : ScopedType.fullName ∘ ScopedType.absolute q = ScopedType.fullName :=
    funext (ScopedType.fullName_absolute q)
  rw [types_eq, himported, List.flatMap_singleton, RecordDecl.types_absolute, List.map_append,
    List.map_map, hfull]
  rfl

/-- Of the names that the reference may mean, only the one in the outermost package is declared. -/
theorem means_grove (hq : tree.build = .ok q) : ∃ t, t.fullName = "forest.Tree" ∧
    Means (grove [q]).types "forest.old.Grove.Row" "Tree" (.named t) := by
  have hnames := fullName_types_grove hq
  have htree : "forest.Tree" ∈ (grove [q]).types.map ScopedType.fullName := by
    rw [hnames]
    exact List.mem_cons_self
  obtain ⟨t, ht, hname⟩ := List.mem_map.1 htree
  have hrelative : Relative "Tree" := relative_iff.2 ⟨rfl, rfl⟩
  have hencloses : Name.Encloses "forest" "forest.old.Grove.Row" :=
    ⟨by decide, Or.inr ⟨"old.Grove.Row", rfl⟩⟩
  have hlonger : ∀ longer ∈ Name.scopes "forest.old.Grove.Row", "forest".length < longer.length →
      ∀ name ∈ ["forest.Tree", "forest.Tree.Leaf", "forest.old.Grove", "forest.old.Grove.Row"],
        name ≠ longer ++ "." ++ "Tree" := by decide
  refine ⟨t, hname, .enclosed hrelative hencloses ht hname ?_⟩
  intro longer hl hlt u hu
  refine hlonger longer (Name.mem_scopes_iff.2 hl) hlt _ ?_
  rw [← hnames]
  exact List.mem_map_of_mem hu

theorem own_types_grove (imports : List Pool) : (grove imports).own.types =
    [⟨"forest.old", .message ⟨"Grove", [],
        [⟨"Row", [⟨.repeated, "Tree", "trees", 1, none⟩], [], []⟩], []⟩⟩,
      ⟨"forest.old.Grove", .message ⟨"Row", [⟨.repeated, "Tree", "trees", 1, none⟩], [], []⟩⟩] :=
  rfl

theorem consistent_grove (hq : tree.build = .ok q) : (grove [q]).Consistent := by
  have hfield : ∀ scope m, ⟨scope, .message m⟩ ∈ (grove [q]).own.types → ∀ f ∈ m.fields,
      Name.qualify scope m.name = "forest.old.Grove.Row" ∧
        f = ⟨.repeated, "Tree", "trees", 1, none⟩ := by
    intro scope m hm f hf
    rw [own_types_grove] at hm
    simp only [List.mem_cons, ScopedType.mk.injEq, TypeDecl.message.injEq, List.not_mem_nil,
      or_false] at hm
    rcases hm with ⟨-, rfl⟩ | ⟨rfl, rfl⟩
    · exact absurd hf List.not_mem_nil
    · exact ⟨rfl, List.mem_singleton.1 hf⟩
  refine ⟨?_, ?_, ?_, ?_, ?_⟩
  · rw [fullName_types_grove hq]
    decide
  · rw [own_types_grove]
    decide
  · rw [own_types_grove]
    simp
  · intro scope m hm f hf
    obtain ⟨hscope, rfl⟩ := hfield scope m hm f hf
    obtain ⟨t, -, hmeans⟩ := means_grove hq
    exact exists_means_iff.1 ⟨_, hscope ▸ hmeans⟩
  · intro scope m hm f hf text htext
    obtain ⟨-, rfl⟩ := hfield scope m hm f hf
    simp at htext

/-- The draft is consistent, so it is built, and the field of the inner message gets the type that is
imported. -/
theorem build_consistent_grove : ∃ q, tree.build = .ok q ∧
    ((∃ p, (grove [q]).build = .ok p) ↔ (grove [q]).Consistent) ∧
      ∃ p i row trees, (grove [q]).build = .ok p ∧
        p.find? "forest.old.Grove.Row" = some (.message i) ∧ p.messages[i]? = some row ∧
          row.fields = [trees] ∧ trees.name = "trees" ∧
            (p.find? "forest.Tree").map Link.kindOf = some trees.kind := by
  obtain ⟨q, hq, hreachable⟩ := exists_tree
  have himports : ∀ r ∈ (grove [q]).imports, r.Reachable := by
    intro r hr
    obtain rfl := List.mem_singleton.1 hr
    exact hreachable
  obtain ⟨hiff, hbinds, -⟩ := build_consistent himports
  obtain ⟨p, hp⟩ := hiff.2 (consistent_grove hq)
  have hrow : ⟨"forest.old.Grove", .message ⟨"Row", [⟨.repeated, "Tree", "trees", 1, none⟩], [], []⟩⟩ ∈
      (grove [q]).own.types := by
    rw [own_types_grove]
    exact List.mem_cons_of_mem _ List.mem_cons_self
  obtain ⟨i, row, hfind, hget, hfields⟩ := hbinds p hp _ _ hrow
  obtain ⟨trees, rest, ⟨hname, -, hkind⟩, hrest, heq⟩ := List.forall₂_cons_left_iff.1 hfields
  obtain rfl := List.forall₂_nil_left_iff.1 hrest
  obtain ⟨t, ht, hmeans⟩ := means_grove hq
  exact ⟨q, hq, hiff, p, i, row, trees, hp, hfind, hget, heq, hname, ht ▸ hkind _ hmeans⟩

end Grove

end Draft

end ProtoSchema
