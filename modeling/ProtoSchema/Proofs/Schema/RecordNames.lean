import ProtoSchema.Proofs.Schema.Closed

/-!
# Names of records

A record lists what it depends on by name. Building keeps the imported records apart by all that they
say, and the names in the list from one another; the names of the records themselves are compared
nowhere. So a name in the list is always that of a record in front, but it may be that of several, or
that of the record itself.

**The names identify the records exactly when** the schema is named like no imported record, and
imported records of the same name are the same (`Draft.identified_iff`).
-/

namespace ProtoSchema

/-- No two files have the same name, and each dependency of a file is the name of one file, which is
another one. -/
structure Descriptor.File.Identified (files : List File) : Prop where
  names : (files.map (·.name?)).Nodup
  dependencies : ∀ f ∈ files, ∀ n ∈ f.dependencies,
    f.name? ≠ some n ∧ ∃! g, g ∈ files ∧ g.name? = some n

namespace Pool

variable {p : Pool}

/-- **No record of a pool that has been built lists a name twice.** -/
theorem Assembled.nodup_dependencies (h : p.Assembled) : ∀ r ∈ p.decls, r.dependencies.Nodup := by
  induction h with
  | @build d p _ _ imports h ih =>
    rw [Draft.decls_of_build (fun q hq => (imports q hq).reachable.consistent) h,
      forall_mem_append_singleton]
    constructor
    · intro r hr
      obtain ⟨q, hq, hmem⟩ := Draft.mem_imported.1 hr
      exact ih q hq r hmem
    · exact nodup_eraseDups _

/-- What a file depends on stands in front of it. -/
theorem Assembled.dependencies_in_front (h : p.Assembled) : ∀ front f back,
    p.describe = front ++ f :: back → ∀ n ∈ f.dependencies, ∃ g ∈ front, g.name? = some n := by
  intro front f back hsplit n hn
  obtain ⟨front, rest, hdecls, rfl, hrest⟩ := List.map_eq_append_iff.1 hsplit
  obtain ⟨r, back, rfl, rfl, -⟩ := List.map_eq_cons_iff.1 hrest
  obtain ⟨s, hs, rfl⟩ := (h.closed.closedOver hdecls).dependencies n hn
  exact ⟨_, List.mem_map_of_mem hs, rfl⟩

theorem nodup_names_describe :
    (p.describe.map (·.name?)).Nodup ↔ (p.decls.map RecordDecl.name).Nodup := by
  have hnames : p.describe.map (·.name?) = (p.decls.map RecordDecl.name).map some := by
    rw [describe, List.map_map, List.map_map]
    rfl
  rw [hnames, List.nodup_map_iff fun _ _ => Option.some.inj]

/-- **Where the names of the records are distinct, they identify them.** What a record depends on stands
in front of it, so it is not the record itself. -/
theorem Assembled.identified_iff_nodup (h : p.Assembled) :
    Descriptor.File.Identified p.describe ↔ (p.decls.map RecordDecl.name).Nodup := by
  refine ⟨fun hi => nodup_names_describe.1 hi.names, fun hn => ⟨nodup_names_describe.2 hn, ?_⟩⟩
  intro f hf n hdep
  obtain ⟨front, back, hsplit⟩ := List.append_of_mem hf
  obtain ⟨g, hg, hname⟩ := h.dependencies_in_front front f back hsplit n hdep
  have hmem : g ∈ p.describe := hsplit ▸ List.mem_append_left _ hg
  constructor
  · -- A file of its own name would be in front of it.
    intro hown
    have hdistinct := nodup_names_describe.2 hn
    rw [hsplit, List.map_append] at hdistinct
    exact (List.nodup_append.1 hdistinct).2.2 _ (List.mem_map_of_mem hg) _
      (List.mem_map_of_mem List.mem_cons_self) (hname.trans hown.symm)
  · refine ⟨g, ⟨hmem, hname⟩, ?_⟩
    rintro g' ⟨hmem', hname'⟩
    exact List.inj_on_of_nodup_map (nodup_names_describe.2 hn) hmem' hmem (hname'.trans hname.symm)

end Pool

namespace Draft

variable {d : Draft} {p : Pool}

/-- The draft is named like no record that it imports, and imported records of the same name are the
same record. -/
structure NamesRecordsApart (d : Draft) : Prop where
  own : ∀ q ∈ d.imports, ∀ r ∈ q.decls, r.name ≠ d.name
  imported : ∀ q ∈ d.imports, ∀ r ∈ q.decls, ∀ q' ∈ d.imports, ∀ r' ∈ q'.decls,
    r.name = r'.name → r = r'

theorem nodup_name_iff :
    ((d.imported ++ [d.own]).map RecordDecl.name).Nodup ↔ d.NamesRecordsApart := by
  rw [List.map_append, List.map_singleton, ← List.concat_eq_append, List.nodup_concat,
    List.nodup_map_iff_inj_on d.nodup_imported]
  constructor
  · rintro ⟨hown, hinj⟩
    refine ⟨fun q hq r hr heq => hown ?_, fun q hq r hr q' hq' r' hr' heq => ?_⟩
    · exact List.mem_map.2 ⟨r, mem_imported.2 ⟨q, hq, hr⟩, heq⟩
    · exact hinj r (mem_imported.2 ⟨q, hq, hr⟩) r' (mem_imported.2 ⟨q', hq', hr'⟩) heq
  · rintro ⟨hown, himported⟩
    constructor
    · intro hmem
      obtain ⟨r, hr, heq⟩ := List.mem_map.1 hmem
      obtain ⟨q, hq, hr⟩ := mem_imported.1 hr
      exact hown q hq r hr heq
    · intro r hr r' hr' heq
      obtain ⟨q, hq, hr⟩ := mem_imported.1 hr
      obtain ⟨q', hq', hr'⟩ := mem_imported.1 hr'
      exact himported q hq r hr q' hq' r' hr' heq

/-- **When dependencies identify records.** Of a schema that is built, and so are its imports, each file
lists each dependency once, and it is the name of a file in front. The names are distinct, and each
dependency is the name of exactly one other file, exactly when the schema is named like no record that
it imports and imported records of the same name are the same. -/
theorem identified_iff (messages : ∀ m ∈ d.messages, m.Built) (enums : ∀ e ∈ d.enums, e.Built)
    (imports : ∀ q ∈ d.imports, q.Assembled) (h : d.build = .ok p) :
    (∀ front f back, p.describe = front ++ f :: back →
      f.dependencies.Nodup ∧ ∀ n ∈ f.dependencies, ∃ g ∈ front, g.name? = some n) ∧
        (Descriptor.File.Identified p.describe ↔ d.NamesRecordsApart) := by
  have hp : p.Assembled := .build messages enums imports h
  constructor
  · intro front f back hsplit
    refine ⟨?_, hp.dependencies_in_front front f back hsplit⟩
    have hf : f ∈ p.describe := by
      rw [hsplit]
      exact List.mem_append_right _ List.mem_cons_self
    obtain ⟨r, hr, rfl⟩ := List.mem_map.1 hf
    exact hp.nodup_dependencies r hr
  · have hdecls := decls_of_build (fun q hq => (imports q hq).reachable.consistent) h
    rw [hp.identified_iff_nodup, ← nodup_name_iff, hdecls, List.map_append, List.map_append]
    rfl

theorem identified_iff_harbor :
    ∃ p, (harbor [Pool.anchor, Pool.chain, Pool.anchor]).build = .ok p ∧
      Descriptor.File.Identified p.describe := by
  obtain ⟨p, hp⟩ := exists_harbor imported_harbor
  have henums : ∀ e ∈ (harbor [Pool.anchor, Pool.chain, Pool.anchor]).enums, e.Built :=
    fun e he => absurd he List.not_mem_nil
  have happart : (harbor [Pool.anchor, Pool.chain, Pool.anchor]).NamesRecordsApart := by
    rw [← nodup_name_iff, imported_harbor, own, imported_anchor]
    decide
  exact ⟨p, hp,
    (identified_iff (harbor_built _) henums Pool.assembled_harbor_imports hp).2.2 happart⟩

/-- A schema with one message, in a package, that imports others. -/
def shelf (name package : String) (imports : List Pool) : Draft where
  name := name
  package := package
  messages := [⟨"Book", [], [], []⟩]
  enums := []
  imports := imports

theorem exists_shelf (name package : String) {imports : List Pool}
    (himports : ∀ q ∈ imports, q.Assembled)
    (hok : (shelf name package imports).build.isOk = true) :
    ∃ p, (shelf name package imports).build = .ok p ∧ p.Assembled := by
  obtain ⟨p, hp⟩ := Traverse.exists_of_isOk hok
  refine ⟨p, hp, .build ?_ (fun e he => absurd he List.not_mem_nil) himports hp⟩
  intro m hm
  obtain rfl := List.mem_singleton.1 hm
  exact .empty "Book"

end Draft

/-- The pool of a shelf in a package, without imports. -/
def Pool.shelf (package : String) : Pool where
  records := [⟨"shelf.proto", package, [], [0], []⟩]
  messages := [⟨"Book", Name.qualify package "Book", 0, none, [], [], []⟩]
  enums := []

theorem Pool.assembled_shelf {package : String}
    (h : (Draft.shelf "shelf.proto" package []).build = .ok (Pool.shelf package)) :
    (Pool.shelf package).Assembled := by
  refine .build ?_ (fun e he => absurd he List.not_mem_nil) (fun q hq => absurd hq List.not_mem_nil) h
  intro m hm
  obtain rfl := List.mem_singleton.1 hm
  exact .empty "Book"

/-- **The names need not identify the records.** Two shelves of one name can be imported together, and a
shelf can import one of its own name. -/
theorem Pool.Assembled.not_identified :
    (¬ ∀ p : Pool, p.Assembled → (p.describe.map (·.name?)).Nodup) ∧
      ¬ ∀ p : Pool, p.Assembled → ∀ f ∈ p.describe, ∀ n ∈ f.dependencies, f.name? ≠ some n := by
  have ha : (Pool.shelf "a").Assembled := Pool.assembled_shelf (by cbv)
  have hb : (Pool.shelf "b").Assembled := Pool.assembled_shelf (by cbv)
  constructor
  · intro h
    have himports : ∀ q ∈ [Pool.shelf "a", Pool.shelf "b"], q.Assembled := by
      intro q hq
      rcases List.mem_cons.1 hq with rfl | hq
      · exact ha
      · exact List.mem_singleton.1 hq ▸ hb
    obtain ⟨p, hp, hassembled⟩ := Draft.exists_shelf "library.proto" "" himports (by cbv)
    have hdecls := Draft.decls_of_build (fun q hq => (himports q hq).reachable.consistent) hp
    have himported : (Draft.shelf "library.proto" "" [Pool.shelf "a", Pool.shelf "b"]).imported.map
        RecordDecl.name = ["shelf.proto", "shelf.proto"] := by cbv
    have hnames := h p hassembled
    rw [nodup_names_describe, hdecls, List.map_append, himported] at hnames
    exact absurd (List.nodup_append.1 hnames).1 (by decide)
  · intro h
    have himports : ∀ q ∈ [Pool.shelf "a"], q.Assembled := fun q hq => List.mem_singleton.1 hq ▸ ha
    obtain ⟨p, hp, hassembled⟩ := Draft.exists_shelf "shelf.proto" "b" himports (by cbv)
    have hdecls := Draft.decls_of_build (fun q hq => (himports q hq).reachable.consistent) hp
    have hown : (Draft.shelf "shelf.proto" "b" [Pool.shelf "a"]).own.dependencies = ["shelf.proto"] := by
      cbv
    refine h p hassembled _ (List.mem_map_of_mem (hdecls ▸ List.mem_append_right _
      (List.mem_singleton.2 rfl))) "shelf.proto" ?_ rfl
    show "shelf.proto" ∈ (Draft.shelf "shelf.proto" "b" [Pool.shelf "a"]).own.dependencies
    rw [hown]
    exact List.mem_singleton.2 rfl

end ProtoSchema
