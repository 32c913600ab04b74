import ProtoSchema.Proofs.Descriptor.Roundtrip
import ProtoSchema.Proofs.Schema.Order

/-!
# Closed lists of records

A list of records is closed when each of them depends on records in front of it, and refers to types
that it declares itself or that one of these does. Tools that read descriptors in order rely on it.

What a record asks of those in front it still has when more stand in front of it
(`RecordDecl.ClosedOver.mono`). So closed lists stay closed when they are put one behind the other, and
when what occurs again is left out (`RecordDecl.Closed.append`, `RecordDecl.Closed.eraseDups`), in
whatever order this leaves the records. Building does no more than this and puts the schema's own
record last, so **the descriptors of a pool that has been built are closed**
(`Pool.Assembled.describe_closed`).
-/

namespace ProtoSchema

open Descriptor (Described NamedType)

/-! ## Closed lists -/

namespace RecordDecl

/-- The record depends on records in front of it, and refers to types that it declares itself or that
a record declares on which it depends. -/
structure ClosedOver (front : List RecordDecl) (r : RecordDecl) : Prop where
  dependencies : ∀ n ∈ r.dependencies, ∃ s ∈ front, s.name = n
  references : ∀ scope m, ⟨scope, .message m⟩ ∈ r.types → ∀ f ∈ m.fields, ∀ name,
    f.typeName = "." ++ name →
      ∃ s, (s = r ∨ s ∈ front ∧ s.name ∈ r.dependencies) ∧ Declares s.types name

/-- Each record is closed over those in front of it. -/
inductive Closed : List RecordDecl → Prop
  | nil : Closed []
  | concat {rs : List RecordDecl} {r : RecordDecl} (front : Closed rs) (last : r.ClosedOver rs) :
    Closed (rs ++ [r])

variable {rs rs' front back : List RecordDecl} {r : RecordDecl}

theorem ClosedOver.mono (h : r.ClosedOver rs) (hsub : rs ⊆ rs') : r.ClosedOver rs' where
  dependencies n hn := by
    obtain ⟨s, hs, hname⟩ := h.dependencies n hn
    exact ⟨s, hsub hs, hname⟩
  references scope m hm f hf name hname := by
    obtain ⟨s, hs, hdeclares⟩ := h.references scope m hm f hf name hname
    exact ⟨s, hs.imp_right fun hs => ⟨hsub hs.1, hs.2⟩, hdeclares⟩

namespace Closed

/-- **Closed lists may be put one behind the other.** -/
theorem append (h : Closed rs) (h' : Closed rs') : Closed (rs ++ rs') := by
  induction h' with
  | nil => rwa [List.append_nil]
  | concat _ last ih =>
    rw [← List.append_assoc]
    exact .concat ih (last.mono (List.subset_append_right _ _))

theorem flatMap {α : Type} {f : α → List RecordDecl} {as : List α} (h : ∀ a ∈ as, Closed (f a)) :
    Closed (as.flatMap f) := by
  induction as with
  | nil => exact .nil
  | cons a as ih =>
    rw [List.forall_mem_cons] at h
    rw [List.flatMap_cons]
    exact h.1.append (ih h.2)

/-- **A closed list stays closed when only the first of equal records is kept.** -/
theorem eraseDups (h : Closed rs) : Closed rs.eraseDups := by
  induction h with
  | nil => exact .nil
  | @concat rs r _ last ih =>
    rw [List.eraseDups_append]
    by_cases hr : r ∈ rs
    · have hnil : [r].removeAll rs = [] := by simp [List.removeAll, hr]
      rw [hnil]
      simpa using ih
    · have hone : [r].removeAll rs = [r] := by simp [List.removeAll, hr]
      rw [hone]
      exact .concat ih (last.mono fun s hs => List.mem_eraseDups.2 hs)

/-- **Each record of a closed list is closed over those in front of it.** -/
theorem closedOver (h : Closed rs) : rs = front ++ r :: back → r.ClosedOver front := by
  induction h generalizing back with
  | nil => simp
  | @concat rs s _ last ih =>
    intro heq
    rcases List.eq_nil_or_concat back with rfl | ⟨back, t, rfl⟩
    · obtain ⟨rfl, hr⟩ := List.append_inj' heq rfl
      obtain rfl := List.singleton_inj.1 hr
      exact last
    · rw [List.concat_eq_append, ← List.cons_append, ← List.append_assoc] at heq
      exact ih (List.append_inj' heq rfl).1

end Closed

end RecordDecl

/-! ## Pools that have been built -/

/-- The pools of schemas that are built from drafts, and so are the schemas that they import. -/
inductive Pool.Assembled : Pool → Prop
  | build {d : Draft} {p : Pool} (messages : ∀ m ∈ d.messages, m.Built)
    (enums : ∀ e ∈ d.enums, e.Built) (imports : ∀ q ∈ d.imports, Assembled q)
    (h : d.build = .ok p) : Assembled p

namespace Pool

variable {p : Pool}

theorem Assembled.reachable (h : p.Assembled) : p.Reachable := by
  induction h with
  | build messages enums _ h ih => exact .build messages enums ih h

/-- An absolute reference of a consistent pool is to a type that the pool declares. -/
theorem Consistent.declares (h : p.Consistent) {scope : String} {m : MessageDecl}
    (hm : ⟨scope, .message m⟩ ∈ p.decls.flatMap RecordDecl.types) {f : FieldDecl} (hf : f ∈ m.fields)
    {name : String} (hname : f.typeName = "." ++ name) :
    Declares (p.decls.flatMap RecordDecl.types) name := by
  obtain ⟨kind, hkind, -⟩ := h.kind?_field hm hf
  rw [hname, Link.kind?_dot] at hkind
  obtain ⟨ref, href, -⟩ := Option.map_eq_some_iff.1 hkind
  exact h.linked.laidOut.find?_isSome_iff.1 (by rw [href]; rfl)

/-- **The own record of a pool that has been built is closed over the imported ones.** -/
theorem closedOver_own {d : Draft} (hp : p.Consistent)
    (hdecls : p.decls = d.imported ++ [d.own.absolute p]) :
    (d.own.absolute p).ClosedOver d.imported where
  dependencies n hn := by
    obtain ⟨s, hs, hname⟩ := List.mem_map.1 (List.mem_eraseDups.1 hn)
    exact ⟨s, hs, hname⟩
  references scope m hm f hf name hname := by
    have hmem : d.own.absolute p ∈ p.decls := by
      rw [hdecls]
      exact List.mem_append_right _ (List.mem_singleton.2 rfl)
    obtain ⟨t, ht, htname⟩ := hp.declares (List.mem_flatMap.2 ⟨_, hmem, hm⟩) hf hname
    obtain ⟨s, hs, ht⟩ := List.mem_flatMap.1 ht
    rw [hdecls, List.mem_append, List.mem_singleton] at hs
    -- The own record depends on all imported ones.
    rcases hs with hs | rfl
    · exact ⟨s, Or.inr ⟨hs, List.mem_eraseDups.2 (List.mem_map_of_mem hs)⟩, t, ht, htname⟩
    · exact ⟨_, Or.inl rfl, t, ht, htname⟩

/-- **The declarations of a pool that has been built are closed.** -/
theorem Assembled.closed (h : p.Assembled) : RecordDecl.Closed p.decls := by
  induction h with
  | @build d p messages enums imports h ih =>
    have hp : p.Assembled := .build messages enums imports h
    have hdecls := Draft.decls_of_build (fun q hq => (imports q hq).reachable.consistent) h
    rw [hdecls]
    exact .concat (RecordDecl.Closed.flatMap ih).eraseDups
      (closedOver_own hp.reachable.consistent hdecls)

end Pool

/-! ## Descriptors -/

/-- The form of the described type. -/
def Descriptor.NamedType.form : NamedType → TypeForm
  | message _ => .message
  | enum _ => .enum

namespace ScopedType

theorem form_describe {p : Pool} (t : ScopedType) : (t.describe p).type.form = t.decl.form := by
  obtain ⟨scope, m | e⟩ := t <;> rfl

theorem fullName_describe {p : Pool} (t : ScopedType) : (t.describe p).fullName = t.fullName := by
  obtain ⟨scope, ⟨name, fields, messages, enums⟩ | e⟩ := t <;> rfl

end ScopedType

/-- The file depends on files in front of it, and refers to types that it describes itself or that a
file describes on which it depends, by their full names and in their form. -/
structure Descriptor.File.ClosedOver (front : List File) (f : File) : Prop where
  dependencies : ∀ n ∈ f.dependencies, ∃ g ∈ front, g.name? = some n
  references : ∀ x ∈ f.described, ∀ m, x.type = .message m → ∀ fd ∈ m.fields, ∀ form,
    fd.form? = some form →
      ∃ g, (g = f ∨ g ∈ front ∧ ∃ n ∈ f.dependencies, g.name? = some n) ∧
        ∃ y ∈ g.described, y.type.form = form ∧ fd.typeName? = some ("." ++ y.fullName)

namespace Pool

variable {p : Pool}

/-- A described field that calls for a type refers to one of the pool's declared types. -/
theorem Consistent.reference_describe (h : p.Consistent) {scope : String} {m : MessageDecl}
    (hm : ⟨scope, .message m⟩ ∈ p.decls.flatMap RecordDecl.types) {f : FieldDecl} (hf : f ∈ m.fields)
    {form : TypeForm} (hform : (f.describe p).form? = some form) :
    ∃ t ∈ p.decls.flatMap RecordDecl.types, t.decl.form = form ∧
      f.typeName = "." ++ t.fullName ∧ (f.describe p).typeName? = some f.typeName := by
  obtain ⟨kind, hkind, hname⟩ := h.kind?_field hm hf
  have hlaid := h.linked.laidOut
  have htype := FieldDecl.fieldType?_describe_kind hkind hname
  unfold Descriptor.Field.fieldType? at htype
  rw [Descriptor.Field.form?, htype] at hform
  have hreference : ∀ name, f.typeName = "." ++ name → (f.describe p).typeName? = some f.typeName := by
    intro name hdot
    rw [FieldDecl.describe, hdot, ScalarType.ofKeyword?_dot]
    rfl
  rw [hname] at hkind
  cases kind with
  | scalar t => exact absurd hform.symm (Option.some_ne_none form)
  | message i =>
    rw [typeName, Link.kind?_dot, Link.map_kindOf_message] at hkind
    obtain ⟨scope', m', hmem, hfull⟩ := hlaid.types_of_find?_message hkind
    refine ⟨_, hmem, Option.some.inj hform, ?_, hreference _ hname⟩
    rw [hname, typeName, ← hfull]
    rfl
  | enum k =>
    rw [typeName, Link.kind?_dot, Link.map_kindOf_enum] at hkind
    obtain ⟨scope', e, hmem, hfull, -⟩ := hlaid.types_of_find?_enum hkind
    refine ⟨_, hmem, Option.some.inj hform, ?_, hreference _ hname⟩
    rw [hname, typeName, ← hfull]
    rfl

/-- **What is closed as a declaration is closed as a description.** -/
theorem Consistent.closedOver_describe (h : p.Consistent) {front : List RecordDecl} {r : RecordDecl}
    (hsub : r :: front ⊆ p.decls) (hr : r.ClosedOver front) :
    (r.describe p).ClosedOver (front.map (·.describe p)) where
  dependencies n hn := by
    obtain ⟨s, hs, rfl⟩ := hr.dependencies n hn
    exact ⟨_, List.mem_map_of_mem hs, rfl⟩
  references x hx m hm fd hfd form hform := by
    rw [RecordDecl.described_describe] at hx
    obtain ⟨⟨scope, m' | e⟩, ht, rfl⟩ := List.mem_map.1 hx
    · obtain rfl : m'.describe p = m := by simpa [ScopedType.describe] using hm
      obtain ⟨name, fields, messages, enums⟩ := m'
      rw [MessageDecl.describe] at hfd
      obtain ⟨f, hf, rfl⟩ := List.mem_map.1 hfd
      have hmem := List.mem_flatMap.2 ⟨r, hsub List.mem_cons_self, ht⟩
      obtain ⟨u, hu, huform, hname, htypeName⟩ := h.reference_describe hmem hf hform
      obtain ⟨s, hs, v, hv, hvname⟩ := hr.references _ _ ht f hf _ hname
      -- No other type has the name, so the one that is declared in front is the one referred to.
      have hsmem : s ∈ p.decls := hs.elim (· ▸ hsub List.mem_cons_self) fun hs =>
        hsub (List.mem_cons_of_mem _ hs.1)
      obtain rfl : v = u :=
        List.inj_on_of_nodup_map h.linked.distinct (List.mem_flatMap.2 ⟨s, hsmem, hv⟩) hu hvname
      refine ⟨s.describe p, ?_, v.describe p, ?_, ?_, ?_⟩
      · exact hs.imp (congrArg (RecordDecl.describe p)) fun hs =>
          ⟨List.mem_map_of_mem hs.1, s.name, hs.2, rfl⟩
      · rw [RecordDecl.described_describe]
        exact List.mem_map_of_mem hv
      · rw [ScopedType.form_describe, huform]
      · rw [htypeName, hname, ScopedType.fullName_describe]
    · simp [ScopedType.describe] at hm

/-- **The descriptors of a pool that has been built are closed.** Whatever was imported, directly or by
way of other imports, once or more often, each file depends on files that stand in front of it, and its
fields refer to types that it describes itself or that a file describes on which it depends. -/
theorem Assembled.describe_closed (h : p.Assembled) : ∀ front f back,
    p.describe = front ++ f :: back → f.ClosedOver front := by
  intro front f back heq
  obtain ⟨front, rest, hdecls, rfl, hrest⟩ := List.map_eq_append_iff.1 heq
  obtain ⟨r, back, rfl, rfl, -⟩ := List.map_eq_cons_iff.1 hrest
  refine h.reachable.consistent.closedOver_describe ?_ (h.closed.closedOver hdecls)
  rw [hdecls, List.cons_subset]
  exact ⟨List.mem_append_right _ List.mem_cons_self, List.subset_append_left _ _⟩

theorem assembled_chain : Pool.chain.Assembled := by
  have hbuild : Draft.chain.build = .ok Pool.chain := rfl
  exact .build Draft.chain_built (fun e he => absurd he List.not_mem_nil)
    (fun q hq => absurd hq List.not_mem_nil) hbuild

end Pool

namespace Draft

/-- The imported records of a schema that imports the anchors twice, and the links between them. -/
theorem imported_harbor : (harbor [Pool.anchor, Pool.chain, Pool.anchor]).imported =
    anchor.imported ++ [anchor.own.absolute Pool.anchor] := by
  have hlink : Pool.link [chain.own] = .ok Pool.chain := rfl
  have hchain := (link_eq_ok_iff.1 hlink).decls_eq
  have himports : (harbor [Pool.anchor, Pool.chain, Pool.anchor]).imports.flatMap Pool.decls =
      Pool.anchor.decls ++ (Pool.chain.decls ++ Pool.anchor.decls) := by
    simp [harbor]
  rw [imported, himports, hchain, decls_anchor, own, imported_anchor]
  rfl

theorem harbor_built (imports : List Pool) : ∀ m ∈ (harbor imports).messages, m.Built := by
  have hanchors : FieldDecl.make .repeated "Anchor" "anchors" 1 =
      .ok ⟨.repeated, "Anchor", "anchors", 1, none⟩ := rfl
  have hboom : FieldDecl.make .optional ".Link" "boom" 2 =
      .ok ⟨.optional, ".Link", "boom", 2, none⟩ := rfl
  have hone := MessageDecl.Built.addField (.empty "Harbor") (.make hanchors) rfl
  intro m hm
  obtain rfl := List.mem_singleton.1 hm
  exact .addField hone (.make hboom) rfl

end Draft

namespace Pool

theorem assembled_anchor : Pool.anchor.Assembled := by
  refine .build Draft.anchor_built (fun e he => absurd he List.not_mem_nil) ?_ Draft.build_anchor
  intro p hp
  obtain rfl := List.mem_singleton.1 hp
  exact assembled_chain

theorem assembled_harbor_imports :
    ∀ q ∈ (Draft.harbor [Pool.anchor, Pool.chain, Pool.anchor]).imports, q.Assembled := by
  intro q hq
  simp only [Draft.harbor, List.mem_cons, List.not_mem_nil, or_false] at hq
  rcases hq with rfl | rfl | rfl
  · exact assembled_anchor
  · exact assembled_chain
  · exact assembled_anchor

theorem Assembled.describe_closed_harbor :
    ∃ p, (Draft.harbor [Pool.anchor, Pool.chain, Pool.anchor]).build = .ok p ∧
      ∀ front f back, p.describe = front ++ f :: back → f.ClosedOver front := by
  obtain ⟨p, hp⟩ := Draft.exists_harbor Draft.imported_harbor
  have hassembled : p.Assembled := .build (Draft.harbor_built _)
    (fun e he => absurd he List.not_mem_nil) assembled_harbor_imports hp
  exact ⟨p, hp, Assembled.describe_closed hassembled⟩

end Pool

end ProtoSchema
