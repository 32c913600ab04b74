import ProtoSchema.Proofs.Descriptor.Roundtrip
import ProtoSchema.Proofs.Pool.Narrow
import ProtoSchema.Proofs.Schema.Order

/-!
# Types that are carried on

A pool carries the types of another one when its schema was built with it, directly or through other
schemas, or was made of its descriptors (`Pool.Carries`). Its types stand at other indices. Messages of
the same full name agree field by field (`Pool.Agrees`): names, numbers, labels and defaults are the
same, and kinds are the same by names. Whatever works on messages looks at nothing else.
-/

namespace ProtoSchema

/-- Fields of two pools that are the same by names. -/
structure FieldDef.Alike (p q : Pool) (f g : FieldDef) : Prop where
  outline : q.fieldOutline g = p.fieldOutline f
  kind : f.kind.Namesakes p q g.kind

/-- Messages of the two pools that have the same full name have the same fields. -/
def Pool.Agrees (p q : Pool) : Prop :=
  ∀ t u, p.Namesakes q t u →
    List.Forall₂ (FieldDef.Alike p q) (p.message t).fields (q.message u).fields

/-- The pool has the types of `p`: its schema was built with it or made of its descriptors. -/
inductive Pool.Carries (q p : Pool) : Prop
  | imports (h : q.Imports p)
  | parse (h : Pool.ofDescriptors p.describe = .ok q)

variable {p q : Pool}

namespace FieldDef.Alike

variable {f g : FieldDef}

theorem name (h : f.Alike p q g) : g.name = f.name := congrArg FieldOutline.name h.outline

theorem number (h : f.Alike p q g) : g.number = f.number := congrArg FieldOutline.number h.outline

theorem label (h : f.Alike p q g) : g.label = f.label := congrArg FieldOutline.label h.outline

theorem default (h : f.Alike p q g) : g.default = f.default :=
  congrArg FieldOutline.default h.outline

theorem isRepeated (h : f.Alike p q g) : g.isRepeated = f.isRepeated := by
  rw [FieldDef.isRepeated, h.label, FieldDef.isRepeated]

theorem isRequired (h : f.Alike p q g) : g.isRequired = f.isRequired := by
  rw [FieldDef.isRequired, h.label, FieldDef.isRequired]

end FieldDef.Alike

/-- Lists of related elements have related first matches, or none. -/
theorem find?_cases {α β : Type} {R : α → β → Prop} {P : α → Bool} {Q : β → Bool} {as : List α}
    {bs : List β} (h : List.Forall₂ R as bs) (hpq : ∀ a b, R a b → Q b = P a) :
    as.find? P = none ∧ bs.find? Q = none ∨
      ∃ a b, as.find? P = some a ∧ bs.find? Q = some b ∧ R a b := by
  induction h with
  | nil => exact Or.inl ⟨rfl, rfl⟩
  | @cons a b as bs hab _ ih =>
    rw [List.find?_cons, List.find?_cons, hpq a b hab]
    cases P a with
    | true => exact Or.inr ⟨a, b, rfl, rfl, hab⟩
    | false => exact ih

namespace Pool.Agrees

variable {t u : Nat}

/-- **A number is one of the same field in both messages, or of none.** -/
theorem field? (h : p.Agrees q) (hs : p.Namesakes q t u) (n : Nat) :
    (p.message t).field? n = none ∧ (q.message u).field? n = none ∨
      ∃ f g, (p.message t).field? n = some f ∧ (q.message u).field? n = some g ∧
        f.Alike p q g :=
  find?_cases (h t u hs) fun _ _ ha => by rw [ha.number]

/-- **A name is one of the same field in both messages, or of none.** -/
theorem fieldNamed? (h : p.Agrees q) (hs : p.Namesakes q t u) (name : String) :
    (p.message t).fields.find? (·.name = name) = none ∧
        (q.message u).fields.find? (·.name = name) = none ∨
      ∃ f g, (p.message t).fields.find? (·.name = name) = some f ∧
        (q.message u).fields.find? (·.name = name) = some g ∧ f.Alike p q g :=
  find?_cases (h t u hs) fun _ _ ha => by rw [ha.name]

end Pool.Agrees

namespace Linked

variable {rs rs' : List RecordDecl}

/-- **Where a pool is exposed, messages of the same name agree.** -/
theorem agrees (hp : Linked rs p) (hq : Linked rs' q) (h : q.Exposes p) : p.Agrees q := by
  intro t u hs
  have hmem : p.message t ∈ p.messages := by
    rw [Pool.message_of_getElem? (List.getElem?_eq_getElem hs.left)]
    exact List.getElem_mem hs.left
  obtain ⟨i, m', hfind, hm', houtline⟩ := h.messages _ hmem
  have hname : m'.fullName = (p.message t).fullName := congrArg MessageOutline.fullName houtline
  obtain rfl := Pool.eq_message_of_fullName hq.laidOut.names_nodup hs.right
    (List.mem_of_getElem? hm') (hname.trans hs.fullName.symm)
  have hfields : (q.message u).fields.map q.fieldOutline = (p.message t).fields.map p.fieldOutline :=
    congrArg MessageOutline.fields houtline
  have hall : List.Forall₂ (fun f g => q.fieldOutline g = p.fieldOutline f)
      (p.message t).fields (q.message u).fields := by
    rw [← List.forall₂_eq_eq_eq, List.forall₂_map_left_iff, List.forall₂_map_right_iff] at hfields
    exact hfields.flip
  -- Both fields are ones of their messages, so the messages that they refer to are in the pools.
  have hmems := (List.forall₂_and_left _ _).2 ⟨fun f hf => hf, hall⟩
  have hmems' := (List.forall₂_and_left _ _).2 ⟨fun g hg => hg, hmems.flip⟩
  refine hmems'.flip.imp ?_
  rintro f g ⟨hg, hf, hfg⟩
  exact ⟨hfg, Pool.namesakes_of_outline hp hq hf hg (congrArg FieldOutline.kind hfg)⟩

end Linked

/-- A pool is linked from the records of all schemas that it was built with, among others. -/
theorem Pool.Imports.exists_linked (h : q.Imports p) : ∃ rs, Linked rs q ∧ p.decls ⊆ rs := by
  induction h with
  | @direct d q p imports h mem =>
    refine ⟨_, link_eq_ok_iff.1 h, fun r hr => ?_⟩
    exact List.mem_append_left _ (Draft.mem_imported.2 ⟨p, mem, hr⟩)
  | through _ rest ihfirst _ =>
    -- The schema in between has handed the records on.
    obtain ⟨rs, hq, hsub⟩ := ihfirst
    exact ⟨rs, hq, List.Subset.trans rest.decls_subset.2 hsub⟩

namespace Pool.Carries

/-- **A pool that carries another one exposes it and agrees with it.** -/
theorem exposes (h : q.Carries p) (hp : p.Reachable) : q.Exposes p ∧ p.Agrees q := by
  obtain ⟨rs, hq, hsub⟩ : ∃ rs, Linked rs q ∧ p.decls ⊆ rs := by
    cases h with
    | imports h => exact h.exists_linked
    | parse h =>
      obtain rfl : p = q := Except.ok.inj (hp.consistent.ofDescriptors_describe.symm.trans h)
      exact ⟨p.decls, hp.consistent.linked, List.Subset.refl _⟩
  have hexposes := Linked.exposes hp.consistent hq hsub
  exact ⟨hexposes, hp.consistent.linked.agrees hq hexposes⟩

end Pool.Carries

end ProtoSchema
