import ProtoSchema.Message.Merge
import ProtoSchema.Proofs.Message.Content

/-!
# Typed contents

A content is typed when each of its values is one that its field takes and they stand in order
(`Content.Typed`). Changing a field (`Typed.append`, `Typed.replace`, `Typed.clear`) and merging
(`Typed.merge`) keep contents typed.

The depth of a content is the number of messages that nest in it; merging does not add to it.
-/

namespace ProtoSchema

namespace MessageDef

variable {m : MessageDef} {n : Nat} {f : FieldDef}

theorem number_of_field? (h : m.field? n = some f) : f.number = n := by
  simpa using List.find?_some h

theorem mem_of_field? (h : m.field? n = some f) : f ∈ m.fields := List.mem_of_find?_eq_some h

end MessageDef

/-- Whether the message type has a repeated field with the number. -/
def Pool.Repeats (p : Pool) (t n : Nat) : Prop :=
  ∃ f, (p.message t).field? n = some f ∧ f.isRepeated = true

/-- The element is one that fields of the kind take: messages hold values of fields of their type
only, in order. -/
inductive Element.Typed (p : Pool) : FieldKind → Element → Prop
  | scalar {t : ScalarType} {v : Scalar} (fits : v.fits t = true) : Typed p (.scalar t) (.scalar v)
  | enum {k i : Nat} (lt : i < (p.enum k).values.length) : Typed p (.enum k) (.enum i)
  | message {t : Nat} {c : Content} (known : ∀ x ∈ c, ∃ f, (p.message t).field? x.1 = some f)
    (typed : ∀ x ∈ c, ∀ f, (p.message t).field? x.1 = some f → Typed p f.kind x.2)
    (ordered : Content.Ordered (p.Repeats t) c) : Typed p (.message t) (.message c)

namespace Content

/-- The value is one of a field of the message type. -/
def Belongs (p : Pool) (t : Nat) (x : Nat × Element) : Prop :=
  ∃ f, (p.message t).field? x.1 = some f ∧ x.2.Typed p f.kind

/-- The content is one of a message of the type. -/
structure Typed (p : Pool) (t : Nat) (c : Content) : Prop where
  belongs : ∀ x ∈ c, Belongs p t x
  ordered : Ordered (p.Repeats t) c

variable {p : Pool} {t n : Nat} {c : Content} {f : FieldDef}

/-- A value of the message type is one that its field takes. -/
theorem Belongs.typed {x : Nat × Element} (h : Belongs p t x)
    (hf : (p.message t).field? x.1 = some f) : x.2.Typed p f.kind := by
  obtain ⟨g, hg, htyped⟩ := h
  obtain rfl : g = f := Option.some.inj (hg.symm.trans hf)
  exact htyped

theorem typed_message_iff : Element.Typed p (.message t) (.message c) ↔ Typed p t c := by
  constructor
  · intro h
    cases h with
    | message known typed ordered =>
      refine ⟨?_, ordered⟩
      intro x hx
      obtain ⟨f, hf⟩ := known x hx
      exact ⟨f, hf, typed x hx f hf⟩
  · rintro ⟨belongs, ordered⟩
    refine .message ?_ ?_ ordered
    · intro x hx
      obtain ⟨f, hf, -⟩ := belongs x hx
      exact ⟨f, hf⟩
    · intro x hx f hf
      exact (belongs x hx).typed hf

/-! ## Changing a field -/

theorem typed_nil : Typed p t [] := ⟨fun _ hx => absurd hx List.not_mem_nil, List.Pairwise.nil⟩

/-- The values of a field are ones that it takes. -/
theorem Typed.of_mem_values (h : Typed p t c) (hf : (p.message t).field? n = some f) {e : Element}
    (he : e ∈ values n c) : e.Typed p f.kind := (h.belongs _ (mem_values.1 he)).typed hf

theorem Typed.clear (h : Typed p t c) (n : Nat) : Typed p t (clear n c) :=
  ⟨fun x hx => h.belongs x (mem_clear.1 hx).1, h.ordered.clear n⟩

/-- **A repeated field that is given another element stays typed.** -/
theorem Typed.append (h : Typed p t c) (hf : (p.message t).field? n = some f)
    (hrep : f.isRepeated = true) {e : Element} (he : e.Typed p f.kind) :
    Typed p t (append n [e] c) := by
  refine ⟨?_, h.ordered.append (Or.inl ⟨f, hf, hrep⟩)⟩
  intro x hx
  rcases mem_append.1 hx with hx | ⟨hn, hx⟩
  · exact h.belongs x hx
  · rw [List.mem_singleton] at hx
    exact ⟨f, hn ▸ hf, hx ▸ he⟩

/-- **A field that is given other values stays typed**, if it is repeated or they are not several. -/
theorem Typed.replace (h : Typed p t c) (hf : (p.message t).field? n = some f) {es : List Element}
    (hlen : f.isRepeated = true ∨ es.length ≤ 1) (hes : ∀ e ∈ es, e.Typed p f.kind) :
    Typed p t (replace n es c) := by
  refine ⟨?_, h.ordered.replace ?_⟩
  · intro x hx
    rcases mem_replace.1 hx with ⟨hx, -⟩ | ⟨hn, hx⟩
    · exact h.belongs x hx
    · exact ⟨f, hn ▸ hf, hes _ hx⟩
  · exact hlen.imp_left fun hrep => ⟨f, hf, hrep⟩

/-! ## Merging -/

/-- One value that is merged into a content: the step that `merge` repeats. -/
theorem merge_cons (e : Element) (rest : Content) (hf : (p.message t).field? n = some f) :
    merge p t c ((n, e) :: rest) = merge p t
      (if f.isRepeated then Content.append n [e] c
        else Content.replace n [e.mergeInto p f.kind (values n c).head?] c) rest := by
  rw [merge]
  simp only [hf]

/-- Contents whose values can be merged stay typed. -/
theorem Typed.merge_of {new : Content} (h : Typed p t c) (hnew : ∀ x ∈ new, Belongs p t x)
    (hinto : ∀ x ∈ new, ∀ f, (p.message t).field? x.1 = some f → ∀ old : Option Element,
      (∀ o ∈ old, o.Typed p f.kind) → (x.2.mergeInto p f.kind old).Typed p f.kind) :
    Typed p t (merge p t c new) := by
  induction new generalizing c with
  | nil =>
    rw [merge]
    exact h
  | cons x rest ih =>
    obtain ⟨n, e⟩ := x
    rw [List.forall_mem_cons] at hnew hinto
    obtain ⟨f, hf, he⟩ := hnew.1
    rw [merge_cons e rest hf]
    refine ih ?_ hnew.2 hinto.2
    split
    · next hrep => exact h.append hf hrep he
    · refine h.replace hf (Or.inr (Nat.le_refl 1)) ?_
      rw [List.forall_mem_singleton]
      exact hinto.1 f hf _ fun o ho => h.of_mem_values hf (List.mem_of_mem_head? ho)

end Content

theorem Element.mergeInto_none {p : Pool} {kind : FieldKind} (e : Element) :
    e.mergeInto p kind none = e := by
  cases e with
  | scalar v => rw [mergeInto]
  | enum i => rw [mergeInto]
  | message c =>
    unfold mergeInto
    split
    · next h => simp at h
    · rfl

/-- **A value that is merged into another one of its field is still one of the field.** -/
theorem Element.Typed.mergeInto {p : Pool} {kind : FieldKind} {e : Element} (h : e.Typed p kind) :
    ∀ old : Option Element, (∀ o ∈ old, o.Typed p kind) → (e.mergeInto p kind old).Typed p kind := by
  induction h with
  | scalar fits =>
    intro old _
    rw [Element.mergeInto]
    exact .scalar fits
  | enum lt =>
    intro old _
    rw [Element.mergeInto]
    exact .enum lt
  | @message t new known typed ordered ih =>
    have hnew : Content.Typed p t new := Content.typed_message_iff.1 (.message known typed ordered)
    intro old hold
    cases old with
    | none =>
      rw [Element.mergeInto_none]
      exact Content.typed_message_iff.2 hnew
    | some o =>
      -- What the field held is a message of the same type, and the new one is merged into it.
      have ho := hold o rfl
      cases ho with
      | @message _ c known' typed' ordered' =>
        have hc : Content.Typed p t c :=
          Content.typed_message_iff.1 (.message known' typed' ordered')
        rw [Element.mergeInto]
        exact Content.typed_message_iff.2 (hc.merge_of hnew.belongs ih)

/-- **A content that values of its type are merged into stays typed.** -/
theorem Content.Typed.merge {p : Pool} {t : Nat} {c new : Content} (h : Content.Typed p t c)
    (hnew : ∀ x ∈ new, Content.Belongs p t x) : Content.Typed p t (Content.merge p t c new) := by
  refine h.merge_of hnew ?_
  intro x hx f hf old hold
  exact ((hnew x hx).typed hf).mergeInto old hold

/-! ## Depth -/

mutual

/-- How many messages nest in the value, itself included. -/
def Element.depth : Element → Nat
  | .message c => Content.depth c + 1
  | .scalar _ => 0
  | .enum _ => 0

/-- How many messages nest in the content. -/
def Content.depth : Content → Nat
  | [] => 0
  | (_, e) :: rest => max e.depth (Content.depth rest)

end

namespace Content

theorem depth_le_iff {n : Nat} {c : Content} : depth c ≤ n ↔ ∀ x ∈ c, x.2.depth ≤ n := by
  induction c with
  | nil => simp [depth]
  | cons x c ih => rw [depth, Nat.max_le, ih, List.forall_mem_cons]

end Content

mutual

theorem Element.depth_mergeInto_le {p : Pool} {kind : FieldKind} {n : Nat} :
    ∀ (e : Element) (old : Option Element), e.depth ≤ n → (∀ o ∈ old, o.depth ≤ n) →
      (e.mergeInto p kind old).depth ≤ n
  | .scalar _, _, h, _ => by
    rw [Element.mergeInto]
    exact h
  | .enum _, _, h, _ => by
    rw [Element.mergeInto]
    exact h
  | .message new, old, h, hold => by
    unfold Element.mergeInto
    split
    · next t c =>
      have hc : (Element.message c).depth ≤ n := hold _ rfl
      rw [Element.depth] at h hc ⊢
      have hle : Content.depth (Content.merge p t c new) ≤ n - 1 :=
        Content.depth_merge_le new c (by omega) (by omega)
      omega
    · exact h

theorem Content.depth_merge_le {p : Pool} {t n : Nat} :
    ∀ new c : Content, Content.depth new ≤ n → Content.depth c ≤ n →
      Content.depth (Content.merge p t c new) ≤ n
  | [], c, _, hc => by
    rw [Content.merge]
    exact hc
  | (m, e) :: rest, c, h, hc => by
    rw [Content.depth, Nat.max_le] at h
    rw [Content.merge]
    refine Content.depth_merge_le rest _ h.2 ?_
    rw [Content.depth_le_iff] at hc
    split
    · exact Content.depth_le_iff.2 hc
    · next f hf =>
      split
      · refine Content.depth_le_iff.2 ?_
        intro x hx
        rcases Content.mem_append.1 hx with hx | ⟨-, hx⟩
        · exact hc x hx
        · rw [List.mem_singleton.1 hx]
          exact h.1
      · refine Content.depth_le_iff.2 ?_
        intro x hx
        rcases Content.mem_replace.1 hx with ⟨hx, -⟩ | ⟨-, hx⟩
        · exact hc x hx
        · rw [List.mem_singleton.1 hx]
          refine Element.depth_mergeInto_le e _ h.1 ?_
          intro o ho
          exact hc _ (Content.mem_values.1 (List.mem_of_mem_head? ho))

end

end ProtoSchema
