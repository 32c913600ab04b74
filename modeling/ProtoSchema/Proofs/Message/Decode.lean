import ProtoSchema.Message.Decode
import ProtoSchema.Proofs.Message.Typed
import ProtoSchema.Proofs.Wire.Scalar

/-!
# What is decoded

Whatever bytes a content is read from, it is typed, and it nests no deeper than the budget lets it
(`Decode.content_typed`).
-/

namespace ProtoSchema.Decode

open Reader

variable {p : Pool} {t budget : Nat} {body : Nat → Bytes → Except WireFault Content}

theorem yields_values {α : Type} {P : α → Prop} {r : Reader WireFault α} (packs : Bool)
    (actual expected : WireType) (h : r.Yields P) :
    (values packs actual expected r).Yields fun as => ∀ a ∈ as, P a := by
  unfold values
  split
  · exact yields_packed h
  · refine yields_map (yields_ofType actual expected h) ?_
    intro a ha
    rwa [List.forall_mem_singleton]

/-- The values of a record are ones that the field takes, if nested messages are read so. -/
theorem yields_elements (f : FieldDef) (type : WireType)
    (hbody : ∀ t bs c, body t bs = .ok c → Content.Typed p t c ∧ Content.depth c < budget) :
    (elements p f type body).Yields fun es => ∀ e ∈ es, e.Typed p f.kind ∧ e.depth ≤ budget := by
  unfold elements
  cases f.kind with
  | scalar t =>
    refine yields_map (yields_values _ _ _ (yields_scalar t)) ?_
    intro vs hvs
    rw [List.forall_mem_map]
    intro v hv
    exact ⟨.scalar (hvs v hv), Nat.zero_le _⟩
  | enum k =>
    refine yields_map (yields_true _) ?_
    intro ns _ e he
    obtain ⟨n, -, hn⟩ := List.mem_filterMap.1 he
    obtain ⟨i, hi, rfl⟩ := Option.map_eq_some_iff.1 hn
    have hlt : i < (p.enum k).values.length := (List.findIdx?_eq_some_iff_getElem.1 hi).1
    exact ⟨.enum hlt, Nat.zero_le _⟩
  | message t =>
    refine yields_check (yields_true _) ?_
    intro bs es _ hes
    obtain ⟨c, hc, rfl⟩ := Traverse.map_eq_ok.1 hes
    obtain ⟨htyped, hdepth⟩ := hbody t bs c hc
    rw [List.forall_mem_singleton]
    exact ⟨Content.typed_message_iff.2 htyped, by rw [Element.depth]; exact hdepth⟩

/-- The content that a record gives is of fields of the message type. -/
theorem yields_record
    (hbody : ∀ t bs c, body t bs = .ok c → Content.Typed p t c ∧ Content.depth c < budget) :
    (record p t body).Yields fun c => ∀ x ∈ c, Content.Belongs p t x ∧ x.2.depth ≤ budget := by
  refine yields_bind ?_
  intro k
  cases hf : (p.message t).field? k.tag with
  | none => exact yields_map (yields_true _) fun _ _ _ hx => absurd hx List.not_mem_nil
  | some f =>
    refine yields_map (yields_elements f k.type hbody) ?_
    intro es hes
    rw [List.forall_mem_map]
    intro e he
    obtain ⟨htyped, hdepth⟩ := hes e he
    rw [← MessageDef.number_of_field? hf] at hf
    exact ⟨⟨f, hf, htyped⟩, hdepth⟩

/-- **Whatever is decoded is typed and nests no deeper than the budget.** -/
theorem content_typed {bs : Bytes} {c : Content} (h : content p budget t bs = .ok c) :
    Content.Typed p t c ∧ Content.depth c < budget := by
  induction budget generalizing t bs c with
  | zero => simp [content] at h
  | succ budget ih =>
    rw [content] at h
    obtain ⟨parts, hparts, rfl⟩ := Traverse.map_eq_ok.1 h
    have hall := of_mem_all (yields_record fun t bs c => ih) hparts
    -- Each record is merged into what the records before it gave.
    refine List.foldlRecOn (motive := fun c => Content.Typed p t c ∧ Content.depth c < budget + 1)
      parts (Content.merge p t) ?_ fun c hc part hpart => ?_
    · exact ⟨Content.typed_nil, Nat.succ_pos budget⟩
    · have hbelongs : ∀ x ∈ part, Content.Belongs p t x := by
        intro x hx
        exact (hall part hpart x hx).1
      have hdepth : Content.depth part ≤ budget :=
        Content.depth_le_iff.2 fun x hx => (hall part hpart x hx).2
      refine ⟨hc.1.merge hbelongs, Nat.lt_succ_of_le ?_⟩
      exact Content.depth_merge_le part c hdepth (Nat.le_of_lt_succ hc.2)

end ProtoSchema.Decode
