import ProtoSchema.Proofs.Pool.Reachable

/-!
# What messages rely on

What is used of a pool when its messages are changed, written and read: field numbers are told apart
within a message and small enough for a key, value numbers are told apart within an enum, and the
default of an enum field is one of the enum's values. Reachable pools have all of it
(`Reachable.sound`).

It is stated for every index, also those that no type has: the pool answers for them with a message
without fields and an enum without values.
-/

namespace ProtoSchema

namespace Pool

/-- Numbers tell fields and enum values apart, and defaults are values. -/
structure Sound (p : Pool) : Prop where
  numbers : ∀ t, ((p.message t).fields.map FieldDef.number).Nodup
  range : ∀ t, ∀ f ∈ (p.message t).fields, 1 ≤ f.number ∧ f.number ≤ 536870911
  values : ∀ k, ((p.enum k).values.map ValueDecl.number).Nodup
  defaults : ∀ t, ∀ f ∈ (p.message t).fields, ∀ k i, f.kind = .enum k → f.default = .enum i →
    i < (p.enum k).values.length

theorem message_cases (p : Pool) (t : Nat) :
    (∃ d, p.messages[t]? = some d ∧ p.message t = d) ∨ (p.message t).fields = [] := by
  cases h : p.messages[t]? with
  | some d => exact Or.inl ⟨d, rfl, message_of_getElem? h⟩
  | none =>
    refine Or.inr ?_
    rw [message, List.getD_eq_getElem?_getD, h]
    rfl

theorem enum_cases (p : Pool) (k : Nat) :
    (∃ d, p.enums[k]? = some d ∧ p.enum k = d) ∨ (p.enum k).values = [] := by
  cases h : p.enums[k]? with
  | some d => exact Or.inl ⟨d, rfl, enum_of_getElem? h⟩
  | none =>
    refine Or.inr ?_
    rw [enum, List.getD_eq_getElem?_getD, h]
    rfl

end Pool

/-- Every field of a linked pool is linked from a declaration. -/
theorem Linked.exists_field {rs : List RecordDecl} {p : Pool} (h : Linked rs p) {t : Nat}
    {g : FieldDef} (hg : g ∈ (p.message t).fields) :
    ∃ scope f, Link.field p scope f = .ok g := by
  rcases p.message_cases t with ⟨d, hd, ht⟩ | hnil
  · obtain ⟨scope, m, -, -, hlinks⟩ := h.types_of_message hd
    obtain ⟨f, -, hlink⟩ := Traverse.exists_of_forall₂ hlinks.flip (ht ▸ hg)
    exact ⟨_, f, hlink⟩
  · rw [hnil] at hg
    exact absurd hg List.not_mem_nil

namespace Pool

namespace Consistent

variable {p : Pool}

/-- Every field of the pool is linked from a valid declaration. -/
theorem fields_of_message (h : p.Consistent) (t : Nat) : ∃ scope fs,
    (∀ f ∈ fs, f.Valid) ∧ (fs.map FieldDecl.number).Nodup ∧
      List.Forall₂ (fun f g => Link.field p scope f = .ok g) fs (p.message t).fields := by
  rcases p.message_cases t with ⟨d, hd, rfl⟩ | hnil
  · obtain ⟨scope, m, hm, -, hlinks⟩ := h.linked.types_of_message hd
    have hvalid : m.Valid := h.valid_of_types hm
    exact ⟨_, m.fields, hvalid.here.fields, hvalid.here.numbers, hlinks⟩
  · refine ⟨"", [], fun _ hf => absurd hf List.not_mem_nil, List.nodup_nil, ?_⟩
    rw [hnil]
    exact List.Forall₂.nil

theorem exists_field (h : p.Consistent) {t : Nat} {g : FieldDef} (hg : g ∈ (p.message t).fields) :
    ∃ scope f, FieldDecl.Valid f ∧ Link.field p scope f = .ok g := by
  obtain ⟨scope, fs, hvalid, -, hlinks⟩ := h.fields_of_message t
  have hlinks' : List.Forall₂ (fun g f => f ∈ fs ∧ Link.field p scope f = .ok g)
      (p.message t).fields fs :=
    ((List.forall₂_and_left _ _).2 ⟨fun _ hf => hf, hlinks⟩).flip
  obtain ⟨f, -, hf, hlink⟩ := Traverse.exists_of_forall₂ hlinks' hg
  exact ⟨scope, f, hvalid f hf, hlink⟩

/-- An enum that a reference means has values. -/
theorem values_ne_nil (h : p.Consistent) {scope reference : String} {k : Nat}
    (hk : Link.kind? p scope reference = some (.enum k)) : (p.enum k).values ≠ [] := by
  obtain ⟨name, hname⟩ : ∃ name, p.find? name = some (.enum k) := by
    obtain ⟨t, ht⟩ | ⟨name, ref, hname, hkind⟩ := Link.exists_find?_of_kind? hk
    · simp at ht
    · cases ref with
      | message i => simp [Link.kindOf] at hkind
      | enum i =>
        obtain rfl : k = i := by simpa [Link.kindOf] using hkind
        exact ⟨name, hname⟩
  obtain ⟨scope', e, he, -, hvalues⟩ := h.linked.laidOut.types_of_find?_enum hname
  have hlacks : e.values.isEmpty = false := h.linked.values _ he
  rw [hvalues]
  exact List.isEmpty_eq_false_iff.1 hlacks

theorem default_lt (h : p.Consistent) {scope : String} {f : FieldDecl} {k i : Nat}
    (hk : Link.kind? p scope f.typeName = some (.enum k))
    (hd : Link.default p f (.enum k) = .ok (.enum i)) : i < (p.enum k).values.length := by
  have hpos : 0 < (p.enum k).values.length := List.length_pos_iff.2 (h.values_ne_nil hk)
  obtain ⟨label, typeName, name, number, default?⟩ := f
  -- Only singular fields have a value for a default: the first one, or the one that is named.
  cases default? with
  | none => cases label <;> simp [Link.default] at hd <;> omega
  | some text =>
    cases hn : (p.enum k).named? text with
    | none => cases label <;> simp [Link.default, hn] at hd
    | some value =>
      have hlt : value < (p.enum k).values.length := (List.findIdx?_eq_some_iff_getElem.1 hn).1
      cases label <;> simp [Link.default, hn] at hd <;> omega

/-- **A consistent pool has what messages rely on.** -/
theorem sound (h : p.Consistent) : p.Sound where
  numbers t := by
    obtain ⟨scope, fs, -, hnumbers, hlinks⟩ := h.fields_of_message t
    rw [Link.map_number hlinks]
    exact hnumbers
  range t g hg := by
    obtain ⟨scope, f, hvalid, hlink⟩ := h.exists_field hg
    obtain ⟨kind, value, -, -, rfl⟩ := Link.field_eq_ok_iff.1 hlink
    exact ⟨hvalid.pos, hvalid.le⟩
  values k := by
    rcases p.enum_cases k with ⟨d, hd, hk⟩ | hnil
    · rw [h.linked.enums, List.getElem?_map] at hd
      obtain ⟨e, he, rfl⟩ := Option.map_eq_some_iff.1 hd
      rw [hk]
      have hvalid : e.decl.Valid := h.valid_of_types
        (Layout.mem_types_iff.2 (Or.inr ⟨e, List.mem_of_getElem? he, rfl⟩))
      exact hvalid.numbers
    · rw [hnil]
      exact List.nodup_nil
  defaults t g hg k i hkind hdefault := by
    obtain ⟨scope, f, -, hlink⟩ := h.exists_field hg
    obtain ⟨kind, value, hk, hv, rfl⟩ := Link.field_eq_ok_iff.1 hlink
    obtain rfl : kind = .enum k := hkind
    obtain rfl : value = .enum i := hdefault
    exact h.default_lt hk hv

end Consistent

theorem Reachable.sound {p : Pool} (h : p.Reachable) : p.Sound := h.consistent.sound

end Pool

end ProtoSchema
