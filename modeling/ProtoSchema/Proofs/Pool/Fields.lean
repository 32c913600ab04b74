import ProtoSchema.Proofs.Pool.Sound

/-!
# What fields and enums of a pool are like

`MessageDef.Resolved` and `EnumDef.Resolved` say all that declaring and linking ensure about the fields
of a message and the values of an enum: names and numbers are in range and used once, kinds are types
of the pool, and defaults are what was declared.

What a field reports without a value depends on its label, its kind and its declared default alone.
`FieldDefault.Given` has one constructor for each case, so later proofs need not ask which combinations
a pool cannot have.
-/

namespace ProtoSchema

/-- The kind is a scalar type, or the index of a type of the pool. -/
def FieldKind.Within (p : Pool) : FieldKind → Prop
  | scalar _ => True
  | message i => i < p.messages.length
  | enum k => k < p.enums.length

/-- What a field of the label and the kind reports without a value, where it declares the default, if
any. -/
inductive FieldDefault.Given (p : Pool) : Label → FieldKind → Option String → FieldDefault → Prop
  | repeated (kind : FieldKind) : Given p .repeated kind none .emptyList
  | zero {label : Label} (singular : label ≠ .repeated) (t : ScalarType) :
    Given p label (.scalar t) none (.scalar (Scalar.zero t))
  | parsed {label : Label} (singular : label ≠ .repeated) {t : ScalarType} {text : String} {v : Scalar}
    (h : Scalar.ofDefault t text = .ok v) : Given p label (.scalar t) (some text) (.scalar v)
  | first {label : Label} (singular : label ≠ .repeated) {k : Nat}
    (lt : 0 < (p.enum k).values.length) : Given p label (.enum k) none (.enum 0)
  | named {label : Label} (singular : label ≠ .repeated) {k i : Nat} {v : ValueDecl}
    (h : (p.enum k).values[i]? = some v) : Given p label (.enum k) (some v.name) (.enum i)
  | message {label : Label} (singular : label ≠ .repeated) (i : Nat) :
    Given p label (.message i) none .emptyMessage

/-- A field as linking makes it. -/
structure FieldDef.Resolved (p : Pool) (f : FieldDef) : Prop where
  name : f.name ≠ ""
  pos : 1 ≤ f.number
  le : f.number ≤ 536870911
  unreserved : ¬(19000 ≤ f.number ∧ f.number ≤ 19999)
  kind : f.kind.Within p
  default : FieldDefault.Given p f.label f.kind f.declared? f.default

/-- A message as linking makes it. -/
structure MessageDef.Resolved (p : Pool) (m : MessageDef) : Prop where
  fields : ∀ f ∈ m.fields, f.Resolved p
  names : (m.fields.map FieldDef.name).Nodup
  numbers : (m.fields.map FieldDef.number).Nodup

/-- An enum as linking makes it. -/
structure EnumDef.Resolved (e : EnumDef) : Prop where
  nonempty : e.values ≠ []
  named : ∀ v ∈ e.values, v.name ≠ ""
  names : (e.values.map ValueDecl.name).Nodup
  numbers : (e.values.map ValueDecl.number).Nodup

/-! ## Linking resolves -/

namespace Link

variable {p : Pool} {scope : String}

theorem map_name {fs : List FieldDecl} {gs : List FieldDef}
    (h : List.Forall₂ (fun f g => field p scope f = .ok g) fs gs) :
    gs.map FieldDef.name = fs.map FieldDecl.name := by
  induction h with
  | nil => rfl
  | cons hg _ ih =>
    obtain ⟨kind, value, -, -, rfl⟩ := field_eq_ok_iff.1 hg
    rw [List.map_cons, List.map_cons, ih]

/-- What a reference is bound to is in the pool. -/
theorem within_of_kind? {reference : String} {kind : FieldKind}
    (h : kind? p scope reference = some kind) : kind.Within p := by
  rcases exists_find?_of_kind? h with ⟨t, rfl⟩ | ⟨name, ref, hname, rfl⟩
  · trivial
  · cases ref with
    | message i => exact (Pool.fullName_of_find?_message hname).1
    | enum k => exact (Pool.fullName_of_find?_enum hname).1

/-- Labels of singular fields are not told apart. -/
theorem default_of_ne_repeated {f : FieldDecl} (h : f.label ≠ .repeated) (kind : FieldKind) :
    default p f kind = default p { f with label := .optional } kind := by
  obtain ⟨label, typeName, name, number, default?⟩ := f
  cases label with
  | optional => rfl
  | required => cases kind <;> cases default? <;> rfl
  | repeated => exact absurd rfl h

/-- A default that is declared for a scalar type decides whether the field can be linked, in any pool. -/
theorem field_of_scalar {f : FieldDecl} {t : ScalarType} {text : String}
    (ht : ScalarType.ofKeyword? f.typeName = some t) (hlabel : f.label ≠ .repeated)
    (htext : f.default? = some text) : field p scope f =
      match Scalar.ofDefault t text with
      | .ok x => .ok ⟨f.name, f.number, f.label, .scalar t, some text, .scalar x⟩
      | .error fault => .error (.invalidDefault (scope ++ "." ++ f.name) text fault) := by
  have hdefault : default p f (.scalar t) = (Scalar.ofDefault t text).map .scalar := by
    rw [default_of_ne_repeated hlabel]
    simp only [default, htext]
  have hkind : kind? p scope f.typeName = some (.scalar t) := by rw [kind?, ht]
  rw [field, hkind]
  simp only [hdefault, htext]
  cases Scalar.ofDefault t text <;> rfl

/-- **The default that linking finds is the one that is given,** where the enum has values. -/
theorem given_of_default {f : FieldDecl} {kind : FieldKind} {value : FieldDefault}
    (hvalues : ∀ k, kind = .enum k → (p.enum k).values ≠ []) (h : default p f kind = .ok value) :
    FieldDefault.Given p f.label kind f.default? value := by
  obtain ⟨label, typeName, name, number, default?⟩ := f
  by_cases hrep : label = .repeated
  · subst hrep
    cases default? with
    | none =>
      obtain rfl := Except.ok.inj h
      exact .repeated kind
    | some text => simp [default] at h
  · rw [default_of_ne_repeated hrep] at h
    cases default? with
    | none =>
      cases kind with
      | scalar t =>
        obtain rfl := Except.ok.inj h
        exact .zero hrep t
      | message i =>
        obtain rfl := Except.ok.inj h
        exact .message hrep i
      | enum k =>
        obtain rfl := Except.ok.inj h
        exact .first hrep (List.length_pos_iff.2 (hvalues k rfl))
    | some text =>
      cases kind with
      | scalar t =>
        obtain ⟨v, hv, rfl⟩ := Traverse.map_eq_ok.1 h
        exact .parsed hrep hv
      | message i => simp [default] at h
      | enum k =>
        cases hn : (p.enum k).named? text with
        | none => simp [default, hn] at h
        | some i =>
          obtain rfl : .enum i = value := by simpa [default, hn] using h
          obtain ⟨hlt, htext, -⟩ := List.findIdx?_eq_some_iff_getElem.1 hn
          obtain rfl : (p.enum k).values[i].name = text := by simpa using htext
          exact .named hrep (List.getElem?_eq_getElem hlt)

end Link

namespace Pool.Consistent

variable {p : Pool}

/-- **A valid field resolves to what a field of a pool is like.** -/
theorem resolved_field (h : p.Consistent) {scope : String} {f : FieldDecl} {g : FieldDef}
    (hf : f.Valid) (hlink : Link.field p scope f = .ok g) : g.Resolved p := by
  obtain ⟨kind, value, hkind, hvalue, rfl⟩ := Link.field_eq_ok_iff.1 hlink
  refine ⟨hf.name, hf.pos, hf.le, hf.unreserved, Link.within_of_kind? hkind, ?_⟩
  refine Link.given_of_default ?_ hvalue
  rintro k rfl
  exact h.values_ne_nil hkind

theorem resolved_message (h : p.Consistent) : ∀ m ∈ p.messages, m.Resolved p := by
  intro m hm
  obtain ⟨i, hi⟩ := List.mem_iff_getElem?.1 hm
  obtain ⟨scope, d, hd, -, hlinks⟩ := h.linked.types_of_message hi
  have hvalid : d.Valid := h.valid_of_types hd
  refine ⟨?_, ?_, ?_⟩
  · intro g hg
    have hlinks' : List.Forall₂ (fun g f => f ∈ d.fields ∧
        Link.field p (Name.qualify scope d.name) f = .ok g) m.fields d.fields :=
      ((List.forall₂_and_left _ _).2 ⟨fun _ hf => hf, hlinks⟩).flip
    obtain ⟨f, -, hf, hlink⟩ := Traverse.exists_of_forall₂ hlinks' hg
    exact h.resolved_field (hvalid.here.fields f hf) hlink
  · rw [Link.map_name hlinks]
    exact hvalid.here.names
  · rw [Link.map_number hlinks]
    exact hvalid.here.numbers

theorem resolved_enum (h : p.Consistent) : ∀ e ∈ p.enums, e.Resolved := by
  rw [h.linked.enums, List.forall_mem_map]
  intro e he
  have hmem : e.inScope ∈ p.decls.flatMap RecordDecl.types :=
    Layout.mem_types_iff.2 (Or.inr ⟨e, he, rfl⟩)
  have hvalid : e.decl.Valid := h.valid_of_types hmem
  have hlacks : e.decl.values.isEmpty = false := h.linked.values _ hmem
  exact ⟨List.isEmpty_eq_false_iff.1 hlacks, hvalid.named, hvalid.names, hvalid.numbers⟩

/-- The message of an index has resolved fields, also one that no message has. -/
theorem resolved_at (h : p.Consistent) (t : Nat) : (p.message t).Resolved p := by
  rcases p.message_cases t with ⟨d, hd, ht⟩ | hnil
  · rw [ht]
    exact h.resolved_message d (List.mem_of_getElem? hd)
  · constructor <;> rw [hnil]
    · exact fun _ hf => absurd hf List.not_mem_nil
    · exact List.nodup_nil
    · exact List.nodup_nil

end Pool.Consistent

end ProtoSchema
