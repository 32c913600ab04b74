import ProtoSchema.Proofs.Descriptor.Forms
import ProtoSchema.Proofs.Pool.Meaning

/-!
# Well-formed descriptors

`WellFormed files` says what a set of descriptors must satisfy, in terms of the descriptors alone: no
declarations, no pool and no order among the checks. Descriptors give a pool exactly when they are
well-formed (`wellFormed_of_ofDescriptors`, `WellFormed.exists_pool`).

Conversion, linking and the check of forms each ask for something else; field by field they ask
together for what `Field.WellFormed` says (`Field.WellFormed.fits`, `Field.wellFormed_of_fits`).
-/

namespace ProtoSchema.Descriptor

open Traverse

/-! ## What is asked of descriptors -/

/-- The declared default is a value of the field's type. -/
def Field.Accepts (types : List Described) (f : Field) (text : String) : Prop :=
  (∃ t v, f.fieldType? = some (.scalar t) ∧ Scalar.ofDefault t text = .ok v) ∨
    ∃ x ∈ types, ∃ e, f.fieldType? = some .enum ∧ x.type = .enum e ∧
      f.typeName? = some ("." ++ x.fullName) ∧ ∃ v ∈ e.values, v.name? = some text

/-- What is asked of a field among the described types. -/
structure Field.WellFormed (types : List Described) (f : Field) : Prop where
  name : ∃ name, f.name? = some name ∧ name ≠ ""
  label : ∀ n, f.label? = some n → n = 1 ∨ n = 2 ∨ n = 3
  number : ∃ n, f.number? = some n ∧ 1 ≤ n.toInt ∧ n.toInt ≤ 536870911 ∧
    ¬(19000 ≤ n.toInt ∧ n.toInt ≤ 19999)
  type : ∃ t, f.fieldType? = some t ∧ t ≠ .group
  message : f.fieldType? = some .message →
    ∃ x ∈ types, ∃ m, x.type = .message m ∧ f.typeName? = some ("." ++ x.fullName)
  enum : f.fieldType? = some .enum →
    ∃ x ∈ types, ∃ e, x.type = .enum e ∧ f.typeName? = some ("." ++ x.fullName)
  default : ∀ text, f.default? = some text → f.label? ≠ some 3 ∧ f.Accepts types text

/-- What is asked of a described type among all of them. -/
structure Described.WellFormed (types : List Described) (x : Described) : Prop where
  name : ∃ name, x.type.name? = some name ∧ name ≠ "" ∧ '.' ∉ name.toList
  message : ∀ m, x.type = .message m → (∀ f ∈ m.fields, f.WellFormed types) ∧
    (m.fields.map Field.number?).Nodup ∧ (m.fields.map Field.name?).Nodup
  enum : ∀ e, x.type = .enum e → e.values ≠ [] ∧
    (∀ v ∈ e.values, ∃ name, v.name? = some name ∧ name ≠ "") ∧
    (e.values.map Value.name?).Nodup ∧ (e.values.map fun v => v.number?.getD 0).Nodup

/-- What is asked of a set of files. -/
structure WellFormed (files : List File) : Prop where
  nonempty : files ≠ []
  types : ∀ x ∈ files.flatMap File.described, x.WellFormed (files.flatMap File.described)
  distinct : ((files.flatMap File.described).map Described.fullName).Nodup

/-! ## One field -/

theorem isSome_label_iff {n : Int32} :
    (Label.ofNumber? n).isSome = true ↔ n = 1 ∨ n = 2 ∨ n = 3 := by
  unfold Label.ofNumber?
  rw [List.find?_isSome]
  simp [Label.number, eq_comm]

namespace Field

variable {f : Field} {types : List Described} {scope : String}

theorem repeated_iff (h : ∀ n, f.label? = some n → (Label.ofNumber? n).isSome) :
    f.decl.label = .repeated ↔ f.label? = some 3 := by
  unfold decl
  cases hl : f.label? with
  | none => simp
  | some n =>
    have hn := isSome_label_iff.1 (h n hl)
    rcases hn with rfl | rfl | rfl <;> simp <;> decide

theorem name_iff : f.decl.name ≠ "" ↔ ∃ name, f.name? = some name ∧ name ≠ "" := by
  show f.name?.getD "" ≠ "" ↔ _
  cases f.name? <;> simp

/-- A field that is declared is valid when its name and its number are there and in range. -/
theorem valid_decl_iff : f.decl.Valid ↔ (∃ name, f.name? = some name ∧ name ≠ "") ∧
    ∃ n, f.number? = some n ∧ 1 ≤ n.toInt ∧ n.toInt ≤ 536870911 ∧
      ¬(19000 ≤ n.toInt ∧ n.toInt ≤ 19999) := by
  have hnumber : f.decl.number = ((f.number?.map Int32.toInt).getD 0).toNat := rfl
  constructor
  · intro h
    obtain ⟨n, hn, -⟩ := number_of_valid h
    obtain ⟨hname, hpos, hle, hres⟩ := h
    rw [hnumber, hn, Option.map_some, Option.getD_some] at hpos hle hres
    have hmax : FieldDecl.maxNumber = 536870911 := rfl
    refine ⟨name_iff.1 hname, n, hn, ?_, ?_, ?_⟩ <;> omega
  · rintro ⟨hname, n, hn, hpos, hle, hres⟩
    rw [hn, Option.map_some, Option.getD_some] at hnumber
    have hmax : FieldDecl.maxNumber = 536870911 := rfl
    refine ⟨name_iff.2 hname, ?_, ?_, ?_⟩ <;> rw [hnumber] <;> omega

theorem typeName_of_scalar {t : ScalarType} (h : f.fieldType? = some (.scalar t)) :
    f.decl.typeName = t.keyword := by
  unfold decl
  rw [h]

theorem typeName_of_named {reference : String} (hr : f.typeName? = some reference)
    (h : f.fieldType? = some .message ∨ f.fieldType? = some .enum) :
    f.decl.typeName = reference := by
  unfold decl
  rcases h with h | h <;> rw [h, hr] <;> rfl

theorem form?_eq (f : Field) : f.form? =
    match f.fieldType? with
    | some .message => some .message
    | some .enum => some .enum
    | _ => none := rfl

end Field

/-- What is meant can have the field's default and is of the form that its type says. -/
structure Field.Fits (f : Field) (target : Target) : Prop where
  default : ∀ text, f.default? = some text → f.decl.label ≠ .repeated ∧ target.Accepts text
  form : ∀ form, f.form? = some form → target.form? = some form

namespace Field

variable {f : Field} {scope : String}

/-- **A field can be linked and is formed when its type means something that fits.** -/
theorem linked_iff {rs : List RecordDecl} {p : Pool} (h : LaidOut rs p) :
    (∃ g, Link.field p scope f.decl = .ok g) ∧ f.Formed p scope ↔
      ∃ target, Means (rs.flatMap RecordDecl.types) scope f.decl.typeName target ∧
        f.Fits target := by
  have hform : ∀ {target kind}, Means (rs.flatMap RecordDecl.types) scope f.decl.typeName target →
      target.kind? p = some kind → kind.form? = target.form? := by
    intro target kind hm hk
    rcases hm.kind?_cases h hk with ⟨t, rfl, rfl⟩ | ⟨outer, m, i, rfl, rfl⟩ | ⟨outer, e, k, rfl, rfl, -⟩
    all_goals rfl
  have hdefault : ∀ {target kind}, Means (rs.flatMap RecordDecl.types) scope f.decl.typeName target →
      target.kind? p = some kind → ((∃ value, Link.default p f.decl kind = .ok value) ↔
        ∀ text, f.default? = some text → f.decl.label ≠ .repeated ∧ target.Accepts text) := by
    intro target kind hm hk
    rw [Link.default_isOk_iff]
    simp only [Link.accepts_iff h hm hk]
    exact Iff.rfl
  constructor
  · rintro ⟨⟨g, hg⟩, hformed⟩
    obtain ⟨kind, value, hkind, hvalue, -⟩ := Link.field_eq_ok_iff.1 hg
    obtain ⟨target, hmeans, hk⟩ := (Link.kind?_eq_some_iff h).1 hkind
    refine ⟨target, hmeans, (hdefault hmeans hk).1 ⟨value, hvalue⟩, ?_⟩
    intro form hf
    rw [← hform hmeans hk, ← hformed form hf, hkind, Option.bind_some]
  · rintro ⟨target, hmeans, hfits⟩
    obtain ⟨kind, hk⟩ := hmeans.kind?_isSome h
    obtain ⟨value, hvalue⟩ := (hdefault hmeans hk).2 hfits.default
    have hkind := (Link.kind?_eq_some_iff h).2 ⟨target, hmeans, hk⟩
    refine ⟨⟨_, Link.field_eq_ok_iff.2 ⟨kind, value, hkind, hvalue, rfl⟩⟩, ?_⟩
    intro form hf
    rw [hkind, Option.bind_some, hform hmeans hk]
    exact hfits.form form hf

variable {types : List Described}

/-- A well-formed field is admissible. -/
theorem WellFormed.admissible (h : f.WellFormed types) : f.Admissible := by
  have hlabel : ∀ n, f.label? = some n → (Label.ofNumber? n).isSome := by
    intro n hn
    exact isSome_label_iff.2 (h.label n hn)
  have hvalid := valid_decl_iff.2 ⟨h.name, h.number⟩
  obtain ⟨t, ht, hgroup⟩ := h.type
  cases t with
  | group => exact absurd rfl hgroup
  | scalar t => exact ⟨hlabel, Or.inl ⟨t, ht⟩, hvalid⟩
  | message =>
    obtain ⟨x, -, m, -, hname⟩ := h.message ht
    exact ⟨hlabel, Or.inr ⟨Or.inl ht, _, hname⟩, hvalid⟩
  | enum =>
    obtain ⟨x, -, e, -, hname⟩ := h.enum ht
    exact ⟨hlabel, Or.inr ⟨Or.inr ht, _, hname⟩, hvalid⟩

theorem WellFormed.label_ne (h : f.WellFormed types) {text : String} (ht : f.default? = some text) :
    f.decl.label ≠ .repeated := fun he =>
  (h.default text ht).1 ((repeated_iff h.admissible.label).1 he)

/-- A field that refers to a described type means it. -/
theorem means_of_named {x : Described} (hx : x ∈ types)
    (hname : f.typeName? = some ("." ++ x.fullName))
    (ht : f.fieldType? = some .message ∨ f.fieldType? = some .enum) :
    Means (types.map Described.decl) scope f.decl.typeName (.named x.decl) := by
  rw [typeName_of_named hname ht, ← Described.fullName_decl]
  exact .absolute (List.mem_map_of_mem hx)

theorem WellFormed.fits_scalar (h : f.WellFormed types) {t : ScalarType}
    (ht : f.fieldType? = some (.scalar t)) : f.Fits (.scalar t) := by
  refine ⟨fun text htext => ⟨h.label_ne htext, ?_⟩, ?_⟩
  · rcases (h.default text htext).2 with ⟨u, v, hu, hv⟩ | ⟨x, -, e, hu, -⟩
    · obtain rfl : t = u := by simpa [ht] using hu
      exact ⟨v, hv⟩
    · simp [ht] at hu
  · intro form hform
    simp [form?_eq, ht] at hform

theorem WellFormed.fits_message (h : f.WellFormed types) {x : Described} {m : Message}
    (ht : f.fieldType? = some .message) (hm : x.type = .message m) : f.Fits (.named x.decl) := by
  refine ⟨?_, ?_⟩
  · intro text htext
    -- Neither way of having a default is open to a message.
    rcases (h.default text htext).2 with ⟨u, v, hu, -⟩ | ⟨y, -, e, hu, -⟩
    · simp [ht] at hu
    · simp [ht] at hu
  · intro form hform
    rw [form?_eq, ht] at hform
    rw [← hform, Target.form?, Described.decl, hm]
    rfl

/-- What an enum field means fits, if it has the declared default among its values. -/
theorem WellFormed.fits_enum (h : f.WellFormed types) {x : Described} {e : Enum}
    (ht : f.fieldType? = some .enum) (he : x.type = .enum e)
    (hvalue : ∀ text, f.default? = some text → ∃ v ∈ e.values, v.name? = some text) :
    f.Fits (.named x.decl) := by
  refine ⟨fun text htext => ⟨h.label_ne htext, ?_⟩, ?_⟩
  · obtain ⟨v, hv, hname⟩ := hvalue text htext
    rw [Target.Accepts, Described.decl, he]
    refine ⟨v.decl, List.mem_map_of_mem hv, ?_⟩
    rw [Value.decl, hname]
    rfl
  · intro form hform
    rw [form?_eq, ht] at hform
    rw [← hform, Target.form?, Described.decl, he]
    rfl

/-- **What a well-formed field means fits.** -/
theorem WellFormed.fits (h : f.WellFormed types) (scope : String) :
    ∃ target, Means (types.map Described.decl) scope f.decl.typeName target ∧ f.Fits target := by
  obtain ⟨t, ht, hgroup⟩ := h.type
  cases t with
  | group => exact absurd rfl hgroup
  | scalar t =>
    refine ⟨.scalar t, ?_, h.fits_scalar ht⟩
    rw [typeName_of_scalar ht]
    exact .keyword t
  | message =>
    obtain ⟨x, hx, m, hm, hname⟩ := h.message ht
    exact ⟨_, means_of_named hx hname (Or.inl ht), h.fits_message ht hm⟩
  | enum =>
    cases hd : f.default? with
    | none =>
      obtain ⟨x, hx, e, he, hname⟩ := h.enum ht
      refine ⟨_, means_of_named hx hname (Or.inr ht), h.fits_enum ht he ?_⟩
      intro text htext
      simp [hd] at htext
    | some text =>
      -- The default says of which enum it is a value.
      rcases (h.default text hd).2 with ⟨u, v, hu, -⟩ | ⟨x, hx, e, -, he, hname, hvalue⟩
      · simp [ht] at hu
      · refine ⟨_, means_of_named hx hname (Or.inr ht), h.fits_enum ht he ?_⟩
        intro text' htext
        obtain rfl : text = text' := by simpa [hd] using htext
        exact hvalue

/-- An admissible field is well-formed when what it means fits. The enums that it may refer to name
their values. -/
theorem wellFormed_of_fits (hf : f.Admissible) {target : Target}
    (hmeans : Means (types.map Described.decl) scope f.decl.typeName target) (hfits : f.Fits target)
    (hnamed : ∀ x ∈ types, ∀ e, x.type = .enum e → ∀ v ∈ e.values, v.name? = some v.decl.name) :
    f.WellFormed types := by
  obtain ⟨hlabel, htype, hvalid⟩ := hf
  obtain ⟨hname, hnumber⟩ := valid_decl_iff.1 hvalid
  have hrepeated : f.decl.label ≠ .repeated → f.label? ≠ some 3 := by
    intro hne he
    exact hne ((repeated_iff hlabel).2 he)
  have hlabel' : ∀ n, f.label? = some n → n = 1 ∨ n = 2 ∨ n = 3 := by
    intro n hn
    exact isSome_label_iff.1 (hlabel n hn)
  rcases htype with ⟨t, ht⟩ | ⟨ht, n, hn⟩
  · rw [typeName_of_scalar ht, means_keyword_iff] at hmeans
    subst hmeans
    refine ⟨hname, hlabel', hnumber, ⟨_, ht, by simp⟩, by simp [ht], by simp [ht], ?_⟩
    intro text htext
    obtain ⟨hl, v, hv⟩ := hfits.default text htext
    exact ⟨hrepeated hl, Or.inl ⟨t, v, ht, hv⟩⟩
  · rw [typeName_of_named hn ht, means_dot_iff] at hmeans
    obtain ⟨u, hu, rfl, rfl⟩ := hmeans
    obtain ⟨x, hx, rfl⟩ := List.mem_map.1 hu
    rw [Described.fullName_decl] at hn
    obtain ⟨hdefault, hform⟩ := hfits
    obtain ⟨outer, m | e⟩ := x
    · have ht' : f.fieldType? = some .message := by
        refine ht.resolve_right ?_
        intro he
        have hf := hform .enum (by rw [form?_eq, he])
        exact absurd (Option.some.inj hf) TypeForm.noConfusion
      refine ⟨hname, hlabel', hnumber, ⟨_, ht', by simp⟩, fun _ => ⟨_, hx, m, rfl, hn⟩,
        by simp [ht'], fun text htext => ?_⟩
      exact absurd (hdefault text htext).2 id
    · have ht' : f.fieldType? = some .enum := by
        refine ht.resolve_left ?_
        intro he
        have hf := hform .message (by rw [form?_eq, he])
        exact absurd (Option.some.inj hf) TypeForm.noConfusion
      refine ⟨hname, hlabel', hnumber, ⟨_, ht', by simp⟩, by simp [ht'],
        fun _ => ⟨_, hx, e, rfl, hn⟩, fun text htext => ?_⟩
      obtain ⟨hl, v, hv, rfl⟩ := hdefault text htext
      obtain ⟨w, hw, rfl⟩ := List.mem_map.1 hv
      exact ⟨hrepeated hl, Or.inr ⟨_, hx, e, ht', rfl, hn, w, hw, hnamed _ hx e rfl w hw⟩⟩

end Field

/-! ## One type -/

/-- Where two ways of looking at elements tell the same ones apart, they find the same repetitions. -/
theorem nodup_map_congr {α β γ : Type} {f : α → β} {g : α → γ} {l : List α}
    (h : ∀ a ∈ l, ∀ b ∈ l, f a = f b ↔ g a = g b) : (l.map f).Nodup ↔ (l.map g).Nodup := by
  rw [List.Nodup, List.Nodup, List.pairwise_map, List.pairwise_map]
  constructor
  · intro hp
    exact hp.imp_of_mem fun ha hb hne he => hne ((h _ ha _ hb).2 he)
  · intro hp
    exact hp.imp_of_mem fun ha hb hne he => hne ((h _ ha _ hb).1 he)

namespace Enum

variable {e : Enum}

/-- An enum is admissible when it and its values have names, and names and numbers are their own. -/
theorem admissible_iff : e.Admissible ↔ e.decl.name ≠ "" ∧
    (∀ v ∈ e.values, ∃ name, v.name? = some name ∧ name ≠ "") ∧
    (e.values.map Value.name?).Nodup ∧ (e.values.map fun v => v.number?.getD 0).Nodup := by
  have hname : ∀ v : Value, v.decl.name ≠ "" ↔ ∃ name, v.name? = some name ∧ name ≠ "" := by
    intro v
    show v.name?.getD "" ≠ "" ↔ _
    cases v.name? <;> simp
  have hvalid : e.decl.Valid ↔ (∀ v ∈ e.values, ∃ name, v.name? = some name ∧ name ≠ "") ∧
      (e.values.map Value.name?).Nodup ∧ (e.values.map fun v => v.number?.getD 0).Nodup := by
    have hvalues : e.decl.values = e.values.map Value.decl := rfl
    have hnodup : (∀ v ∈ e.values, ∃ name, v.name? = some name ∧ name ≠ "") →
        ((e.values.map (ValueDecl.name ∘ Value.decl)).Nodup ↔ (e.values.map Value.name?).Nodup) := by
      intro hall
      refine nodup_map_congr ?_
      intro v hv w hw
      obtain ⟨n, hn, -⟩ := hall v hv
      obtain ⟨k, hk, -⟩ := hall w hw
      simp [Value.decl, hn, hk]
    constructor
    · rintro ⟨hnamed, hnames, hnumbers⟩
      rw [hvalues, List.forall_mem_map] at hnamed
      rw [hvalues, List.map_map] at hnames hnumbers
      have hall : ∀ v ∈ e.values, ∃ name, v.name? = some name ∧ name ≠ "" := by
        intro v hv
        exact (hname v).1 (hnamed v hv)
      exact ⟨hall, (hnodup hall).1 hnames, hnumbers⟩
    · rintro ⟨hall, hnames, hnumbers⟩
      refine ⟨?_, ?_, ?_⟩
      · rw [hvalues, List.forall_mem_map]
        intro v hv
        exact (hname v).2 (hall v hv)
      · rw [hvalues, List.map_map]
        exact (hnodup hall).2 hnames
      · rw [hvalues, List.map_map]
        exact hnumbers
  rw [← hvalid]
  constructor
  · intro h
    exact ⟨h.name, h.decl⟩
  · intro h
    exact ⟨h.1, h.2⟩

end Enum

/-- Valid fields have names and numbers of their own when their descriptions do. -/
theorem Message.nodup_fields_iff {m : Message} (h : ∀ f ∈ m.fields, f.decl.Valid) :
    ((m.decl.fields.map FieldDecl.number).Nodup ↔ (m.fields.map Field.number?).Nodup) ∧
      ((m.decl.fields.map FieldDecl.name).Nodup ↔ (m.fields.map Field.name?).Nodup) := by
  rw [fields_decl, List.map_map, List.map_map]
  constructor
  · refine nodup_map_congr ?_
    intro f hf g hg
    obtain ⟨n, hn, hpos, -⟩ := (Field.valid_decl_iff.1 (h f hf)).2
    obtain ⟨k, hk, hpos', -⟩ := (Field.valid_decl_iff.1 (h g hg)).2
    show ((f.number?.map Int32.toInt).getD 0).toNat = ((g.number?.map Int32.toInt).getD 0).toNat ↔ _
    rw [hn, hk, Option.map_some, Option.map_some, Option.getD_some, Option.getD_some,
      Option.some.injEq, ← Int32.toInt_inj]
    omega
  · refine nodup_map_congr ?_
    intro f hf g hg
    rw [Field.name_of_valid (h f hf), Field.name_of_valid (h g hg), Option.some.injEq]
    exact Iff.rfl

namespace Described

/-- A type that is admissible has its name. -/
theorem name?_of_ne {x : Described} (h : x.type.decl.name ≠ "") :
    x.type.name? = some x.type.decl.name := by
  rw [NamedType.name_decl] at h ⊢
  cases hn : x.type.name? with
  | none => simp [hn] at h
  | some name => rfl

theorem name_of_admissible {x : Described} (h : x.Admissible) : x.type.decl.name ≠ "" := by
  obtain ⟨scope, m | e⟩ := x
  · exact h.1
  · exact h.name

end Described

/-! ## A set of files -/

theorem map_fullName_decl (files : List File) :
    ((files.map File.decl).flatMap RecordDecl.types).map ScopedType.fullName =
      (files.flatMap File.described).map Described.fullName := by
  rw [types_decls, List.map_map]
  exact List.map_congr_left fun x _ => x.fullName_decl

section Files

variable {files : List File} {p : Pool} {scope : String}

/-- The fields of a described message that is linked and formed are well-formed. -/
theorem wellFormed_field (hlinked : Linked (files.map File.decl) p)
    (hadm : ∀ x ∈ files.flatMap File.described, x.Admissible) {m : Message}
    (hx : ⟨scope, .message m⟩ ∈ files.flatMap File.described) {f : Field} (hf : f ∈ m.fields)
    (hformed : f.Formed p (Name.qualify scope m.decl.name)) :
    f.WellFormed (files.flatMap File.described) := by
  have hmem : (⟨scope, .message m.decl⟩ : ScopedType) ∈
      (files.map File.decl).flatMap RecordDecl.types := by
    rw [types_decls]
    exact List.mem_map_of_mem hx
  have hdecl : f.decl ∈ m.decl.fields := by
    rw [Message.fields_decl]
    exact List.mem_map_of_mem hf
  obtain ⟨-, d, -, -, hlinks⟩ := hlinked.message_of_types hmem
  obtain ⟨g, -, hlink⟩ := exists_of_forall₂ hlinks hdecl
  obtain ⟨target, hmeans, hfits⟩ := (Field.linked_iff hlinked.laidOut).1 ⟨⟨g, hlink⟩, hformed⟩
  rw [types_decls] at hmeans
  obtain ⟨-, hfields, -⟩ := hadm _ hx
  refine Field.wellFormed_of_fits (hfields f hf) hmeans hfits ?_
  rintro ⟨scope', type⟩ hx' e rfl v hv
  obtain ⟨name, hname, -⟩ := (Enum.admissible_iff.1 (hadm _ hx')).2.1 v hv
  rw [Value.decl, hname]
  rfl

/-- **Descriptors that give a pool are well-formed.** -/
theorem wellFormed_of_ofDescriptors (h : Pool.ofDescriptors files = .ok p) : WellFormed files := by
  obtain ⟨hne, hadm, hlinked, hformed⟩ := Pool.ofDescriptors_eq_ok_iff.1 h
  rw [admissible_iff] at hadm
  have hmem : ∀ x ∈ files.flatMap File.described,
      x.decl ∈ (files.map File.decl).flatMap RecordDecl.types := by
    intro x hx
    rw [types_decls]
    exact List.mem_map_of_mem hx
  refine ⟨hne, fun x hx => ⟨?_, ?_, ?_⟩, ?_⟩
  · have hname := Described.name_of_admissible (hadm x hx)
    exact ⟨_, Described.name?_of_ne hname, hname, (Name.isPlain_iff.1 (hlinked.plain _ (hmem x hx))).2⟩
  · intro m hm
    obtain ⟨scope, type⟩ := x
    obtain rfl : type = .message m := hm
    obtain ⟨-, hfields, hvalid⟩ := hadm _ hx
    have hdecl : ∀ f ∈ m.fields, f.decl.Valid := by
      intro f hf
      exact (hfields f hf).decl
    refine ⟨fun f hf => wellFormed_field hlinked hadm hx hf ?_,
      (Message.nodup_fields_iff hdecl).1.1 hvalid.numbers,
      (Message.nodup_fields_iff hdecl).2.1 hvalid.names⟩
    rw [Message.name_decl]
    exact hformed _ hx f hf
  · intro e he
    obtain ⟨scope, type⟩ := x
    obtain rfl : type = .enum e := he
    have hvalues := hlinked.values _ (hmem _ hx)
    refine ⟨?_, (Enum.admissible_iff.1 (hadm _ hx)).2⟩
    intro hnil
    have hlacks : e.decl.values.isEmpty = true := by rw [Enum.decl, hnil]; rfl
    exact absurd (hlacks.symm.trans hvalues) (by decide)
  · rw [← map_fullName_decl]
    exact hlinked.distinct

end Files

namespace WellFormed

variable {files : List File}

theorem distinct_types (h : WellFormed files) :
    (((files.map File.decl).flatMap RecordDecl.types).map ScopedType.fullName).Nodup := by
  rw [map_fullName_decl]
  exact h.distinct

theorem name_ne (h : WellFormed files) {x : Described} (hx : x ∈ files.flatMap File.described) :
    x.type.decl.name ≠ "" ∧ '.' ∉ x.type.decl.name.toList := by
  obtain ⟨name, hname, hne⟩ := (h.types x hx).name
  rw [NamedType.name_decl, hname]
  exact hne

theorem admissible_enum (h : WellFormed files) {scope : String} {e : Enum}
    (hx : ⟨scope, .enum e⟩ ∈ files.flatMap File.described) : e.Admissible :=
  Enum.admissible_iff.2 ⟨(h.name_ne hx).1, ((h.types _ hx).enum e rfl).2⟩

/-- **Well-formed descriptors miss nothing.** -/
theorem admissible (h : WellFormed files) :
    ∀ x ∈ files.flatMap File.described, x.Admissible := by
  rintro ⟨scope, m | e⟩ hx
  · obtain ⟨hfields, hnumbers, hnames⟩ := (h.types _ hx).message m rfl
    have hadm : ∀ f ∈ m.fields, f.Admissible := by
      intro f hf
      exact (hfields f hf).admissible
    have hdecl : ∀ f ∈ m.fields, f.decl.Valid := by
      intro f hf
      exact (hadm f hf).decl
    have hmem : (⟨scope, .message m⟩ : Described).decl ∈
        (files.map File.decl).flatMap RecordDecl.types := by
      rw [types_decls]
      exact List.mem_map_of_mem hx
    have hsub := RecordDecl.types_sublist hmem
    refine ⟨(h.name_ne hx).1, hadm, ?_, ?_, ?_, ?_, ?_⟩
    · rw [Message.fields_decl, List.forall_mem_map]
      exact hdecl
    · exact (Message.nodup_fields_iff hdecl).1.2 hnumbers
    · exact (Message.nodup_fields_iff hdecl).2.2 hnames
    · exact MessageDecl.nodup_typeNames (h.distinct_types.sublist (hsub.map _))
    · intro d hd
      have hd' := hsub.subset (MessageDecl.enum_mem_types hd)
      rw [types_decls] at hd'
      obtain ⟨⟨scope', n | e⟩, hy, heq⟩ := List.mem_map.1 hd'
      · simp [Described.decl, NamedType.decl] at heq
      · obtain ⟨-, rfl⟩ : scope' = Name.qualify scope m.decl.name ∧ e.decl = d := by
          simpa [Described.decl, NamedType.decl] using heq
        exact (h.admissible_enum hy).decl
  · exact h.admissible_enum hx

/-- **Well-formed descriptors declare what can be linked.** -/
theorem linkable (h : WellFormed files) : Linkable (files.map File.decl) := by
  have hmem : ∀ {P : ScopedType → Prop}, (∀ x ∈ files.flatMap File.described, P x.decl) →
      ∀ t ∈ (files.map File.decl).flatMap RecordDecl.types, P t := by
    intro P hP
    rw [types_decls, List.forall_mem_map]
    exact hP
  refine ⟨hmem fun x hx => Name.isPlain_iff.2 (h.name_ne hx), hmem fun x hx => ?_,
    h.distinct_types, ?_⟩
  · obtain ⟨scope, m | e⟩ := x
    · rfl
    · have hne := ((h.types _ hx).enum e rfl).1
      show (e.values.map Value.decl).isEmpty = false
      rw [List.isEmpty_eq_false_iff, Ne, List.map_eq_nil_iff]
      exact hne
  · intro scope m hm f hf
    rw [types_decls] at hm ⊢
    obtain ⟨⟨scope', n | e⟩, hx, heq⟩ := List.mem_map.1 hm
    · obtain ⟨rfl, rfl⟩ : scope' = scope ∧ n.decl = m := by
        simpa [Described.decl, NamedType.decl] using heq
      rw [Message.fields_decl] at hf
      obtain ⟨g, hg, rfl⟩ := List.mem_map.1 hf
      obtain ⟨target, hmeans, hfits⟩ := (((h.types _ hx).message n rfl).1 g hg).fits
        (Name.qualify scope' n.decl.name)
      exact ⟨target, hmeans, hfits.default⟩
    · simp [Described.decl, NamedType.decl] at heq

/-- **Well-formed descriptors give a pool.** -/
theorem exists_pool (h : WellFormed files) : ∃ p, Pool.ofDescriptors files = .ok p := by
  obtain ⟨p, hp⟩ := linkable_iff.1 h.linkable
  refine ⟨p, Pool.ofDescriptors_eq_ok_iff.2 ⟨h.nonempty, admissible_iff.2 h.admissible, hp, ?_⟩⟩
  rintro ⟨scope, m | e⟩ hx
  · intro f hf
    have hfits := (((h.types _ hx).message m rfl).1 f hf).fits
      (Described.fullName ⟨scope, .message m⟩)
    rw [← types_decls] at hfits
    exact ((Field.linked_iff hp.laidOut).2 hfits).2
  · exact trivial

end WellFormed

end ProtoSchema.Descriptor
