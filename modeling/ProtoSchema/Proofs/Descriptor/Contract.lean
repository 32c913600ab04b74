import ProtoSchema.Proofs.Descriptor.WellFormed

/-!
# What becomes of descriptors

Descriptors that are well-formed give a pool in which each field is of the kind that its type and its
reference say (`Field.Has`); others are refused, and never for a message that went missing.
-/

namespace ProtoSchema.Descriptor

open Traverse

/-! ## What fields resolve to -/

/-- The kind is the one that the field's type and its reference say. -/
def Field.Has (p : Pool) (f : Field) : FieldKind → Prop
  | .scalar t => f.fieldType? = some (.scalar t)
  | .message i => f.fieldType? = some .message ∧ i < p.messages.length ∧
      f.typeName? = some ("." ++ (p.message i).fullName)
  | .enum i => f.fieldType? = some .enum ∧ i < p.enums.length ∧
      f.typeName? = some ("." ++ (p.enum i).fullName)

/-- **A formed field is linked to the kind that its type and its reference say.** -/
theorem Field.has_of_linked {p : Pool} {scope : String} {f : Field} {g : FieldDef}
    (hf : f.Admissible) (hformed : f.Formed p scope) (hlink : Link.field p scope f.decl = .ok g) :
    f.Has p g.kind := by
  obtain ⟨kind, value, hkind, -, rfl⟩ := Link.field_eq_ok_iff.1 hlink
  rcases hf.type with ⟨t, ht⟩ | ⟨ht, n, hn⟩
  · rw [typeName_of_scalar ht, Link.kind?_keyword] at hkind
    obtain rfl := Option.some.inj hkind
    exact ht
  · have hform : ∀ form, f.form? = some form → kind.form? = some form := by
      intro form hf
      rw [← hformed form hf, hkind, Option.bind_some]
    rw [typeName_of_named hn ht, Link.kind?_dot] at hkind
    rcases ht with ht | ht
    · have hk := hform .message (by rw [form?_eq, ht])
      cases kind with
      | message i =>
        obtain ⟨hlt, hname⟩ := Pool.fullName_of_find?_message (Link.map_kindOf_message.1 hkind)
        exact ⟨ht, hlt, by rw [hname, hn]⟩
      | _ => simp [FieldKind.form?] at hk
    · have hk := hform .enum (by rw [form?_eq, ht])
      cases kind with
      | enum i =>
        obtain ⟨hlt, hname⟩ := Pool.fullName_of_find?_enum (Link.map_kindOf_enum.1 hkind)
        exact ⟨ht, hlt, by rw [hname, hn]⟩
      | _ => simp [FieldKind.form?] at hk

/-- **In the pool that descriptors give, each described message is found with its fields.** -/
theorem fields_of_ofDescriptors {files : List File} {p : Pool}
    (h : Pool.ofDescriptors files = .ok p) {x : Described} {m : Message}
    (hx : x ∈ files.flatMap File.described) (hm : x.type = .message m) :
    ∃ i d, p.find? x.fullName = some (.message i) ∧ p.messages[i]? = some d ∧
      List.Forall₂ (fun f g => f.name? = some g.name ∧ f.number?.map Int32.toInt = some (g.number : Int) ∧
        f.Has p g.kind) m.fields d.fields := by
  obtain ⟨-, hadm, hlinked, hformed⟩ := Pool.ofDescriptors_eq_ok_iff.1 h
  rw [admissible_iff] at hadm
  obtain ⟨scope, type⟩ := x
  obtain rfl : type = .message m := hm
  obtain ⟨-, hfields, -⟩ := hadm _ hx
  have hmem : ⟨scope, .message m.decl⟩ ∈ (files.map File.decl).flatMap RecordDecl.types := by
    rw [types_decls]
    exact List.mem_map_of_mem hx
  obtain ⟨i, d, hi, hd, hlinks⟩ := hlinked.message_of_types hmem
  rw [Message.fields_decl, List.forall₂_map_left_iff] at hlinks
  rw [Message.name_decl] at hi hlinks
  refine ⟨i, d, hi, hd, ?_⟩
  have hformed' : ∀ f ∈ m.fields, f.Formed p (Name.qualify scope (m.name?.getD "")) := hformed _ hx
  refine ((List.forall₂_and_left _ _).2
    ⟨fun f hf => And.intro (hfields f hf) (hformed' f hf), hlinks⟩).imp ?_
  rintro f g ⟨⟨hf, hform⟩, hlink⟩
  refine ⟨?_, ?_, Field.has_of_linked hf hform hlink⟩
  · obtain ⟨kind, value, -, -, rfl⟩ := Link.field_eq_ok_iff.1 hlink
    exact Field.name_of_valid hf.decl
  · obtain ⟨kind, value, -, -, rfl⟩ := Link.field_eq_ok_iff.1 hlink
    obtain ⟨n, hn, hpos⟩ := Field.number_of_valid hf.decl
    have hnumber : f.decl.number = n.toInt.toNat := by rw [Field.decl, hn]; rfl
    rw [hn, hnumber, Option.map_some, Int.toNat_of_nonneg hpos]

/-! ## Refusals -/

/-- The error is not about a message that went missing. -/
def NotMissing (e : DescriptorError) : Prop := ∀ name, e ≠ .missing name

theorem refusedFor_named (part : Part) (name? : Option String) :
    RefusedFor NotMissing (named part name?) := by
  intro e he name
  unfold named at he
  split at he
  · split at he
    · rw [← Except.error.inj he]
      exact DescriptorError.noConfusion
    · simp at he
  · rw [← Except.error.inj he]
    exact DescriptorError.noConfusion

theorem refusedFor_inRecord {α : Type} (record : String) (x : Except DefinitionError α) :
    RefusedFor NotMissing (inRecord record x) := by
  cases x with
  | ok a => exact refusedFor_ok a
  | error e => exact refusedFor_error.2 fun name => DescriptorError.noConfusion

theorem Field.refusedFor_toDecl (record message : String) (f : Field) :
    RefusedFor NotMissing (f.toDecl record message) := by
  unfold toDecl
  refine refusedFor_bind (refusedFor_named _ _) ?_
  intro name _
  refine refusedFor_bind ?_ fun label _ => refusedFor_bind ?_ fun typeName _ =>
    refusedFor_bind ?_ fun number _ => refusedFor_bind (refusedFor_inRecord _ _) fun d _ =>
      refusedFor_ok _
  · cases f.label with
    | ok a => exact refusedFor_ok a
    | error e => exact refusedFor_error.2 fun name => DescriptorError.noConfusion
  · cases f.typeName with
    | ok a => exact refusedFor_ok a
    | error e => exact refusedFor_error.2 fun name => DescriptorError.noConfusion
  · cases f.number with
    | ok a => exact refusedFor_ok a
    | error e => exact refusedFor_error.2 fun name => DescriptorError.noConfusion

theorem Enum.refusedFor_toDecl (record : String) (e : Enum) :
    RefusedFor NotMissing (e.toDecl record) := by
  unfold toDecl
  refine refusedFor_bind (refusedFor_named _ _) fun name _ => refusedFor_foldlM ?_ _
  intro d v _
  exact refusedFor_bind (refusedFor_named _ _) fun name _ => refusedFor_inRecord _ _

namespace Message

mutual

theorem refusedFor_toDecl (record : String) : ∀ m : Message,
    RefusedFor NotMissing (m.toDecl record)
  | ⟨name?, fields, messages, enums⟩ => by
    rw [toDecl]
    refine refusedFor_bind (refusedFor_named _ _) ?_
    intro name _
    refine refusedFor_bind (refusedFor_foldlM ?_ _) ?_
    · intro d f _
      exact refusedFor_bind (Field.refusedFor_toDecl _ _ f) fun d _ => refusedFor_inRecord _ _
    intro d _
    refine refusedFor_bind (refusedFor_foldlM ?_ _) ?_
    · intro d e _
      exact refusedFor_bind (Enum.refusedFor_toDecl _ e) fun d _ => refusedFor_inRecord _ _
    intro d _
    exact refusedFor_nest record messages d

theorem refusedFor_nest (record : String) : ∀ (ms : List Message) (b : MessageDecl),
    RefusedFor NotMissing (nest record b ms)
  | [], b => by
    rw [nest]
    exact refusedFor_ok b
  | m :: ms, b => by
    rw [nest]
    exact refusedFor_bind (refusedFor_toDecl record m) fun n _ =>
      refusedFor_bind (refusedFor_inRecord _ _) fun b _ => refusedFor_nest record ms b

end

end Message

theorem File.refusedFor_toDecl (f : File) : RefusedFor NotMissing f.toDecl := by
  unfold toDecl
  refine refusedFor_bind (refusedFor_mapM fun m _ => Message.refusedFor_toDecl _ m) ?_
  intro ms _
  refine refusedFor_bind (refusedFor_mapM fun e _ => Enum.refusedFor_toDecl _ e) ?_
  intro es _
  exact refusedFor_ok _

namespace Message

variable {p : Pool}

mutual

/-- No message goes missing where every described one is found. -/
theorem refusedFor_checkForms (scope : String) : ∀ m : Message,
    (∀ x ∈ m.described scope, ∀ n, x.type = .message n → ∃ i, p.find? x.fullName = some (.message i)) →
      RefusedFor NotMissing (m.checkForms p scope)
  | ⟨name?, fields, messages, enums⟩, hfound => by
    rw [described, List.forall_mem_cons, List.forall_mem_append] at hfound
    obtain ⟨hhere, -, hnested⟩ := hfound
    obtain ⟨i, hi⟩ := hhere _ rfl
    have hi' : p.find? (Name.qualify scope (name?.getD "")) = some (.message i) := hi
    rw [checkForms]
    simp only [hi']
    refine refusedFor_bind (refusedFor_forM fun f _ => ?_) fun _ _ =>
      refusedFor_checkFormsList _ messages hnested
    unfold Field.checkForm
    split
    · exact refusedFor_ok ()
    · split
      · exact refusedFor_ok ()
      · exact refusedFor_error.2 fun name => DescriptorError.noConfusion

theorem refusedFor_checkFormsList (scope : String) : ∀ ms : List Message,
    (∀ x ∈ describedList scope ms, ∀ n, x.type = .message n →
      ∃ i, p.find? x.fullName = some (.message i)) →
      RefusedFor NotMissing (checkFormsList p scope ms)
  | [], _ => by
    rw [checkFormsList]
    exact refusedFor_ok ()
  | m :: ms, hfound => by
    rw [describedList, List.forall_mem_append] at hfound
    rw [checkFormsList]
    exact refusedFor_bind (refusedFor_checkForms scope m hfound.1) fun _ _ =>
      refusedFor_checkFormsList scope ms hfound.2

end

end Message

/-- **No message goes missing after linking.** -/
theorem refusedFor_ofDescriptors (files : List File) :
    RefusedFor NotMissing (Pool.ofDescriptors files) := by
  unfold Pool.ofDescriptors
  split
  · exact refusedFor_error.2 fun name => DescriptorError.noConfusion
  · refine refusedFor_bind (refusedFor_mapM fun f _ => f.refusedFor_toDecl) ?_
    intro decls hdecls
    obtain ⟨-, rfl⟩ := File.mapM_toDecl_eq_ok_iff.1 hdecls
    cases hl : Pool.link (files.map File.decl) with
    | error e => exact refusedFor_error.2 fun name => DescriptorError.noConfusion
    | ok p =>
      have hlinked := link_eq_ok_iff.1 hl
      refine refusedFor_bind (refusedFor_forM ?_) fun _ _ => refusedFor_ok p
      intro f hf
      refine Message.refusedFor_checkFormsList _ _ ?_
      intro x hx m hm
      have hmem : x ∈ files.flatMap File.described :=
        List.mem_flatMap.2 ⟨f, hf, List.mem_append_left _ hx⟩
      obtain ⟨scope, type⟩ := x
      obtain rfl : type = .message m := hm
      rw [← Described.fullName_decl]
      refine hlinked.laidOut.message_of_types ?_
      rw [types_decls]
      exact List.mem_map_of_mem hmem

/-! ## The contract -/

/-- Every error of descriptors is worded as one. -/
theorem message_eq (e : DescriptorError) : ∃ reason, e.message = "Malformed descriptor: " ++ reason :=
  ⟨_, rfl⟩

end ProtoSchema.Descriptor

namespace ProtoSchema

open Descriptor in
/-- **Descriptors give a pool exactly when they are well-formed.** Refusals are worded as such and are
never about a message that went missing, and what fields resolve to is what they say. -/
theorem Pool.ofDescriptors_wellFormed (files : List File) :
    ((∃ p, ofDescriptors files = .ok p) ↔ WellFormed files) ∧
      (∀ e, ofDescriptors files = .error e →
        (∃ reason, e.message = "Malformed descriptor: " ++ reason) ∧ ∀ name, e ≠ .missing name) ∧
      ∀ p, ofDescriptors files = .ok p → ∀ x ∈ files.flatMap File.described,
        ∀ m, x.type = .message m → ∃ i d, p.find? x.fullName = some (.message i) ∧
          p.messages[i]? = some d ∧ List.Forall₂ (fun f g => f.name? = some g.name ∧
            f.number?.map Int32.toInt = some (g.number : Int) ∧ f.Has p g.kind) m.fields d.fields := by
  refine ⟨⟨fun ⟨p, h⟩ => wellFormed_of_ofDescriptors h, WellFormed.exists_pool⟩, ?_, ?_⟩
  · intro e he
    exact ⟨message_eq e, refusedFor_ofDescriptors files e he⟩
  · intro p h x hx m hm
    exact fields_of_ofDescriptors h hx hm

end ProtoSchema
