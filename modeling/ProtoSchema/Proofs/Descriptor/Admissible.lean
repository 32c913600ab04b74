import ProtoSchema.Descriptor.Decl
import ProtoSchema.Proofs.Name
import ProtoSchema.Proofs.Traverse
import ProtoSchema.Proofs.Valid

/-!
# What descriptors declare

A descriptor may lack any part. `decl` is the declaration that it gives when nothing is missing, with
something in the place of what is, and `Admissible` says when nothing is missing and what is there
declares something valid. Turning descriptors into declarations succeeds exactly on admissible ones
and gives `decl` (`Message.toDecl_eq_ok_iff`, `File.toDecl_eq_ok_iff`): the four layers of checks come
down to one predicate on the descriptor and one on the declaration.
-/

namespace ProtoSchema.Descriptor

open Traverse

/-! ## Parts -/

theorem named_eq_ok_iff {part : Part} {name? : Option String} {name : String} :
    named part name? = .ok name ↔ name? = some name ∧ name ≠ "" := by
  cases name? with
  | none => simp [named]
  | some n =>
    rw [named, Option.some.injEq]
    split
    · next h =>
      subst h
      constructor
      · intro h
        simp at h
      · rintro ⟨h, hne⟩
        exact absurd h.symm hne
    · next h =>
      rw [Except.ok.injEq]
      constructor
      · intro he
        exact ⟨he, he ▸ h⟩
      · intro he
        exact he.1

theorem inRecord_eq_ok_iff {α : Type} {record : String} {x : Except DefinitionError α} {a : α} :
    inRecord record x = .ok a ↔ x = .ok a := by
  cases x <;> simp [inRecord]

/-! ## Fields -/

namespace Field

/-- The type, if its number stands for one. -/
def fieldType? (f : Field) : Option FieldType := f.type?.bind FieldType.ofNumber?

/-- What the description declares. -/
def decl (f : Field) : FieldDecl where
  label := (f.label?.bind Label.ofNumber?).getD .optional
  typeName :=
    match f.fieldType? with
    | some (.scalar t) => t.keyword
    | _ => f.typeName?.getD ""
  name := f.name?.getD ""
  number := ((f.number?.map Int32.toInt).getD 0).toNat
  default? := f.default?

/-- Nothing is missing in the description, and it declares a valid field. -/
structure Admissible (f : Field) : Prop where
  label : ∀ n, f.label? = some n → (Label.ofNumber? n).isSome
  /-- The type is known, and it is a scalar type or one that is referred to by an absolute name. -/
  type : (∃ t, f.fieldType? = some (.scalar t)) ∨
    (f.fieldType? = some .message ∨ f.fieldType? = some .enum) ∧ ∃ n, f.typeName? = some ("." ++ n)
  decl : f.decl.Valid

theorem label_eq_ok_iff {f : Field} {l : Label} : f.label = .ok l ↔
    (∀ n, f.label? = some n → (Label.ofNumber? n).isSome) ∧ f.decl.label = l := by
  unfold label decl
  cases hl : f.label? with
  | none => simp
  | some n => cases hn : Label.ofNumber? n <;> simp [hn]

theorem isSome_absolute?_iff {reference : String} :
    (Name.absolute? reference).isSome = true ↔ ∃ n, reference = "." ++ n := by
  rw [Option.isSome_iff_exists]
  simp only [Name.absolute?_eq_some_iff]

theorem typeName_eq_ok_iff {f : Field} {typeName : String} : f.typeName = .ok typeName ↔
    ((∃ t, f.fieldType? = some (.scalar t)) ∨
      (f.fieldType? = some .message ∨ f.fieldType? = some .enum) ∧
        ∃ n, f.typeName? = some ("." ++ n)) ∧ f.decl.typeName = typeName := by
  unfold Field.typeName decl fieldType?
  cases ht : f.type? with
  | none => simp
  | some k =>
    cases hk : FieldType.ofNumber? k with
    | none => simp [hk]
    | some t =>
      cases t with
      | scalar t => simp [hk]
      | group => simp [hk]
      | message =>
        cases hr : f.typeName? with
        | none => simp [hk]
        | some reference =>
          by_cases hd : ∃ n, reference = "." ++ n <;> simp [hk, isSome_absolute?_iff, hd]
      | enum =>
        cases hr : f.typeName? with
        | none => simp [hk]
        | some reference =>
          by_cases hd : ∃ n, reference = "." ++ n <;> simp [hk, isSome_absolute?_iff, hd]

theorem number_eq_ok_iff {f : Field} {n : Nat} : f.number = .ok n ↔
    (∃ k, f.number? = some k ∧ 0 ≤ k.toInt) ∧ f.decl.number = n := by
  unfold Field.number decl
  cases hn : f.number? with
  | none => simp
  | some k =>
    have hk : k < 0 ↔ k.toInt < 0 := by rw [Int32.lt_iff_toInt_lt]; rfl
    by_cases hneg : k.toInt < 0
    · simp [hk, hneg, Int.not_le.2 hneg]
    · simp [hk, hneg, Int.not_lt.1 hneg]

/-- A valid declaration has a number above zero, so the description's own number is there. -/
theorem number_of_valid {f : Field} (h : f.decl.Valid) : ∃ k, f.number? = some k ∧ 0 ≤ k.toInt := by
  have hpos : 1 ≤ ((f.number?.map Int32.toInt).getD 0).toNat := h.pos
  cases hn : f.number? with
  | none => simp [hn] at hpos
  | some k =>
    rw [hn, Option.map_some, Option.getD_some] at hpos
    exact ⟨k, rfl, by omega⟩

/-- A valid declaration has a name, so the description's own name is there. -/
theorem name_of_valid {f : Field} (h : f.decl.Valid) : f.name? = some f.decl.name := by
  have hne : f.name?.getD "" ≠ "" := h.name
  show f.name? = some (f.name?.getD "")
  cases hn : f.name? with
  | none => simp [hn] at hne
  | some name => rfl

/-- Naming the field that is at fault refuses nothing else. -/
theorem fault_eq_ok_iff {α : Type} {message name : String} {x : Except FieldFault α} {a : α} :
    (match x with
      | .ok a => Except.ok a
      | .error e => Except.error (DescriptorError.field message name e)) = .ok a ↔ x = .ok a := by
  cases x <;> simp

/-- **A field's description gives a declaration when it is admissible.** -/
theorem toDecl_eq_ok_iff {record message : String} {f : Field} {d : FieldDecl} :
    f.toDecl record message = .ok d ↔ f.Admissible ∧ d = f.decl := by
  unfold toDecl
  rw [bind_eq_ok]
  constructor
  · rintro ⟨name, hname, h⟩
    obtain ⟨label, hlabel, h⟩ := bind_eq_ok.1 h
    obtain ⟨typeName, htype, h⟩ := bind_eq_ok.1 h
    obtain ⟨number, hnumber, h⟩ := bind_eq_ok.1 h
    obtain ⟨g, hg, h⟩ := bind_eq_ok.1 h
    obtain rfl := Except.ok.inj h
    obtain ⟨hname', -⟩ := named_eq_ok_iff.1 hname
    obtain ⟨hlabels, rfl⟩ := label_eq_ok_iff.1 (fault_eq_ok_iff.1 hlabel)
    obtain ⟨htypes, rfl⟩ := typeName_eq_ok_iff.1 (fault_eq_ok_iff.1 htype)
    obtain ⟨-, rfl⟩ := number_eq_ok_iff.1 (fault_eq_ok_iff.1 hnumber)
    obtain ⟨rfl, hvalid⟩ := FieldDecl.make_eq_ok_iff.1 (inRecord_eq_ok_iff.1 hg)
    have hn : f.decl.name = name := by rw [decl, hname']; rfl
    refine ⟨⟨hlabels, htypes, ?_⟩, ?_⟩
    · exact ⟨hn ▸ hvalid.name, hvalid.pos, hvalid.le, hvalid.unreserved⟩
    · rw [← hn]
      rfl
  · rintro ⟨⟨hlabels, htypes, hvalid⟩, rfl⟩
    refine ⟨f.decl.name, named_eq_ok_iff.2 ⟨name_of_valid hvalid, hvalid.name⟩, ?_⟩
    refine bind_eq_ok.2 ⟨f.decl.label, ?_, bind_eq_ok.2 ⟨f.decl.typeName, ?_,
      bind_eq_ok.2 ⟨f.decl.number, ?_, bind_eq_ok.2 ⟨{ f.decl with default? := none }, ?_, rfl⟩⟩⟩⟩
    · exact fault_eq_ok_iff.2 (label_eq_ok_iff.2 ⟨hlabels, rfl⟩)
    · exact fault_eq_ok_iff.2 (typeName_eq_ok_iff.2 ⟨htypes, rfl⟩)
    · exact fault_eq_ok_iff.2 (number_eq_ok_iff.2 ⟨number_of_valid hvalid, rfl⟩)
    · refine inRecord_eq_ok_iff.2 (FieldDecl.make_eq_ok_iff.2 ⟨rfl, ?_⟩)
      exact ⟨hvalid.name, hvalid.pos, hvalid.le, hvalid.unreserved⟩

end Field

/-! ## Enums -/

/-- What the description of a value declares. -/
def Value.decl (v : Value) : ValueDecl := ⟨v.name?.getD "", v.number?.getD 0⟩

namespace Enum

/-- What the description declares. -/
def decl (e : Enum) : EnumDecl := ⟨e.name?.getD "", e.values.map Value.decl⟩

/-- The enum has a name and declares valid values. -/
structure Admissible (e : Enum) : Prop where
  name : e.decl.name ≠ ""
  decl : e.decl.Valid

/-- The declaration with the described value behind its own. -/
def grow (b : EnumDecl) (v : Value) : EnumDecl := { b with values := b.values ++ [v.decl] }

theorem foldl_grow (vs : List Value) : ∀ b : EnumDecl,
    vs.foldl grow b = { b with values := b.values ++ vs.map Value.decl } := by
  induction vs with
  | nil => exact fun b => by rw [List.foldl_nil, List.map_nil, List.append_nil]
  | cons v vs ih =>
    intro b
    rw [List.foldl_cons, ih, List.map_cons, List.append_cons]
    rfl

theorem valid_of_grow (v : Value) (b : EnumDecl) (h : (grow b v).Valid) : b.Valid :=
  (EnumDecl.valid_append_iff.1 h).1

theorem addValue_eq_ok_iff (record : String) (v : Value) (b b' : EnumDecl) (hb : b.Valid) :
    (do inRecord record (b.addValue (← named .value v.name?) (v.number?.getD 0))) = .ok b' ↔
      True ∧ (grow b v).Valid ∧ b' = grow b v := by
  rw [bind_eq_ok, grow, EnumDecl.valid_append_iff]
  constructor
  · rintro ⟨name, hname, h⟩
    obtain ⟨hname, -⟩ := named_eq_ok_iff.1 hname
    have hv : v.decl = ⟨name, v.number?.getD 0⟩ := by rw [Value.decl, hname]; rfl
    rw [hv]
    obtain ⟨rfl, hnew⟩ := EnumDecl.addValue_eq_ok_iff.1 (inRecord_eq_ok_iff.1 h)
    exact ⟨trivial, ⟨hb, hnew⟩, rfl⟩
  · rintro ⟨-, ⟨-, hne, hnew⟩, rfl⟩
    have hname : v.name? = some v.decl.name := by
      cases hn : v.name? with
      | none => simp [Value.decl, hn] at hne
      | some name => rw [Value.decl, hn]; rfl
    exact ⟨v.decl.name, named_eq_ok_iff.2 ⟨hname, hne⟩,
      inRecord_eq_ok_iff.2 (EnumDecl.addValue_eq_ok_iff.2 ⟨rfl, hne, hnew⟩)⟩

theorem name_of_ne {e : Enum} (h : e.decl.name ≠ "") : e.name? = some e.decl.name := by
  cases hn : e.name? with
  | none => simp [decl, hn] at h
  | some name => rw [decl, hn]; rfl

/-- **An enum's description gives a declaration when it is admissible.** -/
theorem toDecl_eq_ok_iff {record : String} {e : Enum} {d : EnumDecl} :
    e.toDecl record = .ok d ↔ e.Admissible ∧ d = e.decl := by
  unfold toDecl
  rw [bind_eq_ok]
  constructor
  · rintro ⟨name, hname, h⟩
    obtain ⟨hname, hne⟩ := named_eq_ok_iff.1 hname
    have hd : e.decl = ⟨name, e.values.map Value.decl⟩ := by rw [decl, hname]; rfl
    obtain ⟨-, hvalid, rfl⟩ := (foldlM_eq_ok (addValue_eq_ok_iff record) valid_of_grow
      (EnumDecl.valid_empty name)).1 h
    rw [foldl_grow, List.nil_append, ← hd] at hvalid ⊢
    exact ⟨⟨by rw [hd]; exact hne, hvalid⟩, rfl⟩
  · rintro ⟨⟨hne, hvalid⟩, rfl⟩
    refine ⟨e.decl.name, named_eq_ok_iff.2 ⟨name_of_ne hne, hne⟩, ?_⟩
    refine (foldlM_eq_ok (addValue_eq_ok_iff record) valid_of_grow
      (EnumDecl.valid_empty _)).2 ⟨fun _ _ => trivial, ?_, ?_⟩
    · rw [foldl_grow, List.nil_append]
      exact hvalid
    · rw [foldl_grow, List.nil_append]
      rfl

end Enum

/-! ## Messages -/

namespace Message

mutual

/-- What the description declares. -/
def decl : Message → MessageDecl
  | ⟨name?, fields, messages, enums⟩ =>
    ⟨name?.getD "", fields.map Field.decl, declList messages, enums.map Enum.decl⟩

def declList : List Message → List MessageDecl
  | [] => []
  | m :: ms => m.decl :: declList ms

end

theorem declList_eq_map (ms : List Message) : declList ms = ms.map decl := by
  induction ms with
  | nil => rw [declList, List.map_nil]
  | cons m ms ih => rw [declList, ih, List.map_cons]

@[simp] theorem name_decl : ∀ m : Message, m.decl.name = m.name?.getD ""
  | ⟨_, _, _, _⟩ => by rw [decl]

@[simp] theorem fields_decl : ∀ m : Message, m.decl.fields = m.fields.map Field.decl
  | ⟨_, _, _, _⟩ => by rw [decl]

@[simp] theorem messages_decl : ∀ m : Message, m.decl.messages = m.messages.map decl
  | ⟨_, _, _, _⟩ => by rw [decl, declList_eq_map]

/-- The message has a name, its parts are admissible and declare something valid, down to the
innermost. -/
inductive Admissible : Message → Prop
  | mk {m} (name : m.decl.name ≠ "") (fields : ∀ f ∈ m.fields, f.Admissible)
    (enums : ∀ e ∈ m.enums, e.Admissible) (here : m.decl.LocallyValid)
    (nested : ∀ n ∈ m.messages, Admissible n) : Admissible m

/-! ### Adding parts -/

/-- The declaration with the described field behind its own. -/
def growField (b : MessageDecl) (f : Field) : MessageDecl := { b with fields := b.fields ++ [f.decl] }

theorem foldl_growField (fs : List Field) : ∀ b : MessageDecl,
    fs.foldl growField b = { b with fields := b.fields ++ fs.map Field.decl } := by
  induction fs with
  | nil =>
    rintro ⟨name, fields, messages, enums⟩
    rw [List.foldl_nil, List.map_nil, List.append_nil]
  | cons f fs ih =>
    intro b
    rw [List.foldl_cons, ih, List.map_cons, List.append_cons]
    rfl

theorem addField_eq_ok_iff (record message : String) (f : Field) (b b' : MessageDecl)
    (hb : b.LocallyValid) :
    (do inRecord record (b.addField (← f.toDecl record message))) = .ok b' ↔
      f.Admissible ∧ (growField b f).LocallyValid ∧ b' = growField b f := by
  rw [bind_eq_ok, growField, MessageDecl.locallyValid_addField_iff]
  constructor
  · rintro ⟨g, hg, h⟩
    obtain ⟨hf, rfl⟩ := Field.toDecl_eq_ok_iff.1 hg
    obtain ⟨rfl, hnew⟩ := MessageDecl.addField_eq_ok_iff.1 (inRecord_eq_ok_iff.1 h)
    exact ⟨hf, ⟨hb, hf.decl, hnew⟩, rfl⟩
  · rintro ⟨hf, ⟨-, -, hnew⟩, rfl⟩
    exact ⟨f.decl, Field.toDecl_eq_ok_iff.2 ⟨hf, rfl⟩,
      inRecord_eq_ok_iff.2 (MessageDecl.addField_eq_ok_iff.2 ⟨rfl, hnew⟩)⟩

/-- The declaration with the described enum behind its own. -/
def growEnum (b : MessageDecl) (e : Enum) : MessageDecl := { b with enums := b.enums ++ [e.decl] }

theorem foldl_growEnum (es : List Enum) : ∀ b : MessageDecl,
    es.foldl growEnum b = { b with enums := b.enums ++ es.map Enum.decl } := by
  induction es with
  | nil =>
    rintro ⟨name, fields, messages, enums⟩
    rw [List.foldl_nil, List.map_nil, List.append_nil]
  | cons e es ih =>
    intro b
    rw [List.foldl_cons, ih, List.map_cons, List.append_cons]
    rfl

theorem addEnum_eq_ok_iff (record : String) (e : Enum) (b b' : MessageDecl)
    (hb : b.LocallyValid) :
    (do inRecord record (b.addEnum (← e.toDecl record))) = .ok b' ↔
      e.Admissible ∧ (growEnum b e).LocallyValid ∧ b' = growEnum b e := by
  rw [bind_eq_ok, growEnum, MessageDecl.locallyValid_addEnum_iff]
  constructor
  · rintro ⟨d, hd, h⟩
    obtain ⟨he, rfl⟩ := Enum.toDecl_eq_ok_iff.1 hd
    obtain ⟨rfl, hnew⟩ := MessageDecl.addEnum_eq_ok_iff.1 (inRecord_eq_ok_iff.1 h)
    exact ⟨he, ⟨hb, he.decl, hnew⟩, rfl⟩
  · rintro ⟨he, ⟨-, -, hnew⟩, rfl⟩
    exact ⟨e.decl, Enum.toDecl_eq_ok_iff.2 ⟨he, rfl⟩,
      inRecord_eq_ok_iff.2 (MessageDecl.addEnum_eq_ok_iff.2 ⟨rfl, hnew⟩)⟩

/-- Without some of its enums a message is valid as well. -/
theorem locallyValid_of_append_enums {b : MessageDecl} {es : List EnumDecl}
    (h : MessageDecl.LocallyValid { b with enums := b.enums ++ es }) : b.LocallyValid := by
  obtain ⟨h1, h2, h3, h4, h5⟩ := h
  refine ⟨h1, h2, h3, h4.sublist ?_, fun e he => h5 e (List.mem_append_left _ he)⟩
  simp only [MessageDecl.typeNames, List.map_append]
  exact (List.sublist_append_left _ _).append_left _

/-- Without some of its nested messages a message is valid as well. -/
theorem locallyValid_of_append {b : MessageDecl} {ns : List MessageDecl}
    (h : MessageDecl.LocallyValid { b with messages := b.messages ++ ns }) : b.LocallyValid := by
  obtain ⟨h1, h2, h3, h4, h5⟩ := h
  refine ⟨h1, h2, h3, h4.sublist ?_, h5⟩
  simp only [MessageDecl.typeNames, List.map_append]
  exact (List.sublist_append_left _ _).append_right _

theorem name_of_ne {m : Message} (h : m.decl.name ≠ "") : m.name? = some m.decl.name := by
  rw [name_decl] at h ⊢
  cases hn : m.name? with
  | none => simp [hn] at h
  | some name => rfl

/-- What the parts of a message come to, one after the other. -/
theorem grown_eq_decl {m : Message} {name : String} (h : m.name? = some name) :
    ({ m.enums.foldl growEnum (m.fields.foldl growField (MessageDecl.empty name)) with
        messages := (m.enums.foldl growEnum
          (m.fields.foldl growField (MessageDecl.empty name))).messages ++ m.messages.map decl } :
      MessageDecl) = m.decl := by
  obtain ⟨name?, fields, messages, enums⟩ := m
  obtain rfl : name? = some name := h
  rw [foldl_growEnum, foldl_growField, decl, declList_eq_map]
  rfl

mutual

/-- **A message's description gives a declaration when it is admissible.** -/
theorem toDecl_eq_ok_iff (record : String) : ∀ {m : Message} {d : MessageDecl},
    m.toDecl record = .ok d ↔ m.Admissible ∧ d = m.decl
  | ⟨name?, fields, messages, enums⟩, d => by
    have hgrown : ∀ name, name? = some name → _ := fun name h =>
      grown_eq_decl (m := ⟨name?, fields, messages, enums⟩) h
    rw [toDecl, bind_eq_ok]
    constructor
    · rintro ⟨name, hname, h⟩
      obtain ⟨hname, hne⟩ := named_eq_ok_iff.1 hname
      obtain ⟨d1, h1, h⟩ := bind_eq_ok.1 h
      obtain ⟨d2, h2, h⟩ := bind_eq_ok.1 h
      obtain ⟨hf, hv1, rfl⟩ := (foldlM_eq_ok (addField_eq_ok_iff record name)
        (fun _ _ h => (MessageDecl.locallyValid_addField_iff.1 h).1)
        (MessageDecl.locallyValid_empty name)).1 h1
      obtain ⟨he, hv2, rfl⟩ := (foldlM_eq_ok (addEnum_eq_ok_iff record)
        (fun _ _ h => (MessageDecl.locallyValid_addEnum_iff.1 h).1) hv1).1 h2
      obtain ⟨hn, hv3, rfl⟩ := (nest_eq_ok_iff record hv2).1 h
      rw [hgrown name hname] at hv3 ⊢
      refine ⟨⟨?_, hf, he, hv3, hn⟩, rfl⟩
      rw [name_decl, hname]
      exact hne
    · rintro ⟨⟨hne, hf, he, hv, hn⟩, rfl⟩
      obtain ⟨name, hname⟩ : ∃ name, name? = some name := ⟨_, name_of_ne hne⟩
      have hne' : name ≠ "" := by
        rw [name_decl, hname] at hne
        exact hne
      -- What holds of the whole message holds of it with fields only, and with fields and enums.
      rw [← hgrown name hname] at hv
      have hv2 := locallyValid_of_append hv
      have hv1 : (fields.foldl growField (MessageDecl.empty name)).LocallyValid := by
        rw [foldl_growEnum] at hv2
        exact locallyValid_of_append_enums hv2
      refine ⟨name, named_eq_ok_iff.2 ⟨hname, hne'⟩, ?_⟩
      refine bind_eq_ok.2 ⟨_, (foldlM_eq_ok (addField_eq_ok_iff record name)
        (fun _ _ h => (MessageDecl.locallyValid_addField_iff.1 h).1)
        (MessageDecl.locallyValid_empty name)).2 ⟨hf, hv1, rfl⟩, ?_⟩
      refine bind_eq_ok.2 ⟨_, (foldlM_eq_ok (addEnum_eq_ok_iff record)
        (fun _ _ h => (MessageDecl.locallyValid_addEnum_iff.1 h).1) hv1).2 ⟨he, hv2, rfl⟩, ?_⟩
      exact (nest_eq_ok_iff record hv2).2 ⟨hn, hv, (hgrown name hname).symm⟩

theorem nest_eq_ok_iff (record : String) : ∀ {ms : List Message} {b d : MessageDecl},
    b.LocallyValid → (nest record b ms = .ok d ↔
      (∀ m ∈ ms, m.Admissible) ∧
        MessageDecl.LocallyValid { b with messages := b.messages ++ ms.map decl } ∧
          d = { b with messages := b.messages ++ ms.map decl })
  | [], ⟨_, _, _, _⟩, d, hb => by
    rw [nest, Except.ok.injEq, List.map_nil, List.append_nil]
    constructor
    · intro h
      exact ⟨fun _ h => absurd h List.not_mem_nil, hb, h.symm⟩
    · intro h
      exact h.2.2.symm
  | m :: ms, b, d, hb => by
    rw [nest, bind_eq_ok, List.forall_mem_cons, List.map_cons, List.append_cons]
    constructor
    · rintro ⟨n, hn, h⟩
      obtain ⟨b', hb', h⟩ := bind_eq_ok.1 h
      obtain ⟨hm, rfl⟩ := (toDecl_eq_ok_iff record).1 hn
      obtain ⟨rfl, hnew⟩ := MessageDecl.addMessage_eq_ok_iff.1 (inRecord_eq_ok_iff.1 hb')
      obtain ⟨hms, hv, rfl⟩ := (nest_eq_ok_iff record
        (MessageDecl.locallyValid_addMessage_iff.2 ⟨hb, hnew⟩)).1 h
      exact ⟨⟨hm, hms⟩, hv, rfl⟩
    · rintro ⟨⟨hm, hms⟩, hv, rfl⟩
      have hb' : MessageDecl.LocallyValid { b with messages := b.messages ++ [m.decl] } :=
        locallyValid_of_append hv
      have hnew := (MessageDecl.locallyValid_addMessage_iff.1 hb').2
      refine ⟨m.decl, (toDecl_eq_ok_iff record).2 ⟨hm, rfl⟩, ?_⟩
      refine bind_eq_ok.2 ⟨_, inRecord_eq_ok_iff.2
        (MessageDecl.addMessage_eq_ok_iff.2 ⟨rfl, hnew⟩), ?_⟩
      exact (nest_eq_ok_iff record hb').2 ⟨hms, hv, rfl⟩

end

end Message

/-! ## Files -/

namespace File

/-- What the description declares. -/
def decl (f : File) : RecordDecl where
  name := f.name?.getD ""
  package := f.package?.getD ""
  dependencies := f.dependencies
  messages := f.messages.map Message.decl
  enums := f.enums.map Enum.decl

/-- The top-level types are admissible. A file needs no name. -/
structure Admissible (f : File) : Prop where
  messages : ∀ m ∈ f.messages, m.Admissible
  enums : ∀ e ∈ f.enums, e.Admissible

/-- **A file's description gives a declaration when it is admissible.** -/
theorem toDecl_eq_ok_iff {f : File} {r : RecordDecl} :
    f.toDecl = .ok r ↔ f.Admissible ∧ r = f.decl := by
  have hm : ∀ ms, f.messages.mapM (·.toDecl (f.name?.getD "")) = .ok ms ↔
      (∀ m ∈ f.messages, m.Admissible) ∧ ms = f.messages.map Message.decl := fun ms =>
    mapM_eq_ok_map fun _ _ => Message.toDecl_eq_ok_iff _
  have he : ∀ es, f.enums.mapM (·.toDecl (f.name?.getD "")) = .ok es ↔
      (∀ e ∈ f.enums, e.Admissible) ∧ es = f.enums.map Enum.decl := fun es =>
    mapM_eq_ok_map fun _ _ => Enum.toDecl_eq_ok_iff
  unfold toDecl
  rw [bind_eq_ok]
  constructor
  · rintro ⟨ms, h1, h⟩
    obtain ⟨es, h2, h⟩ := bind_eq_ok.1 h
    obtain ⟨hms, rfl⟩ := (hm ms).1 h1
    obtain ⟨hes, rfl⟩ := (he es).1 h2
    exact ⟨⟨hms, hes⟩, (Except.ok.inj h).symm⟩
  · rintro ⟨⟨hms, hes⟩, rfl⟩
    exact ⟨_, (hm _).2 ⟨hms, rfl⟩, bind_eq_ok.2 ⟨_, (he _).2 ⟨hes, rfl⟩, rfl⟩⟩

/-- **Files give declarations when all of them are admissible.** -/
theorem mapM_toDecl_eq_ok_iff {files : List File} {rs : List RecordDecl} :
    files.mapM (·.toDecl) = .ok rs ↔ (∀ f ∈ files, f.Admissible) ∧ rs = files.map decl :=
  mapM_eq_ok_map fun _ _ => toDecl_eq_ok_iff

end File

end ProtoSchema.Descriptor
