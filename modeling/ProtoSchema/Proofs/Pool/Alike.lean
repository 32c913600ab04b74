import ProtoSchema.Proofs.Pool.Outline

/-!
# The same types in different pools

A record that is linked together with other ones takes other indices, and nothing else. Its types are
placed in the same scopes (`Place.Alike`), so they have the same outlines as soon as their references
mean types of the same names (`Link.SameKind`). References do so where they are absolute
(`Link.sameKind_typeName`), whatever else is declared around them, and where the same types are
declared (`Link.sameKind`). A pool then exposes the types of the other one (`Linked.exposes_of_alike`).
-/

namespace ProtoSchema

/-! ## The same declarations at other places -/

/-- Places that differ in indices only. -/
def Place.Alike (a b : Place) : Prop := b.scope = a.scope ∧ b.owner? = a.owner?

/-- The same message at places that differ in indices only. -/
def PlacedMessage.Alike (x y : PlacedMessage) : Prop := y.decl = x.decl ∧ x.place.Alike y.place

/-- The same enum at places that differ in indices only. -/
def PlacedEnum.Alike (x y : PlacedEnum) : Prop := y.decl = x.decl ∧ x.place.Alike y.place

/-- The same record, whatever it depends on. -/
structure RecordDecl.Alike (r r' : RecordDecl) : Prop where
  name : r'.name = r.name
  package : r'.package = r.package
  messages : r'.messages = r.messages
  enums : r'.enums = r.enums

namespace PlacedMessage.Alike

variable {x y : PlacedMessage}

theorem fullName (h : x.Alike y) : y.fullName = x.fullName := by
  rw [PlacedMessage.fullName, PlacedMessage.fullName, h.1, h.2.1]

theorem symm (h : x.Alike y) : y.Alike x := ⟨h.1.symm, h.2.1.symm, h.2.2.symm⟩

theorem inner (h : x.Alike y) : x.inner.Alike y.inner := ⟨h.fullName, congrArg some h.fullName⟩

theorem outline (h : x.Alike y) (record : String) (fields : List FieldOutline) :
    y.outline record fields = x.outline record fields := by
  rw [PlacedMessage.outline, PlacedMessage.outline, h.fullName, h.1, h.2.2]

end PlacedMessage.Alike

namespace PlacedEnum.Alike

variable {x y : PlacedEnum}

theorem fullName (h : x.Alike y) : y.fullName = x.fullName := by
  rw [PlacedEnum.fullName, PlacedEnum.fullName, h.1, h.2.1]

theorem outline (h : x.Alike y) (record : String) : y.outline record = x.outline record := by
  rw [PlacedEnum.outline, PlacedEnum.outline, h.fullName, h.1, h.2.2]

end PlacedEnum.Alike

namespace RecordDecl.Alike

variable {r r' : RecordDecl}

theorem refl (r : RecordDecl) : r.Alike r := ⟨rfl, rfl, rfl, rfl⟩

theorem symm (h : r.Alike r') : r'.Alike r :=
  ⟨h.name.symm, h.package.symm, h.messages.symm, h.enums.symm⟩

theorem types (h : r.Alike r') : r'.types = r.types := by
  rw [RecordDecl.types, RecordDecl.types, h.package, h.messages, h.enums]

end RecordDecl.Alike

namespace MessageDecl

mutual

/-- **A message is placed as it is at any other place.** -/
theorem forall₂_placed {place place' : Place} (hp : place.Alike place') (i e i' e' : Nat) :
    ∀ m : MessageDecl, List.Forall₂ PlacedMessage.Alike (m.placed place i e) (m.placed place' i' e')
  | ⟨name, fields, messages, enums⟩ => by
    have hself : PlacedMessage.Alike ⟨⟨name, fields, messages, enums⟩, place, i, e⟩
      ⟨⟨name, fields, messages, enums⟩, place', i', e'⟩ := ⟨rfl, hp⟩
    rw [placed, placed]
    exact .cons hself (forall₂_placedList hself.inner _ _ _ _ messages)

theorem forall₂_placedList {place place' : Place} (hp : place.Alike place') (i e i' e' : Nat) :
    ∀ ms : List MessageDecl,
      List.Forall₂ PlacedMessage.Alike (placedList place i e ms) (placedList place' i' e' ms)
  | [] => .nil
  | m :: ms => by
    rw [placedList, placedList]
    exact List.rel_append (forall₂_placed hp _ _ _ _ m) (forall₂_placedList hp _ _ _ _ ms)

end

end MessageDecl

namespace PlacedRecord

variable {r r' : PlacedRecord}

theorem place_alike (h : r.decl.Alike r'.decl) : r.place.Alike r'.place := ⟨h.package, rfl⟩

/-- **A record has the same messages wherever it is placed.** -/
theorem forall₂_messages (h : r.decl.Alike r'.decl) :
    List.Forall₂ PlacedMessage.Alike r.messages r'.messages := by
  rw [messages, messages, h.messages]
  exact MessageDecl.forall₂_placedList (place_alike h) _ _ _ _ _

theorem exists_alike_messages (h : r.decl.Alike r'.decl) {x : PlacedMessage}
    (hx : x ∈ r.messages) : ∃ y ∈ r'.messages, x.Alike y :=
  Traverse.exists_of_forall₂ (forall₂_messages h) hx

/-- **A record has the same enums wherever it is placed.** -/
theorem exists_alike_enums (h : r.decl.Alike r'.decl) {x : PlacedEnum} (hx : x ∈ r.enums) :
    ∃ y ∈ r'.enums, x.Alike y := by
  simp only [enums, List.mem_append, List.mem_flatMap] at hx ⊢
  rcases hx with ⟨m, hm, hx⟩ | hx
  · obtain ⟨n, hn, ha⟩ := exists_alike_messages h hm
    obtain ⟨e, he, rfl⟩ := List.mem_map.1 hx
    refine ⟨⟨e, n.inner⟩, Or.inl ⟨n, hn, List.mem_map.2 ⟨e, ?_, rfl⟩⟩, rfl, ha.inner⟩
    rwa [ha.1]
  · obtain ⟨e, he, rfl⟩ := List.mem_map.1 hx
    refine ⟨⟨e, r'.place⟩, Or.inr (List.mem_map.2 ⟨e, ?_, rfl⟩), rfl, place_alike h⟩
    rwa [h.enums]

end PlacedRecord

/-- Each of the records is placed. -/
theorem RecordDecl.exists_placed {rs : List RecordDecl} {r : RecordDecl} (hr : r ∈ rs) :
    ∃ x ∈ placed 0 0 0 rs, x.decl = r := by
  rw [← Linked.map_decl_placed rs 0 0 0] at hr
  exact List.mem_map.1 hr

/-! ## References that mean the same -/

namespace Link

variable {rs rs' : List RecordDecl} {p q : Pool} {scope typeName : String}

/-- What the declared type means in the scope is in both pools the same by names. -/
def SameKind (p q : Pool) (scope typeName : String) : Prop :=
  (kind? q scope typeName).map q.kindOutline = (kind? p scope typeName).map p.kindOutline

/-- **A name finds the same type in every pool that has it.** -/
theorem kindOutline_of_find? (hp : LaidOut rs p) (hq : LaidOut rs' q)
    (hsub : rs.flatMap RecordDecl.types ⊆ rs'.flatMap RecordDecl.types) {name : String} {ref : TypeRef}
    (h : p.find? name = some ref) :
    (q.find? name).map (q.kindOutline ∘ kindOf) = some (p.kindOutline (kindOf ref)) := by
  cases ref with
  | message i =>
    obtain ⟨scope, m, hm, rfl⟩ := hp.types_of_find?_message h
    obtain ⟨j, hj⟩ := hq.message_of_types (hsub hm)
    rw [hj]
    show some (KindOutline.message _) = some (.message _)
    rw [(Pool.fullName_of_find?_message hj).2, (Pool.fullName_of_find?_message h).2]
  | enum i =>
    obtain ⟨scope, e, he, rfl, hvalues⟩ := hp.types_of_find?_enum h
    obtain ⟨j, hj, hvalues'⟩ := hq.enum_of_types (hsub he)
    rw [hj]
    show some (KindOutline.enum _ _) = some (.enum _ _)
    rw [(Pool.fullName_of_find?_enum hj).2, (Pool.fullName_of_find?_enum h).2, hvalues, hvalues']

/-- **The name of a type means that type in every pool that has the same types.** -/
theorem sameKind_typeName (hp : LaidOut rs p) (hq : LaidOut rs' q)
    (hsub : rs.flatMap RecordDecl.types ⊆ rs'.flatMap RecordDecl.types) {kind : FieldKind}
    (hk : kind? p scope (p.typeName kind) = some kind) : SameKind p q scope (p.typeName kind) := by
  cases kind with
  | scalar t =>
    rw [SameKind, hk, Pool.typeName, kind?, ScalarType.ofKeyword?_keyword]
    rfl
  | message i =>
    rw [Pool.typeName, kind?_dot, map_kindOf_message] at hk
    rw [SameKind, Pool.typeName, kind?_dot, kind?_dot, Option.map_map,
      kindOutline_of_find? hp hq hsub hk, hk]
    rfl
  | enum i =>
    rw [Pool.typeName, kind?_dot, map_kindOf_enum] at hk
    rw [SameKind, Pool.typeName, kind?_dot, kind?_dot, Option.map_map,
      kindOutline_of_find? hp hq hsub hk, hk]
    rfl

/-- **Any declared type means the same where the same types are declared.** -/
theorem sameKind (hp : LaidOut rs p) (hq : LaidOut rs' q)
    (hsame : ∀ t, t ∈ rs.flatMap RecordDecl.types ↔ t ∈ rs'.flatMap RecordDecl.types) :
    SameKind p q scope typeName := by
  have hfind : (fun name => (q.find? name).map (q.kindOutline ∘ kindOf)) =
      fun name => (p.find? name).map (p.kindOutline ∘ kindOf) := by
    funext name
    cases hf : p.find? name with
    | some ref => exact kindOutline_of_find? hp hq (fun t => (hsame t).1) hf
    | none =>
      have hnone : q.find? name = none := by
        rw [← Option.not_isSome_iff_eq_none, hq.find?_isSome_iff]
        rintro ⟨t, ht, hname⟩
        have hsome := hp.find?_isSome_iff.2 ⟨t, (hsame t).2 ht, hname⟩
        rw [hf] at hsome
        simp at hsome
      rw [hnone]
      rfl
  unfold SameKind kind?
  cases ScalarType.ofKeyword? typeName with
  | some t => rfl
  | none =>
    show Option.map _ (Option.map _ _) = Option.map _ (Option.map _ _)
    rw [Option.map_map, Option.map_map, List.map_findSome?, List.map_findSome?]
    exact congrArg (fun find => (Name.candidates scope typeName).findSome? find) hfind

/-- Kinds that are the same by names are written alike. -/
theorem typeName_eq {kind kind' : FieldKind} (h : q.kindOutline kind' = p.kindOutline kind) :
    q.typeName kind' = p.typeName kind := by
  cases kind with
  | scalar t =>
    cases kind' with
    | scalar t' => rw [Pool.typeName, Pool.typeName, KindOutline.scalar.inj h]
    | message | enum => simp [Pool.kindOutline] at h
  | message i =>
    cases kind' with
    | message i' => rw [Pool.typeName, Pool.typeName, KindOutline.message.inj h]
    | scalar | enum => simp [Pool.kindOutline] at h
  | enum i =>
    cases kind' with
    | enum i' => rw [Pool.typeName, Pool.typeName, (KindOutline.enum.inj h).1]
    | scalar | message => simp [Pool.kindOutline] at h

/-- Kinds that are the same by names have the same defaults. -/
theorem default_eq {kind kind' : FieldKind} (h : q.kindOutline kind' = p.kindOutline kind)
    (f : FieldDecl) : default q f kind' = default p f kind := by
  obtain ⟨label, typeName, name, number, default?⟩ := f
  cases kind with
  | scalar t =>
    cases kind' with
    | scalar t' =>
      obtain rfl : t' = t := KindOutline.scalar.inj h
      cases label <;> cases default? <;> rfl
    | message | enum => simp [Pool.kindOutline] at h
  | message i =>
    cases kind' with
    | message i' => cases label <;> cases default? <;> rfl
    | scalar | enum => simp [Pool.kindOutline] at h
  | enum i =>
    cases kind' with
    | enum i' =>
      obtain ⟨hname, hvalues⟩ := KindOutline.enum.inj h
      have hnamed : (q.enum i').named? = (p.enum i).named? := by
        funext text
        rw [EnumDef.named?, EnumDef.named?, hvalues]
      cases label <;> cases default? <;> simp only [default, hnamed, hname]
    | scalar | message => simp [Pool.kindOutline] at h

/-- **A field whose type means the same is resolved to the same one, or refused for the same reason.** -/
theorem map_field {f : FieldDecl} (h : SameKind p q scope f.typeName) :
    (field q scope f).map q.fieldOutline = (field p scope f).map p.fieldOutline := by
  unfold SameKind at h
  unfold field
  cases hp : kind? p scope f.typeName with
  | none =>
    rw [hp, Option.map_none, Option.map_eq_none_iff] at h
    rw [h]
    rfl
  | some kind =>
    rw [hp] at h
    obtain ⟨kind', hq, houtline⟩ := Option.map_eq_some_iff.1 h
    rw [hq]
    simp only [default_eq houtline f]
    cases default p f kind with
    | error fault => rfl
    | ok value =>
      show Except.ok (q.fieldOutline _) = Except.ok (p.fieldOutline _)
      rw [Pool.fieldOutline, Pool.fieldOutline, houtline]

/-- Fields whose types mean the same are resolved to the same ones. -/
theorem map_fieldOutline {fs : List FieldDecl} (h : ∀ f ∈ fs, SameKind p q scope f.typeName)
    {gs gs' : List FieldDef} (hgs : List.Forall₂ (fun f g => field p scope f = .ok g) fs gs)
    (hgs' : List.Forall₂ (fun f g => field q scope f = .ok g) fs gs') :
    gs'.map q.fieldOutline = gs.map p.fieldOutline := by
  induction hgs generalizing gs' with
  | nil =>
    rw [List.forall₂_nil_left_iff.1 hgs']
    rfl
  | @cons f g fs gs hg _ ih =>
    obtain ⟨g', gs', hg', hrest, rfl⟩ := List.forall₂_cons_left_iff.1 hgs'
    rw [List.forall_mem_cons] at h
    have hfield := map_field h.1
    rw [hg, hg'] at hfield
    rw [List.map_cons, List.map_cons, ih h.2 hrest]
    exact congrArg (· :: _) (Except.ok.inj hfield)

end Link

/-! ## Absolute references that mean the same -/

section Absolute

variable {p q : Pool}

theorem FieldDecl.absolute_congr {scope : String} {f : FieldDecl}
    (h : Link.SameKind p q scope f.typeName) : f.absolute q scope = f.absolute p scope := by
  have hname : (Link.kind? q scope f.typeName).map q.typeName =
      (Link.kind? p scope f.typeName).map p.typeName := by
    unfold Link.SameKind at h
    cases hp : Link.kind? p scope f.typeName with
    | none =>
      rw [hp, Option.map_none, Option.map_eq_none_iff] at h
      rw [h]
      rfl
    | some kind =>
      rw [hp] at h
      obtain ⟨kind', hq, houtline⟩ := Option.map_eq_some_iff.1 h
      rw [hq, Option.map_some, Option.map_some, Link.typeName_eq houtline]
  rw [absolute, absolute, hname]

namespace MessageDecl

mutual

theorem absolute_congr (scope : String) : ∀ m : MessageDecl,
    (∀ scope' n, ⟨scope', .message n⟩ ∈ m.types scope → ∀ f ∈ n.fields,
      Link.SameKind p q (Name.qualify scope' n.name) f.typeName) →
    m.absolute q scope = m.absolute p scope
  | ⟨name, fields, messages, enums⟩, h => by
    have hfields : fields.map (FieldDecl.absolute q (Name.qualify scope name)) =
        fields.map (FieldDecl.absolute p (Name.qualify scope name)) :=
      List.map_congr_left fun f hf => FieldDecl.absolute_congr
        (h scope ⟨name, fields, messages, enums⟩ (by rw [types]; exact List.mem_cons_self) f hf)
    rw [absolute, absolute, hfields, absoluteList_congr _ messages]
    intro scope' n hn
    refine h scope' n ?_
    rw [types]
    exact List.mem_cons_of_mem _ (List.mem_append_right _ hn)

/-- **References whose types mean the same have the same absolute form.** -/
theorem absoluteList_congr (scope : String) : ∀ ms : List MessageDecl,
    (∀ scope' n, ⟨scope', .message n⟩ ∈ typesList scope ms → ∀ f ∈ n.fields,
      Link.SameKind p q (Name.qualify scope' n.name) f.typeName) →
    absoluteList q scope ms = absoluteList p scope ms
  | [], _ => by rw [absoluteList, absoluteList]
  | m :: ms, h => by
    rw [absoluteList, absoluteList, absolute_congr scope m, absoluteList_congr scope ms]
    · intro scope' n hn
      refine h scope' n ?_
      rw [typesList]
      exact List.mem_append_right _ hn
    · intro scope' n hn
      refine h scope' n ?_
      rw [typesList]
      exact List.mem_append_left _ hn

end

end MessageDecl

theorem RecordDecl.absolute_congr {r : RecordDecl}
    (h : ∀ scope m, ⟨scope, .message m⟩ ∈ r.types → ∀ f ∈ m.fields,
      Link.SameKind p q (Name.qualify scope m.name) f.typeName) : r.absolute q = r.absolute p := by
  rw [absolute, absolute, MessageDecl.absoluteList_congr]
  exact fun scope m hm => h scope m (List.mem_append_left _ hm)

end Absolute

/-! ## Exposed pools -/

/-- The pool has the types of the other one, each under its full name. -/
structure Pool.Exposes (q p : Pool) : Prop where
  messages : ∀ m ∈ p.messages, ∃ i m', q.find? m.fullName = some (.message i) ∧
    q.messages[i]? = some m' ∧ q.messageOutline m' = p.messageOutline m
  enums : ∀ e ∈ p.enums, ∃ i e', q.find? e.fullName = some (.enum i) ∧
    q.enums[i]? = some e' ∧ q.enumOutline e' = p.enumOutline e

namespace Linked

variable {rs rs' : List RecordDecl} {p q : Pool} {r r' : PlacedRecord}

theorem types_subset (hsub : rs ⊆ rs') :
    rs.flatMap RecordDecl.types ⊆ rs'.flatMap RecordDecl.types := by
  intro t ht
  obtain ⟨r, hr, ht⟩ := List.mem_flatMap.1 ht
  exact List.mem_flatMap.2 ⟨r, hsub hr, ht⟩

theorem decl_mem (hr : r ∈ RecordDecl.placed 0 0 0 rs) : r.decl ∈ rs := by
  rw [← map_decl_placed rs 0 0 0]
  exact List.mem_map_of_mem hr

/-- **A message keeps its outline when its record is linked with others**, as long as the types of its
fields mean the same. -/
theorem messageOutline_congr (hp : Linked rs p) (hq : Linked rs' q)
    (hr : r ∈ RecordDecl.placed 0 0 0 rs) (hr' : r' ∈ RecordDecl.placed 0 0 0 rs')
    (hdecl : r.decl.Alike r'.decl) {x y : PlacedMessage} (hx : x ∈ r.messages) (hy : y ∈ r'.messages)
    (ha : x.Alike y) (hsame : ∀ f ∈ x.decl.fields, Link.SameKind p q x.fullName f.typeName)
    {m m' : MessageDef} (hm : Link.message p x = .ok m) (hm' : Link.message q y = .ok m') :
    q.messageOutline m' = p.messageOutline m := by
  have hfields : m'.fields.map q.fieldOutline = m.fields.map p.fieldOutline := by
    have hlinks := (Link.message_eq_ok_iff.1 hm').1
    rw [ha.1, ha.fullName] at hlinks
    exact Link.map_fieldOutline hsame (Link.message_eq_ok_iff.1 hm).1 hlinks
  rw [hq.messageOutline_eq hr' hy hm', hp.messageOutline_eq hr hx hm, ha.outline, hfields,
    hdecl.name]

/-- **A pool exposes the types of another one** when it has the same records, whatever they depend on,
and the types of their fields mean the same. -/
theorem exposes_of_alike (hp : Linked rs p) (hq : Linked rs' q)
    (hrs : ∀ r ∈ rs, ∃ r' ∈ rs', r.Alike r')
    (hsame : ∀ scope m, ⟨scope, .message m⟩ ∈ rs.flatMap RecordDecl.types → ∀ f ∈ m.fields,
      Link.SameKind p q (Name.qualify scope m.name) f.typeName) : q.Exposes p where
  messages m hm := by
    obtain ⟨i, hi⟩ := List.mem_iff_getElem?.1 hm
    obtain ⟨x, hmem, -, hlink⟩ := hp.placed_at hi
    obtain ⟨r, hr, hx⟩ := List.mem_flatMap.1 hmem
    obtain ⟨_, hmem', hdecl⟩ := hrs _ (decl_mem hr)
    obtain ⟨r', hr', rfl⟩ := RecordDecl.exists_placed hmem'
    obtain ⟨y, hy, ha⟩ := PlacedRecord.exists_alike_messages hdecl hx
    obtain ⟨m', hm', hlink'⟩ := hq.message_at (holds_messages hr' y hy).1
    refine ⟨y.index, m', ?_, hm', messageOutline_congr hp hq hr hr' hdecl hx hy ha
      (hsame _ _ (Layout.inScope_mem_types hmem)) hlink hlink'⟩
    rw [Link.fullName_of_message hlink, ← ha.fullName]
    exact hq.laidOut.find?_message (holds_messages hr' y hy).1
  enums e he := by
    rw [hp.enums, List.mem_map] at he
    obtain ⟨x, hx, rfl⟩ := he
    obtain ⟨r, hr, hx⟩ := List.mem_flatMap.1 hx
    obtain ⟨_, hmem', hdecl⟩ := hrs _ (decl_mem hr)
    obtain ⟨r', hr', rfl⟩ := RecordDecl.exists_placed hmem'
    obtain ⟨y, hy, ha⟩ := PlacedRecord.exists_alike_enums hdecl hx
    obtain ⟨k, hk⟩ := List.mem_iff_getElem?.1 (List.mem_flatMap.2 ⟨r', hr', hy⟩ :
      y ∈ Layout.enums rs')
    refine ⟨k, y.define, ?_, ?_, ?_⟩
    · show q.find? x.fullName = _
      rw [← ha.fullName]
      exact hq.laidOut.find?_enum hk
    · rw [hq.enums, List.getElem?_map, hk]
      rfl
    · rw [hq.enumOutline_eq hr' hy, hp.enumOutline_eq hr hx, ha.outline, hdecl.name]

end Linked

end ProtoSchema
