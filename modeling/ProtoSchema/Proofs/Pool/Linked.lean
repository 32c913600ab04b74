import ProtoSchema.Proofs.Name
import ProtoSchema.Proofs.Pool.LaidOut
import ProtoSchema.Proofs.Traverse

/-!
# What linking makes

`Linked records pool` says, part by part, that the pool is the one that the records are linked to:
names are plain and entered once, enums have values, the types stand as they are laid out, and each
message has the fields that its declared fields resolve to **in the pool itself**. Linking gives
exactly the linked pool (`link_eq_ok_iff`), so nothing below unfolds `Pool.link` again.

While fields are resolved, messages have no fields yet. That makes no difference, because resolving
looks at full names and enums only (`field_congr`).
-/

namespace ProtoSchema

open Traverse

namespace Link

/-! ## Entering names -/

/-- **Names can be entered when they are plain, new and each its own, and enums have values.** -/
theorem enter_eq_ok_iff {records : List PlacedRecord} {ds : List Declared} :
    ∀ {entered : List Declared}, enter records entered ds = .ok () ↔
      (∀ d ∈ ds, Name.isPlain d.name = true) ∧ (∀ d ∈ ds, d.lacksValues = false) ∧
        (ds.map Declared.fullName).Nodup ∧
        ∀ d ∈ ds, d.fullName ∉ entered.map Declared.fullName := by
  induction ds with
  | nil => simp [enter]
  | cons d ds ih =>
    intro entered
    rw [enter]
    by_cases hp : Name.isPlain d.name = true
    · rw [if_neg (by simp [hp])]
      by_cases hv : d.lacksValues = true
      · rw [if_pos hv]
        simp [hv]
      · rw [if_neg hv]
        cases hf : entered.find? (·.fullName = d.fullName) with
        | some first =>
          -- Whoever is to blame, a name that was entered before is refused.
          have hmem : d.fullName ∈ entered.map Declared.fullName :=
            List.mem_map.2 ⟨first, List.mem_of_find?_eq_some hf, by simpa using List.find?_some hf⟩
          refine ⟨?_, fun h => absurd hmem (h.2.2.2 d List.mem_cons_self)⟩
          intro h
          simp only at h
          split at h <;> simp at h
        | none =>
          have hnew : d.fullName ∉ entered.map Declared.fullName := by
            rw [List.mem_map]
            rintro ⟨e, he, heq⟩
            exact absurd heq (by simpa using List.find?_eq_none.1 hf e he)
          rw [Bool.not_eq_true] at hv
          simp only [ih]
          rw [List.forall_mem_cons, List.forall_mem_cons, List.forall_mem_cons]
          simp only [List.map_cons, List.nodup_cons, List.mem_cons, not_or]
          -- That the rest is new behind `d` says the same as that `d` occurs in it no more.
          constructor
          · rintro ⟨h1, h2, h3, h4⟩
            refine ⟨⟨hp, h1⟩, ⟨hv, h2⟩, ⟨?_, h3⟩, hnew, fun e he => (h4 e he).2⟩
            rw [List.mem_map]
            rintro ⟨e, he, heq⟩
            exact (h4 e he).1 heq
          · rintro ⟨⟨-, h1⟩, ⟨-, h2⟩, ⟨h3, h4⟩, -, h5⟩
            refine ⟨h1, h2, h4, fun e he => ⟨fun heq => h3 ?_, h5 e he⟩⟩
            exact List.mem_map.2 ⟨e, he, heq⟩
    · rw [if_pos (by simp [hp])]
      simp [hp]

/-! ## Resolving in another pool -/

variable {p q : Pool}

theorem kind?_congr (hf : p.find? = q.find?) : kind? p = kind? q := by
  funext scope typeName
  rw [kind?, kind?, hf]

theorem default_congr (he : p.enums = q.enums) : default p = default q := by
  have hi : ∀ i, p.enum i = q.enum i := fun i => by rw [Pool.enum, Pool.enum, he]
  funext f kind
  unfold default
  simp only [hi]

/-- **Resolving looks at full names and enums only.** -/
theorem field_congr (hm : p.messages.map MessageDef.fullName = q.messages.map MessageDef.fullName)
    (he : p.enums = q.enums) : field p = field q := by
  have hf : p.find? = q.find? := Pool.find?_congr hm (by rw [he])
  funext scope f
  rw [field, field, kind?_congr hf, default_congr he]

theorem message_congr
    (hm : p.messages.map MessageDef.fullName = q.messages.map MessageDef.fullName)
    (he : p.enums = q.enums) : message p = message q := by
  funext m
  rw [message, message, field_congr hm he]

/-- An absolute reference means the type that has the name. -/
theorem kind?_dot (scope name : String) : kind? p scope ("." ++ name) = (p.find? name).map kindOf := by
  rw [kind?, ScalarType.ofKeyword?_dot, Name.candidates_dot]
  simp only [List.findSome?_cons, List.findSome?_nil]
  cases p.find? name <;> rfl

theorem map_kindOf_message {ref? : Option TypeRef} {i : Nat} :
    ref?.map kindOf = some (.message i) ↔ ref? = some (.message i) := by
  cases ref? with
  | none => simp
  | some ref => cases ref <;> simp [kindOf]

theorem map_kindOf_enum {ref? : Option TypeRef} {i : Nat} :
    ref?.map kindOf = some (.enum i) ↔ ref? = some (.enum i) := by
  cases ref? with
  | none => simp
  | some ref => cases ref <;> simp [kindOf]

/-- What a reference is bound to is a scalar type, or has been found under a name. -/
theorem exists_find?_of_kind? {scope reference : String} {kind : FieldKind}
    (h : kind? p scope reference = some kind) :
    (∃ t, kind = .scalar t) ∨ ∃ name ref, p.find? name = some ref ∧ kind = kindOf ref := by
  unfold kind? at h
  split at h
  · exact Or.inl ⟨_, (Option.some.inj h).symm⟩
  · obtain ⟨ref, href, rfl⟩ := Option.map_eq_some_iff.1 h
    obtain ⟨name, -, hname⟩ := List.exists_of_findSome?_eq_some href
    exact Or.inr ⟨name, ref, hname, rfl⟩

/-! ## Resolved fields -/

/-- **A message has the fields that its declared ones resolve to.** -/
theorem message_eq_ok_iff {m : PlacedMessage} {d : MessageDef} : message p m = .ok d ↔
    List.Forall₂ (fun f g => field p m.fullName f = .ok g) m.decl.fields d.fields ∧
      d = { m.define with fields := d.fields } := by
  unfold message
  rw [bind_eq_ok]
  constructor
  · rintro ⟨fields, hf, h⟩
    obtain rfl := Except.ok.inj h
    exact ⟨mapM_eq_ok.1 hf, rfl⟩
  · rintro ⟨hf, h⟩
    exact ⟨d.fields, mapM_eq_ok.2 hf, by rw [h]; rfl⟩

theorem fullName_of_message {m : PlacedMessage} {d : MessageDef} (h : message p m = .ok d) :
    d.fullName = m.fullName := by
  rw [(message_eq_ok_iff.1 h).2]
  rfl

/-- **A field resolves when its type and then its default do.** -/
theorem field_eq_ok_iff {scope : String} {f : FieldDecl} {g : FieldDef} :
    field p scope f = .ok g ↔
      ∃ kind value, kind? p scope f.typeName = some kind ∧ default p f kind = .ok value ∧
        g = ⟨f.name, f.number, f.label, kind, f.default?, value⟩ := by
  unfold field
  cases hk : kind? p scope f.typeName with
  | none => simp
  | some kind =>
    cases hd : default p f kind with
    | error fault => simp [hd]
    | ok value => simp [hd, eq_comm]

end Link

/-! ## Linking -/

/-- The pool that linking makes of the records, part by part. -/
structure Linked (rs : List RecordDecl) (p : Pool) : Prop where
  plain : ∀ t ∈ rs.flatMap RecordDecl.types, Name.isPlain t.decl.name = true
  values : ∀ t ∈ rs.flatMap RecordDecl.types, t.decl.lacksValues = false
  distinct : ((rs.flatMap RecordDecl.types).map ScopedType.fullName).Nodup
  records : p.records = (RecordDecl.placed 0 0 0 rs).map PlacedRecord.define
  messages : List.Forall₂ (fun m d => Link.message p m = .ok d) (Layout.messages rs) p.messages
  enums : p.enums = (Layout.enums rs).map PlacedEnum.define

theorem enter_declared_eq_ok_iff {records : List PlacedRecord} {rs : List RecordDecl} :
    Link.enter records [] (Layout.declared rs) = .ok () ↔
      (∀ t ∈ rs.flatMap RecordDecl.types, Name.isPlain t.decl.name = true) ∧
        (∀ t ∈ rs.flatMap RecordDecl.types, t.decl.lacksValues = false) ∧
        ((rs.flatMap RecordDecl.types).map ScopedType.fullName).Nodup := by
  rw [Link.enter_eq_ok_iff, ← Layout.map_inScope_declared, List.map_map, List.forall_mem_map,
    List.forall_mem_map]
  simp only [Declared.name_inScope, Declared.lacksValues_inScope, List.map_nil, List.not_mem_nil,
    not_false_eq_true, implies_true, and_true]
  have hn : ScopedType.fullName ∘ Declared.inScope = Declared.fullName :=
    funext Declared.fullName_inScope
  rw [hn]

theorem map_fullName_of_messages {p : Pool} {ms : List PlacedMessage} {ds : List MessageDef}
    (h : List.Forall₂ (fun m d => Link.message p m = .ok d) ms ds) :
    ds.map MessageDef.fullName = ms.map PlacedMessage.fullName := by
  induction h with
  | nil => rfl
  | cons hd _ ih => rw [List.map_cons, List.map_cons, ih, Link.fullName_of_message hd]

/-- **Linking gives exactly the linked pool.** -/
theorem link_eq_ok_iff {rs : List RecordDecl} {p : Pool} : Pool.link rs = .ok p ↔ Linked rs p := by
  unfold Pool.link
  simp only
  rw [bind_eq_ok]
  constructor
  · rintro ⟨u, henter, h⟩
    obtain ⟨messages, hms, h⟩ := bind_eq_ok.1 h
    obtain rfl := Except.ok.inj h
    obtain ⟨hplain, hvalues, hdistinct⟩ := enter_declared_eq_ok_iff.1 henter
    have hms' := mapM_eq_ok.1 hms
    -- Fields were resolved before any message had fields; in the finished pool they resolve alike.
    have hnames := (LaidOut.layout hdistinct).messages.trans (map_fullName_of_messages hms').symm
    rw [Link.message_congr (q := ⟨_, messages, _⟩) hnames rfl] at hms'
    exact ⟨hplain, hvalues, hdistinct, rfl, hms', rfl⟩
  · rintro ⟨hplain, hvalues, hdistinct, hrecords, hmessages, henums⟩
    refine ⟨(), enter_declared_eq_ok_iff.2 ⟨hplain, hvalues, hdistinct⟩, ?_⟩
    have hnames := (LaidOut.layout hdistinct).messages.trans
      (map_fullName_of_messages hmessages).symm
    refine bind_eq_ok.2 ⟨p.messages, mapM_eq_ok.2 ?_, ?_⟩
    · rwa [Link.message_congr hnames henums.symm]
    · show Except.ok _ = _
      rw [Except.ok.injEq]
      cases p
      simp only at hrecords henums
      rw [hrecords, henums]
      rfl

/-! ## The types of a linked pool -/

namespace Linked

variable {rs : List RecordDecl} {p : Pool}

theorem laidOut (h : Linked rs p) : LaidOut rs p :=
  ⟨h.distinct, map_fullName_of_messages h.messages, h.enums⟩

theorem message_of_getElem? (h : Linked rs p) {i : Nat} {m : PlacedMessage}
    (hm : (Layout.messages rs)[i]? = some m) :
    ∃ d, p.messages[i]? = some d ∧ Link.message p m = .ok d := by
  obtain ⟨hlt, rfl⟩ := List.getElem?_eq_some_iff.1 hm
  have hlen := h.messages.length_eq
  refine ⟨p.messages[i], List.getElem?_eq_getElem (hlen ▸ hlt), ?_⟩
  exact List.Forall₂.get h.messages hlt (hlen ▸ hlt)

/-- **A declared message stands in the pool at its index, with its fields resolved.** -/
theorem message_at (h : Linked rs p) {m : PlacedMessage} (hm : m ∈ Layout.messages rs) :
    ∃ d, p.messages[m.index]? = some d ∧ Link.message p m = .ok d :=
  h.message_of_getElem? (Layout.getElem?_index hm)

/-- Every message of the pool is declared. -/
theorem placed_at (h : Linked rs p) {i : Nat} {d : MessageDef} (hd : p.messages[i]? = some d) :
    ∃ m ∈ Layout.messages rs, m.index = i ∧ Link.message p m = .ok d := by
  have hlt : i < (Layout.messages rs).length := by
    rw [h.messages.length_eq]
    exact (List.getElem?_eq_some_iff.1 hd).1
  have hm := List.getElem?_eq_getElem hlt
  obtain ⟨d', hd', hlink⟩ := h.message_of_getElem? hm
  obtain rfl : d' = d := Option.some.inj (hd'.symm.trans hd)
  exact ⟨_, List.getElem_mem hlt, Layout.index_of_getElem? hm, hlink⟩

/-- **A message that is declared in a scope is found, with its fields resolved in it.** -/
theorem message_of_types (h : Linked rs p) {scope : String} {m : MessageDecl}
    (ht : ⟨scope, .message m⟩ ∈ rs.flatMap RecordDecl.types) :
    ∃ i d, p.find? (Name.qualify scope m.name) = some (.message i) ∧ p.messages[i]? = some d ∧
      List.Forall₂ (fun f g => Link.field p (Name.qualify scope m.name) f = .ok g)
        m.fields d.fields := by
  rcases Layout.mem_types_iff.1 ht with ⟨x, hx, heq⟩ | ⟨e, -, heq⟩
  · obtain ⟨rfl, rfl⟩ : x.place.scope = scope ∧ x.decl = m := by
      simpa [PlacedMessage.inScope] using heq
    obtain ⟨d, hd, hlink⟩ := h.message_at hx
    exact ⟨x.index, d, h.laidOut.find?_message hx, hd, (Link.message_eq_ok_iff.1 hlink).1⟩
  · simp [PlacedEnum.inScope] at heq

/-- Every message of the pool is declared in a scope, and its fields are resolved in it. -/
theorem types_of_message (h : Linked rs p) {i : Nat} {d : MessageDef} (hd : p.messages[i]? = some d) :
    ∃ scope m, ⟨scope, .message m⟩ ∈ rs.flatMap RecordDecl.types ∧
      d.fullName = Name.qualify scope m.name ∧
      List.Forall₂ (fun f g => Link.field p (Name.qualify scope m.name) f = .ok g)
        m.fields d.fields := by
  obtain ⟨x, hx, -, hlink⟩ := h.placed_at hd
  exact ⟨x.place.scope, x.decl, Layout.inScope_mem_types hx, Link.fullName_of_message hlink,
    (Link.message_eq_ok_iff.1 hlink).1⟩

end Linked

/-! ## Fields of a message by their number -/

/-- Where elements are told apart by what they have, an element is found by it. -/
theorem find?_of_mem_of_nodup {α β : Type} [DecidableEq β] {g : α → β} {l : List α}
    (hn : (l.map g).Nodup) {a : α} (ha : a ∈ l) : l.find? (g · = g a) = some a := by
  induction l with
  | nil => exact absurd ha List.not_mem_nil
  | cons b l ih =>
    rw [List.map_cons, List.nodup_cons] at hn
    rcases List.mem_cons.1 ha with rfl | hmem
    · rw [List.find?_cons_of_pos (by simp)]
    · have hne : g b ≠ g a := by
        intro he
        exact hn.1 (he ▸ List.mem_map_of_mem hmem)
      rw [List.find?_cons_of_neg (by simpa using hne)]
      exact ih hn.2 hmem

/-- **Where numbers are unique, a field is found under its number.** -/
theorem MessageDef.field?_of_mem {d : MessageDef} (hn : (d.fields.map FieldDef.number).Nodup)
    {g : FieldDef} (hg : g ∈ d.fields) : d.field? g.number = some g :=
  find?_of_mem_of_nodup hn hg

theorem Link.map_number {p : Pool} {scope : String} {fs : List FieldDecl} {gs : List FieldDef}
    (h : List.Forall₂ (fun f g => field p scope f = .ok g) fs gs) :
    gs.map FieldDef.number = fs.map FieldDecl.number := by
  induction h with
  | nil => rfl
  | cons hg _ ih =>
    obtain ⟨kind, value, -, -, rfl⟩ := field_eq_ok_iff.1 hg
    rw [List.map_cons, List.map_cons, ih]

end ProtoSchema
