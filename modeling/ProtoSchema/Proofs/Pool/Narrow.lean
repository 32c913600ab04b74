import ProtoSchema.Proofs.Pool.Outline
import ProtoSchema.Proofs.Pool.Sound

/-!
# Pools with fewer fields

A pool narrows another one when it has the same messages with only some of their fields
(`Pool.Narrows`). Its types may stand in other places. Messages of the two that have the same full
name differ in what becomes of each field: there is none with the number, it is deleted, or it is
kept with a kind that is the same by names (`Pool.Fate`).
-/

namespace ProtoSchema

/-- The pool has the messages of `p` with only those of their fields that `keeps` holds of, by the
full name of the message and the number of the field. -/
def Pool.Narrows (q p : Pool) (keeps : String → Nat → Bool) : Prop :=
  ∀ m ∈ p.messages, ∃ m' ∈ q.messages, m'.fullName = m.fullName ∧
    m'.fields.map q.fieldOutline =
      (m.fields.filter fun f => keeps m.fullName f.number).map p.fieldOutline

/-- The pool without the fields that are not kept. -/
def Pool.trim (p : Pool) (keeps : String → Nat → Bool) : Pool :=
  { p with messages := p.messages.map fun m =>
      { m with fields := m.fields.filter fun f => keeps m.fullName f.number } }

/-- **Deleting fields narrows a pool.** -/
theorem Pool.narrows_trim (p : Pool) (keeps : String → Nat → Bool) :
    (p.trim keeps).Narrows p keeps := by
  have hname : ∀ i, ((p.trim keeps).message i).fullName = (p.message i).fullName := by
    intro i
    rw [message, message, List.getD_eq_getElem?_getD, List.getD_eq_getElem?_getD, trim,
      List.getElem?_map]
    cases p.messages[i]? <;> rfl
  have houtline : (p.trim keeps).fieldOutline = p.fieldOutline := by
    funext f
    have hkind : (p.trim keeps).kindOutline f.kind = p.kindOutline f.kind := by
      cases f.kind with
      | scalar t => rfl
      | message i => exact congrArg KindOutline.message (hname i)
      | enum k => rfl
    rw [fieldOutline, fieldOutline, hkind]
  intro m hm
  exact ⟨_, List.mem_map_of_mem hm, rfl, by rw [houtline]⟩

/-- Messages of two pools with the same full name. -/
structure Pool.Namesakes (p q : Pool) (t u : Nat) : Prop where
  left : t < p.messages.length
  right : u < q.messages.length
  fullName : (q.message u).fullName = (p.message t).fullName

/-- Kinds of two pools that are the same by names, so that their values correspond. -/
inductive FieldKind.Namesakes (p q : Pool) : FieldKind → FieldKind → Prop
  | scalar (t : ScalarType) : Namesakes p q (.scalar t) (.scalar t)
  | message {t u : Nat} (same : p.Namesakes q t u) : Namesakes p q (.message t) (.message u)
  | enum {k l : Nat} (values : (q.enum l).values = (p.enum k).values)
    (fullName : (q.enum l).fullName = (p.enum k).fullName) : Namesakes p q (.enum k) (.enum l)

/-- Enums with the same values have the same numbers. -/
theorem EnumDef.numbered?_congr {e e' : EnumDef} (h : e'.values = e.values) :
    e'.numbered? = e.numbered? := by
  funext n
  rw [numbered?, numbered?, h]

/-- What becomes of the field with the number. -/
inductive Pool.Fate (p q : Pool) (keeps : String → Nat → Bool) (t u n : Nat) : Prop
  | absent (old : (p.message t).field? n = none) (new : (q.message u).field? n = none)
  | deleted {f : FieldDef} (old : (p.message t).field? n = some f)
    (drops : keeps (p.message t).fullName n = false) (new : (q.message u).field? n = none)
  | kept {f f' : FieldDef} (old : (p.message t).field? n = some f)
    (keeps : keeps (p.message t).fullName n = true) (new : (q.message u).field? n = some f')
    (repeated : f'.isRepeated = f.isRepeated) (kind : f.kind.Namesakes p q f'.kind)

/-! ## Fields by number -/

/-- The field with the number is the one with the number among the outlines. -/
theorem MessageDef.outline_field? (p : Pool) (m : MessageDef) (n : Nat) :
    (m.field? n).map p.fieldOutline = (m.fields.map p.fieldOutline).find? (·.number = n) := by
  rw [List.find?_map]
  rfl

/-- Among the fields of some numbers, a number finds what it finds among all, or nothing. -/
theorem find?_filter_number (keep : Nat → Bool) (fs : List FieldDef) (n : Nat) :
    (fs.filter fun f => keep f.number).find? (·.number = n) =
      if keep n then fs.find? (·.number = n) else none := by
  induction fs with
  | nil => simp
  | cons f fs ih =>
    by_cases hn : f.number = n
    · by_cases hk : keep n = true
      · simp [hn, hk]
      · simp [hn, hk, ih]
    · by_cases hk : keep f.number = true
      · simp [hn, hk, ih]
      · simp [hn, hk, ih]

namespace Pool

variable {p q : Pool} {keeps : String → Nat → Bool} {t u : Nat}

/-- The messages that fields of a linked pool are of are in it. -/
theorem message_lt_of_linked {rs : List RecordDecl} (h : Linked rs p) {f : FieldDef}
    (hf : f ∈ (p.message t).fields) (hkind : f.kind = .message u) : u < p.messages.length := by
  obtain ⟨scope, decl, hlink⟩ := h.exists_field hf
  obtain ⟨kind, value, hk, -, rfl⟩ := Link.field_eq_ok_iff.1 hlink
  obtain rfl : kind = .message u := hkind
  obtain ⟨s, hs⟩ | ⟨name, ref, hname, href⟩ := Link.exists_find?_of_kind? hk
  · simp at hs
  · cases ref with
    | message i =>
      obtain rfl : u = i := by simpa [Link.kindOf] using href
      exact (fullName_of_find?_message hname).1
    | enum i => simp [Link.kindOf] at href

/-- Fields that are the same by names have kinds whose values correspond. -/
theorem namesakes_of_outline {rs rs' : List RecordDecl} (hp : Linked rs p) (hq : Linked rs' q)
    {f f' : FieldDef} (hf : f ∈ (p.message t).fields) (hf' : f' ∈ (q.message u).fields)
    (h : q.kindOutline f'.kind = p.kindOutline f.kind) : f.kind.Namesakes p q f'.kind := by
  cases hk : f.kind with
  | scalar t =>
    cases hk' : f'.kind with
    | scalar t' =>
      obtain rfl : t' = t := by simpa [hk, hk', kindOutline] using h
      exact .scalar t'
    | message | enum => simp [hk, hk', kindOutline] at h
  | message v =>
    cases hk' : f'.kind with
    | message w =>
      have hname : (q.message w).fullName = (p.message v).fullName := by
        simpa [hk, hk', kindOutline] using h
      exact .message ⟨message_lt_of_linked hp hf hk, message_lt_of_linked hq hf' hk', hname⟩
    | scalar | enum => simp [hk, hk', kindOutline] at h
  | enum k =>
    cases hk' : f'.kind with
    | enum l =>
      rw [hk, hk'] at h
      obtain ⟨hname, hvalues⟩ := KindOutline.enum.inj h
      exact .enum hvalues hname
    | scalar | message => simp [hk, hk', kindOutline] at h

/-- In a pool with unique names, the message of a name is the one that stands there. -/
theorem eq_message_of_fullName (h : q.names.Nodup) (hu : u < q.messages.length) {m : MessageDef}
    (hm : m ∈ q.messages) (hname : m.fullName = (q.message u).fullName) : q.message u = m := by
  obtain ⟨i, hi⟩ := List.mem_iff_getElem?.1 hm
  have hget : q.messages[u]? = some (q.message u) := by
    rw [List.getElem?_eq_getElem hu, message_of_getElem? (List.getElem?_eq_getElem hu)]
  have hfind : ∀ {j d}, q.messages[j]? = some d →
      q.find? d.fullName = some (.message j) := by
    intro j d hd
    rw [find?_eq_message_iff h, hd]
    rfl
  have hi' := hfind hi
  rw [hname, hfind hget] at hi'
  obtain rfl : u = i := by simpa using hi'
  exact Option.some.inj (hget.symm.trans hi)

/-- **Messages of the same name differ in the fields that are deleted, and in nothing else.** -/
theorem Narrows.fate (h : q.Narrows p keeps) (hp : p.Consistent) (hq : q.Consistent)
    (hs : p.Namesakes q t u) (n : Nat) : Fate p q keeps t u n := by
  have hmem : p.message t ∈ p.messages := by
    rw [message_of_getElem? (List.getElem?_eq_getElem hs.left)]
    exact List.getElem_mem hs.left
  obtain ⟨m', hm', hname, hfields⟩ := h _ hmem
  obtain rfl := eq_message_of_fullName hq.linked.laidOut.names_nodup hs.right hm'
    (hname.trans hs.fullName.symm)
  have hfield : ((q.message u).field? n).map q.fieldOutline =
      (if keeps (p.message t).fullName n then (p.message t).field? n else none).map
        p.fieldOutline := by
    rw [MessageDef.outline_field?, hfields, List.find?_map]
    exact congrArg (Option.map p.fieldOutline) (find?_filter_number (keeps _) _ n)
  cases hold : (p.message t).field? n with
  | none =>
    rw [hold, ite_self, Option.map_none, Option.map_eq_none_iff] at hfield
    exact .absent hold hfield
  | some f =>
    cases hkeep : keeps (p.message t).fullName n with
    | false =>
      rw [hkeep, if_neg Bool.false_ne_true, Option.map_none, Option.map_eq_none_iff] at hfield
      exact .deleted hold hkeep hfield
    | true =>
      rw [hkeep, if_pos rfl, hold, Option.map_some] at hfield
      obtain ⟨f', hnew, houtline⟩ := Option.map_eq_some_iff.1 hfield
      obtain ⟨-, -, hlabel, hkind, -, -⟩ := FieldOutline.mk.inj houtline
      have hrepeated : f'.isRepeated = f.isRepeated := by
        rw [FieldDef.isRepeated, hlabel, FieldDef.isRepeated]
      exact .kept hold hkeep hnew hrepeated (namesakes_of_outline hp.linked hq.linked
        (List.mem_of_find?_eq_some hold) (List.mem_of_find?_eq_some hnew) hkind)

end Pool

end ProtoSchema
