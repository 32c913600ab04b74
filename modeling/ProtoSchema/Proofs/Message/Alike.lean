import ProtoSchema.Message.Encode
import ProtoSchema.Message.Required
import ProtoSchema.Message.Text
import ProtoSchema.Proofs.Message.Decode
import ProtoSchema.Proofs.Pool.Carried

/-!
# Contents in pools that agree

A content has no index of a type in it, so it is one of messages of the same name in any pools that
agree. Reading gives the same content or the same fault in both (`Decode.content_congr`), and writing
it, as bytes or as text, and looking for missing fields come to the same.

Bytes are read and written by the kinds of the fields alone. Where a value is not of its field's kind,
texts and paths would be made of whatever type stands at an index; contents that are typed have no such
value.
-/

namespace ProtoSchema

variable {p q : Pool} {t u : Nat}

/-! ## Reading -/

mutual

theorem Element.mergeInto_congr (h : p.Agrees q) {kind kind' : FieldKind}
    (hk : kind.Namesakes p q kind') (old : Option Element) :
    ∀ e : Element, e.mergeInto q kind' old = e.mergeInto p kind old
  | .scalar _ => by rw [Element.mergeInto, Element.mergeInto]
  | .enum _ => by rw [Element.mergeInto, Element.mergeInto]
  | .message new => by
    unfold Element.mergeInto
    cases hk with
    | scalar | enum => rfl
    | message same =>
      -- Only where the field held a message there is something to merge into.
      rcases old with _ | ⟨_ | _ | c⟩
      · rfl
      · rfl
      · rfl
      · exact congrArg Element.message (Content.merge_congr h same new c)

/-- **Contents of messages of the same name are merged alike.** -/
theorem Content.merge_congr (h : p.Agrees q) {t u : Nat} (hs : p.Namesakes q t u) :
    ∀ new c : Content, Content.merge q u c new = Content.merge p t c new
  | [], c => by rw [Content.merge, Content.merge]
  | (n, e) :: rest, c => by
    rw [Content.merge, Content.merge]
    rcases h.field? hs n with ⟨hp, hq⟩ | ⟨f, g, hp, hq, ha⟩
    · simp only [hp, hq]
      exact Content.merge_congr h hs rest c
    · simp only [hp, hq, ha.isRepeated, Element.mergeInto_congr h ha.kind _ e]
      exact Content.merge_congr h hs rest _

end

namespace Decode

variable {body body' : Nat → Bytes → Except WireFault Content}

/-- Values of fields that are the same by names are read alike. -/
theorem elements_congr (hbody : ∀ t u, p.Namesakes q t u → body' u = body t) {f g : FieldDef}
    (ha : f.Alike p q g) (type : WireType) : elements q g type body' = elements p f type body := by
  unfold elements
  rw [ha.isRepeated]
  have hk := ha.kind
  generalize f.kind = kind at hk
  generalize g.kind = kind' at hk
  cases hk with
  | scalar t => rfl
  | enum values => simp only [EnumDef.numbered?_congr values]
  | @message t u same => simp only [hbody t u same]

theorem record_congr (h : p.Agrees q) (hs : p.Namesakes q t u)
    (hbody : ∀ t u, p.Namesakes q t u → body' u = body t) : record q u body' = record p t body := by
  refine congrArg Reader.key.bind (funext fun k => ?_)
  rcases h.field? hs k.tag with ⟨hp, hq⟩ | ⟨f, g, hp, hq, ha⟩
  · rw [hp, hq]
  · simp only [hp, hq, ha.number, elements_congr hbody ha]

/-- **Bytes give the same content, or the same fault, for messages of the same name.** -/
theorem content_congr (h : p.Agrees q) (budget : Nat) : ∀ t u, p.Namesakes q t u →
    content q budget u = content p budget t := by
  induction budget with
  | zero => exact fun _ _ _ => rfl
  | succ budget ih =>
    intro t u hs
    have hmerge : Content.merge q u = Content.merge p t :=
      funext fun c => funext fun new => Content.merge_congr h hs new c
    funext bs
    rw [content, content, record_congr h hs ih, hmerge]

end Decode

/-! ## Writing bytes -/

mutual

theorem Element.encode_congr (h : p.Agrees q) {f g : FieldDef} (ha : f.Alike p q g) :
    ∀ e : Element, e.encode q g = e.encode p f
  | .scalar v => by
    have hk := ha.kind
    rw [Element.encode, Element.encode, ha.number]
    generalize f.kind = kind at hk ⊢
    generalize g.kind = kind' at hk ⊢
    cases hk <;> rfl
  | .enum i => by
    have hk := ha.kind
    rw [Element.encode, Element.encode, ha.number]
    generalize f.kind = kind at hk ⊢
    generalize g.kind = kind' at hk ⊢
    cases hk with
    | scalar | message => rfl
    | enum values => simp only [EnumDef.value, values]
  | .message c => by
    have hk := ha.kind
    rw [Element.encode, Element.encode, ha.number]
    generalize f.kind = kind at hk ⊢
    generalize g.kind = kind' at hk ⊢
    cases hk with
    | scalar | enum => rfl
    | message same => simp only [Content.encode_congr h same c]

/-- **A content is written alike for messages of the same name.** -/
theorem Content.encode_congr (h : p.Agrees q) {t u : Nat} (hs : p.Namesakes q t u) :
    ∀ c : Content, Content.encode q u c = Content.encode p t c
  | [] => by rw [Content.encode, Content.encode]
  | (n, e) :: rest => by
    rw [Content.encode, Content.encode, Content.encode_congr h hs rest]
    rcases h.field? hs n with ⟨hp, hq⟩ | ⟨f, g, hp, hq, ha⟩
    · rw [hp, hq]
    · simp only [hp, hq, Element.encode_congr h ha e]

end

/-! ## Typed values -/

/-- The kind of an enum value and the one that corresponds to it are those of enums. -/
theorem FieldKind.Namesakes.of_enum {kind kind' : FieldKind} (hk : kind.Namesakes p q kind') {i : Nat}
    (h : (Element.enum i).Typed p kind) : ∃ k l, kind = .enum k ∧ kind' = .enum l ∧
      (q.enum l).values = (p.enum k).values ∧ (q.enum l).fullName = (p.enum k).fullName := by
  cases h with
  | enum =>
    cases hk with
    | enum values fullName => exact ⟨_, _, rfl, rfl, values, fullName⟩

/-- The kind of a message and the one that corresponds to it are those of messages of one name. -/
theorem FieldKind.Namesakes.of_message {kind kind' : FieldKind} (hk : kind.Namesakes p q kind')
    {c : Content} (h : (Element.message c).Typed p kind) : ∃ t u, kind = .message t ∧
      kind' = .message u ∧ p.Namesakes q t u ∧ ∀ x ∈ c, Content.Belongs p t x := by
  cases h with
  | message known typed ordered =>
    cases hk with
    | message same =>
      have hc := Content.typed_message_iff.1 (.message known typed ordered)
      exact ⟨_, _, rfl, rfl, same, hc.belongs⟩

/-! ## Writing text -/

mutual

theorem Element.text_congr (h : p.Agrees q) {f g : FieldDef} (ha : f.Alike p q g) (depth : Nat) :
    ∀ e : Element, e.Typed p f.kind → e.text q depth g = e.text p depth f
  | .scalar v, _ => by rw [Element.text, Element.text, ha.name]
  | .enum i, he => by
    obtain ⟨k, l, hf, hg, hvalues, -⟩ := ha.kind.of_enum he
    rw [Element.text, Element.text, ha.name, hf, hg]
    simp only [FieldKind.index, EnumDef.value, hvalues]
  | .message c, he => by
    obtain ⟨t, u, hf, hg, hs, hc⟩ := ha.kind.of_message he
    rw [Element.text, Element.text, ha.name, hf, hg]
    simp only [FieldKind.index, Content.text_congr h hs (depth + 1) c hc]

/-- **A content has the same text for messages of the same name.** -/
theorem Content.text_congr (h : p.Agrees q) {t u : Nat} (hs : p.Namesakes q t u) (depth : Nat) :
    ∀ c : Content, (∀ x ∈ c, Content.Belongs p t x) →
      Content.text q depth u c = Content.text p depth t c
  | [], _ => by rw [Content.text, Content.text]
  | (n, e) :: rest, hc => by
    rw [List.forall_mem_cons] at hc
    rw [Content.text, Content.text, Content.text_congr h hs depth rest hc.2]
    rcases h.field? hs n with ⟨hp, hq⟩ | ⟨f, g, hp, hq, ha⟩
    · rw [hp, hq]
    · simp only [hp, hq, Element.text_congr h ha depth e (hc.1.typed hp)]

end

/-! ## Missing fields -/

/-- Fields that are the same by names lack the same. -/
theorem Required.fields_congr {m m' : MessageDef}
    (h : List.Forall₂ (FieldDef.Alike p q) m.fields m'.fields) (lacks : List (Nat × List String)) :
    Required.fields m' lacks = Required.fields m lacks := by
  unfold Required.fields
  generalize m.fields = fs at h
  generalize m'.fields = gs at h
  induction h with
  | nil => rfl
  | cons ha _ ih =>
    rw [List.flatMap_cons, List.flatMap_cons, ih, Required.field, Required.field, ha.number, ha.name,
      ha.isRequired, ha.isRepeated]

mutual

theorem Element.missing_congr (h : p.Agrees q) {kind kind' : FieldKind}
    (hk : kind.Namesakes p q kind') :
    ∀ e : Element, e.Typed p kind → e.missing q kind' = e.missing p kind
  | .scalar _, _ => by rw [Element.missing, Element.missing]
  | .enum _, _ => by rw [Element.missing, Element.missing]
  | .message c, he => by
    obtain ⟨t, u, rfl, rfl, hs, hc⟩ := hk.of_message he
    rw [Element.missing, Element.missing]
    simp only [FieldKind.index, Content.missing_congr h hs c hc]
    exact Required.fields_congr (h t u hs) _

/-- **A content lacks the same fields for messages of the same name.** -/
theorem Content.missing_congr (h : p.Agrees q) {t u : Nat} (hs : p.Namesakes q t u) :
    ∀ c : Content, (∀ x ∈ c, Content.Belongs p t x) →
      Content.missing q u c = Content.missing p t c
  | [], _ => by rw [Content.missing, Content.missing]
  | (n, e) :: rest, hc => by
    rw [List.forall_mem_cons] at hc
    rw [Content.missing, Content.missing, Content.missing_congr h hs rest hc.2]
    rcases h.field? hs n with ⟨hp, hq⟩ | ⟨f, g, hp, hq, ha⟩
    · rw [hp, hq]
    · simp only [hp, hq, Element.missing_congr h ha.kind e (hc.1.typed hp)]

end

end ProtoSchema
