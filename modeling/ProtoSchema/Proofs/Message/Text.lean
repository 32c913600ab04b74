import ProtoSchema.Proofs.Message.Concat
import ProtoSchema.Proofs.Message.ScalarText
import ProtoSchema.Proofs.Pool.Fields

/-!
# Telling messages apart by their texts

In a pool whose names are identifiers, each value of a message can be made out at the front of a text,
whatever stands behind it (`Element.Legible`): the name ends where an identifier ends, a scalar or the
name of an enum value ends with its line, and a nested message where a line comes that is indented too
little to be another value of it (`Content.Ends`). So **messages without NaN are told apart by their
texts** (`Message.Made.text_injective`).
-/

namespace ProtoSchema

/-! ## Names that are identifiers -/

/-- Letters, digits and the underscore; whatever is not ASCII counts as a letter. -/
def Name.isWordChar (c : Char) : Bool := c.isAlphanum || c = '_' || 128 ≤ c.toNat

/-- The name consists of letters, digits and underscores. -/
def Name.IsIdentifier (name : String) : Prop := ∀ c ∈ name.toList, isWordChar c = true

/-- An identifier ends where a character stands that belongs to none. -/
theorem Name.IsIdentifier.append_inj {a b : String} (ha : IsIdentifier a) (hb : IsIdentifier b)
    {s s' : List Char} (hs : ∀ c ∈ s.head?, isWordChar c = false)
    (hs' : ∀ c ∈ s'.head?, isWordChar c = false) (h : a.toList ++ s = b.toList ++ s') :
    a = b ∧ s = s' := by
  obtain ⟨hname, hrest⟩ := Text.run_append_inj ha hb hs hs' h
  exact ⟨String.toList_inj.1 hname, hrest⟩

/-- The names of fields and of enum values are identifiers. -/
structure Pool.PlainlyNamed (p : Pool) : Prop where
  fields : ∀ m ∈ p.messages, ∀ f ∈ m.fields, Name.IsIdentifier f.name
  values : ∀ e ∈ p.enums, ∀ v ∈ e.values, Name.IsIdentifier v.name

/-- Fields of a message and values of an enum are told apart by names that are identifiers. -/
structure Pool.Legible (p : Pool) : Prop where
  identifiers : ∀ t, ∀ f ∈ (p.message t).fields, Name.IsIdentifier f.name
  named : ∀ t, ∀ f ∈ (p.message t).fields, f.name ≠ ""
  names : ∀ t, ((p.message t).fields.map FieldDef.name).Nodup
  valueIdentifiers : ∀ k, ∀ v ∈ (p.enum k).values, Name.IsIdentifier v.name
  valueNames : ∀ k, ((p.enum k).values.map ValueDecl.name).Nodup

theorem Pool.Reachable.legible {p : Pool} (h : p.Reachable) (hp : p.PlainlyNamed) : p.Legible where
  identifiers t := by
    rcases p.message_cases t with ⟨d, hd, ht⟩ | hnil
    · rw [ht]
      exact hp.fields d (List.mem_of_getElem? hd)
    · rw [hnil]
      exact fun _ hf => absurd hf List.not_mem_nil
  named t f hf := ((h.consistent.resolved_at t).fields f hf).name
  names t := (h.consistent.resolved_at t).names
  valueIdentifiers k := by
    rcases p.enum_cases k with ⟨d, hd, hk⟩ | hnil
    · rw [hk]
      exact hp.values d (List.mem_of_getElem? hd)
    · rw [hnil]
      exact fun _ hv => absurd hv List.not_mem_nil
  valueNames k := by
    rcases p.enum_cases k with ⟨d, hd, hk⟩ | hnil
    · rw [hk]
      exact (h.consistent.resolved_enum d (List.mem_of_getElem? hd)).names
    · rw [hnil]
      exact List.nodup_nil

/-! ## Values that are numbers where they should be -/

mutual

/-- Whether a floating-point number in the value is none. -/
def Element.holdsNaN : Element → Bool
  | .scalar v => v.isNaN
  | .enum _ => false
  | .message c => Content.holdsNaN c

/-- Whether a floating-point number in the content is none. -/
def Content.holdsNaN : Content → Bool
  | [] => false
  | (_, e) :: rest => e.holdsNaN || Content.holdsNaN rest

end

theorem Content.holdsNaN_eq_false_iff {c : Content} :
    holdsNaN c = false ↔ ∀ x ∈ c, x.2.holdsNaN = false := by
  induction c with
  | nil => simp [holdsNaN]
  | cons x c ih => rw [holdsNaN, Bool.or_eq_false_iff, ih, List.forall_mem_cons]

/-! ## Values at the front of a text -/

namespace Element

/-- The characters of a value behind the name of its field. -/
def body (p : Pool) (depth : Nat) (kind : FieldKind) : Element → List Char
  | .scalar v => ':' :: ' ' :: (v.text.toList ++ ['\n'])
  | .enum i => ':' :: ' ' :: (((p.enum kind.index).value i).name.toList ++ ['\n'])
  | .message c => ' ' :: '\x7b' :: '\n' :: ((Content.text p (depth + 1) kind.index c).toList ++
      ((indent depth).toList ++ ['\x7d', '\n']))

theorem toList_text (p : Pool) (depth : Nat) (f : FieldDef) (e : Element) :
    (e.text p depth f).toList =
      (indent depth).toList ++ (f.name.toList ++ e.body p depth f.kind) := by
  cases e with
  | scalar v => simp [text, body, String.toList_append, toString]
  | enum i => simp [text, body, String.toList_append, toString]
  | message c => simp [text, body, String.toList_append, toString]

/-- Behind the name stands what belongs to no identifier. -/
theorem head_body (p : Pool) (depth : Nat) (kind : FieldKind) (e : Element) (s : List Char) :
    ∀ c ∈ (e.body p depth kind ++ s).head?, Name.isWordChar c = false := by
  cases e <;> (rintro _ ⟨⟩; decide)

/-- A value of the kind can be made out at the front of a text. -/
def Legible (p : Pool) (kind : FieldKind) (e : Element) : Prop :=
  ∀ depth e' s s', e'.Typed p kind → e'.holdsNaN = false →
    e.body p depth kind ++ s = e'.body p depth kind ++ s' → e = e' ∧ s = s'

end Element

/-- What stands on a line of its own ends with the line. -/
theorem line_inj {a b : String} (ha : '\n' ∉ a.toList) (hb : '\n' ∉ b.toList) {s s' : List Char}
    (h : a.toList ++ '\n' :: s = b.toList ++ '\n' :: s') : a = b ∧ s = s' := by
  have hline : ∀ {a : String}, '\n' ∉ a.toList → ∀ c ∈ a.toList, (c != '\n') = true := by
    intro a ha c hc
    rw [bne_iff_ne]
    rintro rfl
    exact ha hc
  obtain ⟨htext, hrest⟩ := Text.run_append_inj (hline ha) (hline hb) (by rintro _ ⟨⟩; decide)
    (by rintro _ ⟨⟩; decide) h
  exact ⟨String.toList_inj.1 htext, (List.cons.inj hrest).2⟩

/-- Identifiers do not go over the end of a line. -/
theorem Name.IsIdentifier.newline_notMem {name : String} (h : IsIdentifier name) :
    '\n' ∉ name.toList := fun hmem => absurd (h _ hmem) (by decide)

namespace Element

variable {p : Pool}

theorem legible_scalar {t : ScalarType} {v : Scalar} (hfits : v.fits t = true)
    (hv : v.isNaN = false) : Legible p (.scalar t) (.scalar v) := by
  intro depth e' s s' htyped hnan h
  cases htyped with
  | @scalar _ w hfits' =>
    simp only [body, List.cons_append, List.append_assoc, List.nil_append, List.cons.injEq,
      true_and] at h
    obtain ⟨htext, hrest⟩ := line_inj v.newline_notMem_text w.newline_notMem_text h
    have hkind : v.kindName = w.kindName :=
      (Scalar.kindName_of_fits hfits).trans (Scalar.kindName_of_fits hfits').symm
    exact ⟨congrArg scalar (Scalar.eq_of_text_eq hkind hv hnan htext), hrest⟩

theorem legible_enum (hp : p.Legible) {k i : Nat} (hi : i < (p.enum k).values.length) :
    Legible p (.enum k) (.enum i) := by
  have hline : ∀ {i}, (hi : i < (p.enum k).values.length) →
      '\n' ∉ ((p.enum k).value i).name.toList := by
    intro i hi
    rw [EnumDef.value_of_lt hi]
    exact (hp.valueIdentifiers k _ (List.getElem_mem hi)).newline_notMem
  intro depth e' s s' htyped _ h
  cases htyped with
  | @enum _ j hj =>
    simp only [body, FieldKind.index, List.cons_append, List.append_assoc, List.nil_append,
      List.cons.injEq, true_and] at h
    obtain ⟨hname, hrest⟩ := line_inj (hline hi) (hline hj) h
    rw [EnumDef.value_of_lt hi, EnumDef.value_of_lt hj] at hname
    -- Another value would have another name.
    have hvalue := List.inj_on_of_nodup_map (hp.valueNames k) (List.getElem_mem hi)
      (List.getElem_mem hj) hname
    have hij : i = j := (List.Nodup.of_map _ (hp.valueNames k)).getElem_inj_iff.1 hvalue
    exact ⟨congrArg enum hij, hrest⟩

end Element

/-! ## Contents -/

namespace Content

variable {p : Pool} {t n : Nat} {e : Element} {c : Content}

/-- No value at the depth begins the text. -/
def Ends (depth : Nat) (s : List Char) : Prop :=
  ∀ c rest, Name.isWordChar c = true → s ≠ (indent depth).toList ++ c :: rest

theorem ends_nil : Ends 0 [] := by
  intro c rest _ h
  cases h

/-- The end of a nested message is indented less than its values. -/
theorem ends_brace (depth : Nat) (s : List Char) :
    Ends (depth + 1) ((indent depth).toList ++ '\x7d' :: s) := by
  intro c rest hc h
  have hindent : (indent (depth + 1)).toList = (indent depth).toList ++ [' ', ' '] := by
    rw [indent, indent, String.toList_ofList, String.toList_ofList, Nat.mul_succ,
      List.replicate_add]
    rfl
  rw [hindent, List.append_assoc, List.append_cancel_left_eq] at h
  exact absurd (List.cons.inj h).1 (by decide)

theorem toList_text_cons {f : FieldDef} (hf : (p.message t).field? n = some f) (depth : Nat) :
    (text p depth t ((n, e) :: c)).toList = (indent depth).toList ++
      (f.name.toList ++ (e.body p depth f.kind ++ (text p depth t c).toList)) := by
  rw [text]
  simp only [hf, String.toList_append, Element.toList_text, List.append_assoc]

/-- A value does not end the text in which it stands. -/
theorem not_ends_cons (hp : p.Legible) {x : Nat × Element} (hx : Belongs p t x) (depth : Nat)
    (s : List Char) : ¬Ends depth ((text p depth t (x :: c)).toList ++ s) := by
  obtain ⟨f, hf, -⟩ := hx
  have hmem := MessageDef.mem_of_field? hf
  cases hname : f.name.toList with
  | nil => exact absurd (String.toList_eq_nil_iff.1 hname) (hp.named t f hmem)
  | cons first more =>
    intro hends
    refine hends first (more ++ (x.2.body p depth f.kind ++ (text p depth t c).toList) ++ s)
      (hp.identifiers t f hmem first (hname ▸ List.mem_cons_self)) ?_
    rw [toList_text_cons hf, hname]
    simp only [List.append_assoc, List.cons_append]

/-- **Contents of a message type are told apart by the lines at the front of a text**, if their values
are. -/
theorem eq_of_text_append (hp : p.Legible) {c c' : Content} (h : ∀ x ∈ c, Belongs p t x)
    (h' : ∀ x ∈ c', Belongs p t x) (hnan : ∀ x ∈ c', x.2.holdsNaN = false)
    (hread : ∀ x ∈ c, ∀ f, (p.message t).field? x.1 = some f → x.2.Legible p f.kind)
    {depth : Nat} {s s' : List Char} (hs : Ends depth s) (hs' : Ends depth s')
    (heq : (text p depth t c).toList ++ s = (text p depth t c').toList ++ s') :
    c = c' ∧ s = s' := by
  induction c generalizing c' with
  | nil =>
    cases c' with
    | nil => exact ⟨rfl, by simpa [text] using heq⟩
    | cons y c' =>
      have hends : Ends depth ((text p depth t (y :: c')).toList ++ s') := by
        rw [← heq]
        simpa [text] using hs
      exact absurd hends (not_ends_cons hp (h' y List.mem_cons_self) depth s')
  | cons x c ih =>
    cases c' with
    | nil =>
      have hends : Ends depth ((text p depth t (x :: c)).toList ++ s) := by
        rw [heq]
        simpa [text] using hs'
      exact absurd hends (not_ends_cons hp (h x List.mem_cons_self) depth s)
    | cons y c' =>
      rw [List.forall_mem_cons] at h h' hnan hread
      obtain ⟨f, hf, -⟩ := h.1
      obtain ⟨g, hg, htyped⟩ := h'.1
      have hfmem := MessageDef.mem_of_field? hf
      have hgmem := MessageDef.mem_of_field? hg
      rw [toList_text_cons hf, toList_text_cons hg] at heq
      simp only [List.append_assoc, List.append_cancel_left_eq] at heq
      -- The names end where they do, and tell the fields apart.
      obtain ⟨hname, hbody⟩ := (hp.identifiers t f hfmem).append_inj (hp.identifiers t g hgmem)
        (Element.head_body _ _ _ _ _) (Element.head_body _ _ _ _ _) heq
      obtain rfl : f = g := List.inj_on_of_nodup_map (hp.names t) hfmem hgmem hname
      obtain ⟨he, hrest⟩ := hread.1 f hf depth _ _ _ htyped hnan.1 hbody
      obtain ⟨hc, hs⟩ := ih h.2 h'.2 hnan.2 hread.2 hrest
      have hn : x.1 = y.1 :=
        (MessageDef.number_of_field? hf).symm.trans (MessageDef.number_of_field? hg)
      exact ⟨by rw [hc, Prod.ext hn he], hs⟩

end Content

/-- **Every value without NaN that a field takes can be made out at the front of a text.** -/
theorem Element.Typed.legible {p : Pool} (hp : p.Legible) {kind : FieldKind} {e : Element}
    (h : e.Typed p kind) (hnan : e.holdsNaN = false) : e.Legible p kind := by
  induction h with
  | scalar fits => exact legible_scalar fits hnan
  | enum lt => exact legible_enum hp lt
  | @message t c known typed ordered ih =>
    intro depth e' s s' htyped hnan' heq
    cases htyped with
    | @message _ c' known' typed' ordered' =>
      have hc := Content.typed_message_iff.1 (.message known typed ordered)
      have hc' := Content.typed_message_iff.1 (.message known' typed' ordered')
      rw [holdsNaN, Content.holdsNaN_eq_false_iff] at hnan hnan'
      simp only [body, FieldKind.index, List.cons_append, List.append_assoc, List.nil_append,
        List.cons.injEq, true_and] at heq
      obtain ⟨rfl, hrest⟩ := Content.eq_of_text_append hp hc.belongs hc'.belongs hnan'
        (fun x hx f hf => ih x hx f hf (hnan x hx)) (Content.ends_brace _ _)
        (Content.ends_brace _ _) heq
      have htail := List.append_cancel_left hrest
      exact ⟨rfl, (List.cons.inj (List.cons.inj htail).2).2⟩

namespace Message

/-- **Messages are told apart by their texts**, where names are identifiers and no floating-point number
is NaN. -/
theorem Made.text_injective {m m' : Message} (h : m.Made) (h' : m'.Made) (htype : m.type = m'.type)
    (hp : m.type.schema.pool.PlainlyNamed) (hnan : Content.holdsNaN m.content = false)
    (hnan' : Content.holdsNaN m'.content = false) (htext : m.text = m'.text) : m = m' := by
  have hlegible := h.sound.reachable.legible hp
  have hbelongs := h'.sound.typed.belongs
  rw [Content.holdsNaN_eq_false_iff] at hnan hnan'
  have heq := congrArg (·.toList ++ []) htext
  simp only [text] at heq
  rw [← htype] at hbelongs heq
  have hread : ∀ x ∈ m.content, ∀ f, m.type.define.field? x.1 = some f →
      x.2.Legible m.type.schema.pool f.kind := fun x hx f hf =>
    ((h.sound.typed.belongs x hx).typed hf).legible hlegible (hnan x hx)
  have hcontent := (Content.eq_of_text_append hlegible h.sound.typed.belongs hbelongs hnan' hread
    Content.ends_nil Content.ends_nil heq).1
  cases m
  cases m'
  exact congr (congrArg mk htype) hcontent

/-- A link that is decoded and one that is made field by field have the same text, so they are the
same. -/
theorem Made.text_injective_chain : ∃ decoded inner made : Message,
    decode ⟨⟨0, Pool.chain⟩, 0⟩ [10, 2, 16, 5] = .ok decoded ∧
      (empty ⟨⟨0, Pool.chain⟩, 0⟩).add (.number 2) (.scalar (.int32 5)) = .ok inner ∧
        (empty ⟨⟨0, Pool.chain⟩, 0⟩).set (.number 1) (.message inner) = .ok made ∧
          decoded.text = "next \x7b\n  marks: 5\n\x7d\n" ∧
            made.text = "next \x7b\n  marks: 5\n\x7d\n" ∧ decoded = made := by
  let type : MessageType := ⟨⟨0, Pool.chain⟩, 0⟩
  let inner : Message := ⟨type, [(2, .scalar (.int32 5))]⟩
  let made : Message := ⟨type, Content.marked 5⟩
  have hdecode : decode type [10, 2, 16, 5] = .ok made := decode_marked (n := 5) (by decide)
  have hadd : (empty type).add (.number 2) (.scalar (.int32 5)) = .ok inner :=
    add_eq_ok_iff.2 ⟨_, .scalar (.int32 5), MessageType.select_number rfl, rfl, rfl, rfl⟩
  have hfits : (Value.message inner).toElement? type.schema (.message 0) =
      some (.message inner.content) := by
    rw [Value.toElement?]
    exact if_pos rfl
  have hset : (empty type).set (.number 1) (.message inner) = .ok made :=
    set_eq_ok_iff.2 ⟨_, _, MessageType.select_number rfl, rfl, hfits, rfl⟩
  have hinner : inner.Made :=
    .add (s := .number 2) (.empty Pool.reachable_chain) trivial (.scalar _) hadd
  have hmade : made.Made := .set (s := .number 1) (.empty Pool.reachable_chain) trivial hinner hset
  have hnames : Pool.chain.PlainlyNamed := by
    refine ⟨?_, ?_⟩
    · unfold Name.IsIdentifier
      simp only [← List.forall_iff_forall_mem]
      decide
    · exact fun _ he => absurd he List.not_mem_nil
  have htext : made.text = "next \x7b\n  marks: 5\n\x7d\n" := rfl
  exact ⟨made, inner, made, hdecode, hadd, hset, htext, htext,
    Made.text_injective (.decode Pool.reachable_chain hdecode) hmade rfl hnames rfl rfl
      (htext.trans htext.symm)⟩

end Message

end ProtoSchema
