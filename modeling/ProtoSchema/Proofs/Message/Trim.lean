import ProtoSchema.Proofs.Message.Merge
import ProtoSchema.Proofs.Pool.Narrow

/-!
# Contents without deleted fields

`Content.trim` takes the values of deleted fields away, in a message and in all that nest in it.
What is left of a typed content is typed in a pool without these fields (`Content.Typed.trim`), and
it does not matter whether contents are merged before or after (`Content.trim_merge`).
-/

namespace ProtoSchema

mutual

/-- The value of a field of the kind without the deleted fields in it. -/
def Element.trim (p : Pool) (keeps : String → Nat → Bool) (kind : FieldKind) : Element → Element
  | .message c =>
    match kind with
    | .message t => .message (Content.trim p keeps t c)
    | _ => .message c
  | .scalar v => .scalar v
  | .enum i => .enum i

/-- The content of a message of the type without the deleted fields, at every level. -/
def Content.trim (p : Pool) (keeps : String → Nat → Bool) (t : Nat) : Content → Content
  | [] => []
  | (n, e) :: rest =>
    match (p.message t).field? n with
    | none => Content.trim p keeps t rest
    | some f =>
      if keeps (p.message t).fullName n then
        (n, e.trim p keeps f.kind) :: Content.trim p keeps t rest
      else Content.trim p keeps t rest

end

namespace Content

variable {p q : Pool} {keeps : String → Nat → Bool} {t u n : Nat} {c d : Content} {f : FieldDef}

/-! ## What is left -/

theorem trim_cons_kept (e : Element) (rest : Content) (hf : (p.message t).field? n = some f)
    (hk : keeps (p.message t).fullName n = true) :
    trim p keeps t ((n, e) :: rest) = (n, e.trim p keeps f.kind) :: trim p keeps t rest := by
  rw [trim]
  simp only [hf, hk, if_true]

theorem trim_cons_deleted (e : Element) (rest : Content) (hf : (p.message t).field? n = some f)
    (hk : keeps (p.message t).fullName n = false) :
    trim p keeps t ((n, e) :: rest) = trim p keeps t rest := by
  rw [trim]
  simp only [hf, hk, Bool.false_eq_true, if_false]

theorem trim_cons_absent (e : Element) (rest : Content) (hf : (p.message t).field? n = none) :
    trim p keeps t ((n, e) :: rest) = trim p keeps t rest := by
  rw [trim]
  simp only [hf]

/-- What is left of a value: itself without the deleted fields in it, or nothing. -/
theorem trim_cons (x : Nat × Element) (rest : Content) :
    trim p keeps t (x :: rest) = trim p keeps t [x] ++ trim p keeps t rest := by
  obtain ⟨n, e⟩ := x
  cases hf : (p.message t).field? n with
  | none => rw [trim_cons_absent e rest hf, trim_cons_absent e [] hf, trim, List.nil_append]
  | some f =>
    cases hk : keeps (p.message t).fullName n with
    | false =>
      rw [trim_cons_deleted e rest hf hk, trim_cons_deleted e [] hf hk, trim, List.nil_append]
    | true =>
      rw [trim_cons_kept e rest hf hk, trim_cons_kept e [] hf hk, trim, List.singleton_append]

theorem trim_append (c d : Content) :
    trim p keeps t (c ++ d) = trim p keeps t c ++ trim p keeps t d := by
  induction c with
  | nil => rw [List.nil_append, trim, List.nil_append]
  | cons x c ih => rw [List.cons_append, trim_cons, ih, trim_cons x c, List.append_assoc]

theorem trim_flatten (parts : List Content) :
    trim p keeps t parts.flatten = (parts.map (trim p keeps t)).flatten := by
  induction parts with
  | nil => rw [List.flatten_nil, trim, List.map_nil, List.flatten_nil]
  | cons c parts ih => rw [List.flatten_cons, trim_append, ih, List.map_cons, List.flatten_cons]

theorem mem_trim {y : Nat × Element} : y ∈ trim p keeps t c ↔
    ∃ x ∈ c, ∃ f, (p.message t).field? x.1 = some f ∧ keeps (p.message t).fullName x.1 = true ∧
      y = (x.1, x.2.trim p keeps f.kind) := by
  induction c with
  | nil => simp [trim]
  | cons x c ih =>
    obtain ⟨n, e⟩ := x
    rw [trim_cons, List.mem_append, ih, List.exists_mem_cons_iff]
    refine or_congr_left ?_
    cases hf : (p.message t).field? n with
    | none =>
      rw [trim_cons_absent e [] hf, trim]
      simp
    | some f =>
      cases hk : keeps (p.message t).fullName n with
      | false =>
        rw [trim_cons_deleted e [] hf hk, trim]
        simp
      | true =>
        rw [trim_cons_kept e [] hf hk, trim]
        simp

/-- **The values of a field that is kept are left, without the deleted fields in them.** -/
theorem values_trim (hf : (p.message t).field? n = some f)
    (hk : keeps (p.message t).fullName n = true) :
    values n (trim p keeps t c) = (values n c).map (Element.trim p keeps f.kind) := by
  induction c with
  | nil => rw [trim, values_nil, List.map_nil]
  | cons x c ih =>
    obtain ⟨m, e⟩ := x
    rw [trim_cons, values_concat, ih, values_cons]
    by_cases hm : m = n
    · obtain rfl := hm
      rw [trim_cons_kept e [] hf hk, trim, if_pos rfl, values_cons, if_pos rfl]
      rfl
    · have hnone : values n (trim p keeps t [(m, e)]) = [] := by
        refine values_of_forall_ne fun y hy => ?_
        obtain ⟨x, hx, g, -, -, rfl⟩ := mem_trim.1 hy
        rwa [List.mem_singleton.1 hx]
      rw [hnone, List.nil_append, if_neg hm]

/-- Nothing is left of a field that is deleted. -/
theorem values_trim_deleted (hk : keeps (p.message t).fullName n = false) :
    values n (trim p keeps t c) = [] := by
  refine values_of_forall_ne fun y hy hn => ?_
  obtain ⟨x, -, f, -, hkeep, rfl⟩ := mem_trim.1 hy
  rw [← hn] at hk
  exact Bool.false_ne_true (hk.symm.trans hkeep)

/-- What is left of values that all belong to one field. -/
theorem trim_map_kept (hf : (p.message t).field? n = some f)
    (hk : keeps (p.message t).fullName n = true) (es : List Element) :
    trim p keeps t (es.map (n, ·)) = (es.map (Element.trim p keeps f.kind)).map (n, ·) := by
  induction es with
  | nil => rw [List.map_nil, trim, List.map_nil, List.map_nil]
  | cons e es ih =>
    rw [List.map_cons, trim_cons_kept e _ hf hk, ih, List.map_cons, List.map_cons]

theorem trim_map_deleted (hk : keeps (p.message t).fullName n = false) (es : List Element) :
    trim p keeps t (es.map (n, ·)) = [] := by
  rw [List.eq_nil_iff_forall_not_mem]
  intro y hy
  obtain ⟨x, hx, f, -, hkeep, -⟩ := mem_trim.1 hy
  obtain ⟨e, -, rfl⟩ := List.mem_map.1 hx
  exact Bool.false_ne_true (hk.symm.trans hkeep)

/-- What is left stands in order. -/
theorem Ordered.trim {repeats repeats' : Nat → Prop} (h : Ordered repeats c)
    (hr : ∀ n f, (p.message t).field? n = some f → keeps (p.message t).fullName n = true →
      repeats n → repeats' n) : Ordered repeats' (trim p keeps t c) := by
  induction c with
  | nil =>
    rw [Content.trim]
    exact List.Pairwise.nil
  | cons x c ih =>
    obtain ⟨hhead, htail⟩ := List.pairwise_cons.1 h
    obtain ⟨n, e⟩ := x
    cases hf : (p.message t).field? n with
    | none =>
      rw [trim_cons_absent e c hf]
      exact ih htail
    | some f =>
      cases hk : keeps (p.message t).fullName n with
      | false =>
        rw [trim_cons_deleted e c hf hk]
        exact ih htail
      | true =>
        rw [trim_cons_kept e c hf hk]
        refine List.pairwise_cons.2 ⟨fun y hy => ?_, ih htail⟩
        obtain ⟨x, hx, -, -, -, rfl⟩ := mem_trim.1 hy
        exact ⟨(hhead x hx).1, fun heq => hr n f hf hk ((hhead x hx).2 heq)⟩

end Content

/-! ## What is left is typed -/

/-- What becomes of the fields of messages with the same name. -/
def Pool.Narrowing (p q : Pool) (keeps : String → Nat → Bool) : Prop :=
  ∀ t u, p.Namesakes q t u → ∀ n, p.Fate q keeps t u n

variable {p q : Pool} {keeps : String → Nat → Bool}

/-- A field that is kept has a counterpart. -/
theorem Pool.Narrowing.exists_field (hn : p.Narrowing q keeps) {t u n : Nat}
    (hs : p.Namesakes q t u) {f : FieldDef} (hf : (p.message t).field? n = some f)
    (hk : keeps (p.message t).fullName n = true) : ∃ f', (q.message u).field? n = some f' ∧
      f'.isRepeated = f.isRepeated ∧ f.kind.Namesakes p q f'.kind := by
  cases hn t u hs n with
  | absent old => simp [hf] at old
  | deleted old drops => simp [hk] at drops
  | @kept g f' old _ new repeated kind =>
    obtain rfl : f = g := Option.some.inj (hf.symm.trans old)
    exact ⟨f', new, repeated, kind⟩

/-- What is left of the value is one of the kinds that correspond to its own. -/
def Element.Trims (p q : Pool) (keeps : String → Nat → Bool) (kind : FieldKind) (e : Element) :
    Prop :=
  ∀ kind', kind.Namesakes p q kind' → (e.trim p keeps kind).Typed q kind'

namespace Content

variable {t u n : Nat} {c d : Content}

/-- What is left of values belongs to the message when it is of the fields' kinds. -/
theorem belongs_trim_of (hn : p.Narrowing q keeps) (hs : p.Namesakes q t u)
    (h : ∀ x ∈ c, ∀ f, (p.message t).field? x.1 = some f → x.2.Trims p q keeps f.kind) :
    ∀ y ∈ trim p keeps t c, Belongs q u y := by
  intro y hy
  obtain ⟨x, hx, f, hf, hk, rfl⟩ := mem_trim.1 hy
  obtain ⟨f', hf', -, hkind⟩ := hn.exists_field hs hf hk
  exact ⟨f', hf', h x hx f hf _ hkind⟩

theorem Typed.trim_of (hn : p.Narrowing q keeps) (hs : p.Namesakes q t u) (h : Typed p t c)
    (hvalues : ∀ x ∈ c, ∀ f, (p.message t).field? x.1 = some f → x.2.Trims p q keeps f.kind) :
    Typed q u (trim p keeps t c) := by
  refine ⟨belongs_trim_of hn hs hvalues, h.ordered.trim ?_⟩
  rintro n f hf hk ⟨g, hg, hrep⟩
  obtain rfl : f = g := Option.some.inj (hf.symm.trans hg)
  obtain ⟨f', hf', hlabel, -⟩ := hn.exists_field hs hf hk
  exact ⟨f', hf', hlabel.trans hrep⟩

end Content

/-- **A value is typed without the deleted fields in it.** -/
theorem Element.Typed.trims (hn : p.Narrowing q keeps) {kind : FieldKind} {e : Element}
    (h : e.Typed p kind) : e.Trims p q keeps kind := by
  induction h with
  | scalar fits =>
    intro kind' hk
    cases hk
    rw [Element.trim]
    exact .scalar fits
  | enum lt =>
    intro kind' hk
    cases hk with
    | enum values =>
      rw [Element.trim]
      exact .enum (values ▸ lt)
  | message known typed ordered ih =>
    intro kind' hk
    cases hk with
    | message same =>
      have hc := Content.typed_message_iff.1 (.message known typed ordered)
      rw [Element.trim]
      exact Content.typed_message_iff.2 (hc.trim_of hn same ih)

namespace Content

variable {t u : Nat} {c : Content}

theorem belongs_trim (hn : p.Narrowing q keeps) (hs : p.Namesakes q t u)
    (h : ∀ x ∈ c, Belongs p t x) : ∀ y ∈ trim p keeps t c, Belongs q u y :=
  belongs_trim_of hn hs fun x hx _ hf => ((h x hx).typed hf).trims hn

/-- **A content is typed without the deleted fields.** -/
theorem Typed.trim (hn : p.Narrowing q keeps) (hs : p.Namesakes q t u) (h : Typed p t c) :
    Typed q u (trim p keeps t c) :=
  h.trim_of hn hs fun x hx _ hf => ((h.belongs x hx).typed hf).trims hn

end Content

/-! ## Merging what is left -/

/-- What is left of a value merged into another one is what is left of both, merged. -/
def Element.TrimsMerged (p q : Pool) (keeps : String → Nat → Bool) (kind : FieldKind)
    (e : Element) : Prop :=
  ∀ kind', kind.Namesakes p q kind' → ∀ old : Option Element, (∀ o ∈ old, o.Typed p kind) →
    (e.mergeInto p kind old).trim p keeps kind =
      (e.trim p keeps kind).mergeInto q kind' (old.map (Element.trim p keeps kind))

/-- What is left of the values of a field that has received others. -/
theorem FieldDef.map_foldl_receive {f f' : FieldDef} (hrep : f'.isRepeated = f.isRepeated)
    (hkind : f.kind.Namesakes p q f'.kind) {es : List Element}
    (hes : ∀ e ∈ es, e.Typed p f.kind ∧ e.TrimsMerged p q keeps f.kind) :
    ∀ {held : List Element}, (∀ e ∈ held, e.Typed p f.kind) →
      (es.foldl (f.receive p) held).map (Element.trim p keeps f.kind) =
        (es.map (Element.trim p keeps f.kind)).foldl (f'.receive q)
          (held.map (Element.trim p keeps f.kind)) := by
  induction es with
  | nil => exact fun _ => rfl
  | cons e es ih =>
    intro held hheld
    rw [List.forall_mem_cons] at hes
    obtain ⟨⟨htyped, htrims⟩, hes⟩ := hes
    have hhead : ∀ o ∈ held.head?, o.Typed p f.kind := fun o ho =>
      hheld o (List.mem_of_mem_head? ho)
    rw [List.foldl_cons, List.map_cons, List.foldl_cons]
    cases hf : f.isRepeated with
    | true =>
      rw [receive, receive, hrep, hf, if_pos rfl, if_pos rfl, ih hes, List.map_append]
      · rfl
      · rw [List.forall_mem_append, List.forall_mem_singleton]
        exact ⟨hheld, htyped⟩
    | false =>
      rw [receive, receive, hrep, hf, if_neg Bool.false_ne_true, if_neg Bool.false_ne_true, ih hes,
        List.map_singleton, htrims _ hkind _ hhead, List.head?_map]
      rw [List.forall_mem_singleton]
      exact htyped.mergeInto _ hhead

namespace Content

variable {t u : Nat} {c d : Content}

theorem trim_merge_of (hn : p.Narrowing q keeps) (hs : p.Namesakes q t u) (hc : Typed p t c)
    (hd : ∀ x ∈ d, Belongs p t x)
    (hvalues : ∀ x ∈ d, ∀ f, (p.message t).field? x.1 = some f → x.2.TrimsMerged p q keeps f.kind) :
    trim p keeps t (merge p t c d) = merge q u (trim p keeps t c) (trim p keeps t d) := by
  have hleft : Typed q u (trim p keeps t (merge p t c d)) := (hc.merge hd).trim hn hs
  have hright : Typed q u (merge q u (trim p keeps t c) (trim p keeps t d)) :=
    (hc.trim hn hs).merge (belongs_trim hn hs hd)
  refine hleft.ordered.ext hright.ordered fun n => ?_
  cases hn t u hs n with
  | absent _ new | deleted _ _ new => rw [hleft.values_of_none new, hright.values_of_none new]
  | @kept f f' old keeps new repeated kind =>
    rw [values_trim old keeps, values_merge hc.ordered old,
      values_merge (hc.trim hn hs).ordered new, values_trim old keeps, values_trim old keeps]
    refine FieldDef.map_foldl_receive repeated kind ?_ ?_
    · intro e he
      have hmem := mem_values.1 he
      exact ⟨(hd _ hmem).typed old, hvalues _ hmem f old⟩
    · intro e he
      exact hc.of_mem_values old he

end Content

/-- **Values are merged the same way before and after fields are deleted in them.** -/
theorem Element.Typed.trimsMerged (hn : p.Narrowing q keeps) {kind : FieldKind} {e : Element}
    (h : e.Typed p kind) : e.TrimsMerged p q keeps kind := by
  induction h with
  | scalar fits =>
    intro kind' _ old _
    rw [Element.mergeInto, Element.trim, Element.mergeInto]
  | enum lt =>
    intro kind' _ old _
    rw [Element.mergeInto, Element.trim, Element.mergeInto]
  | @message t new known typed ordered ih =>
    have hnew := Content.typed_message_iff.1 (.message known typed ordered)
    intro kind' hk old hold
    cases hk with
    | message same =>
      cases old with
      | none => rw [Element.mergeInto_none, Option.map_none, Element.mergeInto_none]
      | some o =>
        -- The field held a message of the same type, in which fields are deleted as well.
        have ho := hold o rfl
        cases ho with
        | message known' typed' ordered' =>
          have hc := Content.typed_message_iff.1 (.message known' typed' ordered')
          rw [Element.mergeInto, Element.trim, Option.map_some, Element.trim, Element.trim,
            Element.mergeInto, Content.trim_merge_of hn same hc hnew.belongs ih]

/-- **Contents are merged the same way before and after fields are deleted.** -/
theorem Content.trim_merge (hn : p.Narrowing q keeps) {t u : Nat} (hs : p.Namesakes q t u)
    {c d : Content} (hc : Content.Typed p t c) (hd : ∀ x ∈ d, Content.Belongs p t x) :
    Content.trim p keeps t (Content.merge p t c d) =
      Content.merge q u (Content.trim p keeps t c) (Content.trim p keeps t d) :=
  trim_merge_of hn hs hc hd fun x hx _ hf => ((hd x hx).typed hf).trimsMerged hn

end ProtoSchema
