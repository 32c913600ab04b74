import ProtoSchema.Proofs.Message.Typed

/-!
# What merging gives

`Content.Merged` says field by field what the merge of two contents holds, and there is only one such
content (`Merged.unique`). Merging typed contents gives it (`Content.Typed.merged`).

Merging into one content what was merged before is merging one part after the other
(`Content.Typed.merge_assoc`).
-/

namespace ProtoSchema

/-- What a field that holds the values `held` holds when it is given another one. -/
def FieldDef.receive (p : Pool) (f : FieldDef) (held : List Element) (e : Element) : List Element :=
  if f.isRepeated then held ++ [e] else [e.mergeInto p f.kind held.head?]

namespace FieldDef

variable {p : Pool} {f : FieldDef}

theorem foldl_receive_repeated (hrep : f.isRepeated = true) (held es : List Element) :
    es.foldl (f.receive p) held = held ++ es := by
  induction es generalizing held with
  | nil => rw [List.foldl_nil, List.append_nil]
  | cons e es ih => rw [List.foldl_cons, ih, receive, if_pos hrep, List.append_assoc]; rfl

end FieldDef

namespace Content

variable {p : Pool} {t n : Nat} {c d : Content} {f : FieldDef}

/-! ## The fields of a typed content -/

/-- A number that no field has is the number of no value. -/
theorem Typed.values_of_none (h : Typed p t c) (hf : (p.message t).field? n = none) :
    values n c = [] := by
  refine values_of_forall_ne fun x hx hn => ?_
  obtain ⟨g, hg, -⟩ := h.belongs x hx
  rw [hn, hf] at hg
  simp at hg

theorem Typed.length_values_le (h : Typed p t c) (hf : (p.message t).field? n = some f)
    (hrep : f.isRepeated = false) : (values n c).length ≤ 1 := by
  refine h.ordered.length_values_le ?_
  rintro ⟨g, hg, hgrep⟩
  obtain rfl : f = g := Option.some.inj (hf.symm.trans hg)
  simp [hrep] at hgrep

/-- A field that is not repeated holds no value or one. -/
theorem Typed.values_cases (h : Typed p t c) (hf : (p.message t).field? n = some f)
    (hrep : f.isRepeated = false) : values n c = [] ∨ ∃ e, values n c = [e] ∧ e.Typed p f.kind := by
  match hv : values n c, h.length_values_le hf hrep with
  | [], _ => exact Or.inl rfl
  | [e], _ => exact Or.inr ⟨e, rfl, h.of_mem_values hf (hv ▸ List.mem_singleton_self e)⟩

theorem Typed.values_message {u : Nat} (h : Typed p t c) (hf : (p.message t).field? n = some f)
    (hrep : f.isRepeated = false) (hkind : f.kind = .message u) (hne : values n c ≠ []) :
    ∃ x, values n c = [.message x] := by
  obtain hnil | ⟨e, he, htyped⟩ := h.values_cases hf hrep
  · exact absurd hnil hne
  · rw [hkind] at htyped
    cases htyped with
    | @message _ x => exact ⟨x, he⟩

/-! ## The fields of a merged content -/

theorem merge_cons_of_none (e : Element) (rest : Content) (hf : (p.message t).field? n = none) :
    merge p t c ((n, e) :: rest) = merge p t c rest := by
  rw [merge]
  simp only [hf]

/-- Whatever is merged into a content in order, it stays in order. -/
theorem Ordered.merge (h : Ordered (p.Repeats t) c) : Ordered (p.Repeats t) (merge p t c d) := by
  induction d generalizing c with
  | nil =>
    rw [Content.merge]
    exact h
  | cons x d ih =>
    obtain ⟨n, e⟩ := x
    cases hf : (p.message t).field? n with
    | none =>
      rw [merge_cons_of_none e d hf]
      exact ih h
    | some f =>
      rw [merge_cons e d hf]
      refine ih ?_
      split
      · next hrep => exact h.append (Or.inl ⟨f, hf, hrep⟩)
      · exact h.replace (Or.inr (Nat.le_refl 1))

/-- **Each field receives the values that are merged into it, one after the other.** -/
theorem values_merge (h : Ordered (p.Repeats t) c) (hf : (p.message t).field? n = some f) :
    values n (merge p t c d) = (values n d).foldl (f.receive p) (values n c) := by
  induction d generalizing c with
  | nil => rw [merge, values_nil, List.foldl_nil]
  | cons x d ih =>
    obtain ⟨m, e⟩ := x
    cases hg : (p.message t).field? m with
    | none =>
      have hm : m ≠ n := by
        rintro rfl
        simp [hf] at hg
      rw [merge_cons_of_none e d hg, values_cons, if_neg hm, ih h]
    | some g =>
      have hstep : merge p t c [(m, e)] = _ := merge_cons e [] hg
      rw [merge] at hstep
      rw [merge_cons e d hg, ← hstep, ih h.merge, hstep, values_cons]
      -- Only the field with the number of the value receives it.
      by_cases hm : m = n
      · obtain rfl := hm
        obtain rfl : f = g := Option.some.inj (hf.symm.trans hg)
        rw [if_pos rfl, List.foldl_cons, FieldDef.receive]
        split
        · rw [values_append h, if_pos rfl]
        · rw [values_replace, if_pos rfl]
      · rw [if_neg hm]
        split
        · rw [values_append h, if_neg (Ne.symm hm), List.append_nil]
        · rw [values_replace, if_neg (Ne.symm hm)]

/-- What is merged one behind the other may be merged in two turns. -/
theorem merge_append (c d e : Content) : merge p t c (d ++ e) = merge p t (merge p t c d) e := by
  induction d generalizing c with
  | nil => rw [List.nil_append, merge]
  | cons x d ih =>
    rw [List.cons_append, merge, merge]
    exact ih _

/-- Contents that are merged one after the other are merged as one. -/
theorem foldl_merge_eq (parts : List Content) (c : Content) :
    parts.foldl (merge p t) c = merge p t c parts.flatten := by
  induction parts generalizing c with
  | nil => rw [List.foldl_nil, List.flatten_nil, merge]
  | cons d parts ih => rw [List.foldl_cons, ih, List.flatten_cons, merge_append]

end Content

/-! ## Merging what was merged -/

/-- Merging the value into what another one was merged into is merging both one after the other. -/
def Element.Associates (p : Pool) (kind : FieldKind) (e : Element) : Prop :=
  ∀ d, d.Typed p kind → ∀ old : Option Element, (∀ o ∈ old, o.Typed p kind) →
    (e.mergeInto p kind (some d)).mergeInto p kind old =
      e.mergeInto p kind (some (d.mergeInto p kind old))

/-- What a field receives through another one that is not repeated either. -/
theorem FieldDef.foldl_receive_single {p : Pool} {f : FieldDef} (hrep : f.isRepeated = false)
    {old held es : List Element} (hold : ∀ o ∈ old.head?, o.Typed p f.kind)
    (hheld : ∀ d ∈ held, d.Typed p f.kind) (hlen : held.length ≤ 1)
    (hes : ∀ e ∈ es, e.Typed p f.kind ∧ e.Associates p f.kind) :
    (es.foldl (f.receive p) held).foldl (f.receive p) old =
      es.foldl (f.receive p) (held.foldl (f.receive p) old) := by
  have hsingle : ∀ held e, f.receive p held e = [e.mergeInto p f.kind held.head?] := by
    intro held e
    rw [receive, if_neg (by simp [hrep])]
  induction es generalizing held with
  | nil => rfl
  | cons e es ih =>
    rw [List.forall_mem_cons] at hes
    obtain ⟨⟨htyped, hassoc⟩, hes⟩ := hes
    have hhead : ∀ o ∈ held.head?, o.Typed p f.kind := fun o ho =>
      hheld o (List.mem_of_mem_head? ho)
    have hinto : ∀ d ∈ [e.mergeInto p f.kind held.head?], d.Typed p f.kind := by
      rw [List.forall_mem_singleton]
      exact htyped.mergeInto _ hhead
    rw [List.foldl_cons, List.foldl_cons, hsingle held e, ih hinto (Nat.le_refl 1) hes]
    congr 1
    -- The field held nothing, or the one value that `e` was merged into.
    match held, hlen with
    | [], _ =>
      rw [List.foldl_cons, List.foldl_nil, hsingle, hsingle, List.head?_nil,
        Element.mergeInto_none, List.foldl_nil]
    | [d], _ =>
      rw [List.forall_mem_singleton] at hheld
      simp only [List.foldl_cons, List.foldl_nil, hsingle, List.head?_cons]
      rw [hassoc d hheld _ hold]

namespace Content

variable {p : Pool} {t : Nat} {b c d : Content}

theorem merge_assoc_of (hb : Typed p t b) (hc : Typed p t c) (hd : ∀ x ∈ d, Belongs p t x)
    (hassoc : ∀ x ∈ d, ∀ f, (p.message t).field? x.1 = some f → x.2.Associates p f.kind) :
    merge p t b (merge p t c d) = merge p t (merge p t b c) d := by
  refine hb.ordered.merge.ext hb.ordered.merge.merge fun n => ?_
  cases hf : (p.message t).field? n with
  | none =>
    rw [(hb.merge (hc.merge hd).belongs).values_of_none hf,
      ((hb.merge hc.belongs).merge hd).values_of_none hf]
  | some f =>
    rw [values_merge hb.ordered hf, values_merge hc.ordered hf, values_merge hb.ordered.merge hf,
      values_merge hb.ordered hf]
    cases hrep : f.isRepeated with
    | true => simp only [FieldDef.foldl_receive_repeated hrep, List.append_assoc]
    | false =>
      refine FieldDef.foldl_receive_single hrep ?_ ?_ (hc.length_values_le hf hrep) ?_
      · intro o ho
        exact hb.of_mem_values hf (List.mem_of_mem_head? ho)
      · intro e he
        exact hc.of_mem_values hf he
      · intro e he
        have hmem := mem_values.1 he
        exact ⟨(hd _ hmem).typed hf, hassoc _ hmem f hf⟩

end Content

/-- Only messages are merged. -/
theorem Element.Typed.mergeInto_of_ne {p : Pool} {kind : FieldKind} {e : Element}
    (h : e.Typed p kind) (hkind : ∀ u, kind ≠ .message u) (old : Option Element) :
    e.mergeInto p kind old = e := by
  cases h with
  | scalar fits => rw [Element.mergeInto]
  | enum lt => rw [Element.mergeInto]
  | @message t => exact absurd rfl (hkind t)

/-- **Values of a field are merged the same way in one turn or in two.** -/
theorem Element.Typed.associates {p : Pool} {kind : FieldKind} {e : Element}
    (h : e.Typed p kind) : e.Associates p kind := by
  induction h with
  | scalar fits =>
    intro d _ old _
    rw [Element.mergeInto, Element.mergeInto, Element.mergeInto]
  | enum lt =>
    intro d _ old _
    rw [Element.mergeInto, Element.mergeInto, Element.mergeInto]
  | @message t new known typed ordered ih =>
    have hnew : Content.Typed p t new := Content.typed_message_iff.1 (.message known typed ordered)
    intro d hd old hold
    cases hd with
    | @message _ c known' typed' ordered' =>
      have hc : Content.Typed p t c :=
        Content.typed_message_iff.1 (.message known' typed' ordered')
      cases old with
      | none => rw [Element.mergeInto_none, Element.mergeInto_none]
      | some o =>
        have ho := hold o rfl
        cases ho with
        | @message _ b known'' typed'' ordered'' =>
          have hb : Content.Typed p t b :=
            Content.typed_message_iff.1 (.message known'' typed'' ordered'')
          rw [Element.mergeInto, Element.mergeInto, Element.mergeInto, Element.mergeInto,
            Content.merge_assoc_of hb hc hnew.belongs ih]

namespace Content

variable {p : Pool} {t n : Nat} {b c d : Content} {f : FieldDef}

/-- **Merging is associative**, and the last content need not be in order. -/
theorem Typed.merge_assoc (hb : Typed p t b) (hc : Typed p t c) (hd : ∀ x ∈ d, Belongs p t x) :
    Content.merge p t b (Content.merge p t c d) = Content.merge p t (Content.merge p t b c) d :=
  merge_assoc_of hb hc hd fun x hx _ hf => ((hd x hx).typed hf).associates

/-- What is merged into a content may be merged into nothing first. -/
theorem Typed.merge_merge_nil (hb : Typed p t b) (hd : ∀ x ∈ d, Belongs p t x) :
    Content.merge p t b (Content.merge p t [] d) = Content.merge p t b d := by
  have hnil : Content.merge p t b [] = b := by rw [Content.merge]
  rw [hb.merge_assoc typed_nil hd, hnil]

/-- What is merged into nothing stays as it is. -/
theorem Typed.nil_merge (h : Typed p t c) : Content.merge p t [] c = c := by
  have htyped := typed_nil.merge h.belongs
  refine htyped.ordered.ext h.ordered fun n => ?_
  cases hf : (p.message t).field? n with
  | none => rw [htyped.values_of_none hf, h.values_of_none hf]
  | some f =>
    rw [values_merge typed_nil.ordered hf, values_nil]
    cases hrep : f.isRepeated with
    | true => rw [FieldDef.foldl_receive_repeated hrep, List.nil_append]
    | false =>
      obtain hnil | ⟨e, he, -⟩ := h.values_cases hf hrep
      · rw [hnil, List.foldl_nil]
      · rw [he, List.foldl_cons, List.foldl_nil, FieldDef.receive, if_neg (by simp [hrep]),
          List.head?_nil, Element.mergeInto_none]

/-! ## What a merged content holds -/

/-- The content `r` is the merge of `c` and `d`, two contents of messages of the type: repeated fields
hold the elements of both, a message that is in both is merged in turn, and any other field holds what
the second has for it. -/
inductive Merged (p : Pool) : (t : Nat) → (c d r : Content) → Prop
  | mk {t : Nat} {c d r : Content} (typed : Typed p t r)
    (repeated : ∀ n f, (p.message t).field? n = some f → f.isRepeated = true →
      values n r = values n c ++ values n d)
    (kept : ∀ n, values n d = [] → values n r = values n c)
    (replaced : ∀ n f, (p.message t).field? n = some f → f.isRepeated = false →
      values n d ≠ [] → (values n c = [] ∨ ∀ u, f.kind ≠ .message u) → values n r = values n d)
    (single : ∀ n f u, (p.message t).field? n = some f → f.isRepeated = false →
      f.kind = .message u → ∀ x y, values n c = [.message x] → values n d = [.message y] →
        ∃ z, values n r = [.message z])
    (nested : ∀ n f u, (p.message t).field? n = some f → f.isRepeated = false →
      f.kind = .message u → ∀ x y z, values n c = [.message x] → values n d = [.message y] →
        values n r = [.message z] → Merged p u x y z) : Merged p t c d r

/-- A single message that another one is merged into holds their merge. -/
theorem values_merge_message {u : Nat} {x y : Content} (hc : Typed p t c)
    (hf : (p.message t).field? n = some f) (hrep : f.isRepeated = false) (hkind : f.kind = .message u)
    (hx : values n c = [.message x]) (hy : values n d = [.message y]) :
    values n (merge p t c d) = [.message (merge p u x y)] := by
  rw [values_merge hc.ordered hf, hx, hy, List.foldl_cons, List.foldl_nil, FieldDef.receive,
    if_neg (by simp [hrep]), hkind, List.head?_cons, Element.mergeInto]

theorem Typed.of_values_message {u : Nat} {x : Content} (hc : Typed p t c)
    (hf : (p.message t).field? n = some f) (hkind : f.kind = .message u)
    (hx : values n c = [.message x]) : Typed p u x := by
  have htyped : (Element.message x).Typed p f.kind :=
    hc.of_mem_values hf (hx ▸ List.mem_singleton_self _)
  rw [hkind] at htyped
  exact typed_message_iff.1 htyped

/-- **Merging typed contents gives what their merge holds.** -/
theorem merged_of_typed {t : Nat} {c d : Content} (hc : Typed p t c) (hd : Typed p t d) :
    Merged p t c d (merge p t c d) := by
  refine .mk (hc.merge hd.belongs) ?_ ?_ ?_ ?_ ?_
  · intro n f hf hrep
    rw [values_merge hc.ordered hf, FieldDef.foldl_receive_repeated hrep]
  · intro n hn
    cases hf : (p.message t).field? n with
    | none => rw [(hc.merge hd.belongs).values_of_none hf, hc.values_of_none hf]
    | some f => rw [values_merge hc.ordered hf, hn, List.foldl_nil]
  · intro n f hf hrep hne hother
    obtain hnil | ⟨e, he, htyped⟩ := hd.values_cases hf hrep
    · exact absurd hnil hne
    · have hinto : e.mergeInto p f.kind (values n c).head? = e := by
        rcases hother with hnil | hkind
        · rw [hnil, List.head?_nil, Element.mergeInto_none]
        · exact htyped.mergeInto_of_ne hkind _
      rw [values_merge hc.ordered hf, he, List.foldl_cons, List.foldl_nil, FieldDef.receive,
        if_neg (by simp [hrep]), hinto]
  · intro n f u hf hrep hkind x y hx hy
    exact ⟨_, values_merge_message hc hf hrep hkind hx hy⟩
  · intro n f u hf hrep hkind x y z hx hy hz
    have hmerge := values_merge_message hc hf hrep hkind hx hy
    obtain rfl : merge p u x y = z := by simpa [hmerge] using hz
    have hmem : (n, Element.message y) ∈ d := mem_values.1 (hy ▸ List.mem_singleton_self _)
    have hsize := List.sizeOf_lt_of_mem hmem
    exact merged_of_typed (hc.of_values_message hf hkind hx) (hd.of_values_message hf hkind hy)
termination_by sizeOf d
decreasing_by
  simp only [Prod.mk.sizeOf_spec, Element.message.sizeOf_spec] at hsize
  omega

/-- **There is only one merge of two typed contents.** -/
theorem Merged.unique {t : Nat} {c d r r' : Content} (h : Merged p t c d r) (hc : Typed p t c)
    (hd : Typed p t d) (h' : Merged p t c d r') : r = r' := by
  induction h generalizing r' with
  | @mk t c d r typed repeated kept replaced single nested ih =>
    obtain ⟨typed', repeated', kept', replaced', single', nested'⟩ := h'
    refine typed.ordered.ext typed'.ordered fun n => ?_
    cases hf : (p.message t).field? n with
    | none => rw [typed.values_of_none hf, typed'.values_of_none hf]
    | some f =>
      cases hrep : f.isRepeated with
      | true => rw [repeated n f hf hrep, repeated' n f hf hrep]
      | false =>
        by_cases hnil : values n d = []
        · rw [kept n hnil, kept' n hnil]
        · by_cases hother : values n c = [] ∨ ∀ u, f.kind ≠ .message u
          · rw [replaced n f hf hrep hnil hother, replaced' n f hf hrep hnil hother]
          · -- Both contents have a message for the field.
            rw [not_or, not_forall_not] at hother
            obtain ⟨hne, u, hkind⟩ := hother
            obtain ⟨x, hx⟩ := hc.values_message hf hrep hkind hne
            obtain ⟨y, hy⟩ := hd.values_message hf hrep hkind hnil
            obtain ⟨z, hz⟩ := single n f u hf hrep hkind x y hx hy
            obtain ⟨z', hz'⟩ := single' n f u hf hrep hkind x y hx hy
            rw [hz, hz', ih n f u hf hrep hkind x y z hx hy hz (hc.of_values_message hf hkind hx)
              (hd.of_values_message hf hkind hy) (nested' n f u hf hrep hkind x y z' hx hy hz')]

end Content

end ProtoSchema
