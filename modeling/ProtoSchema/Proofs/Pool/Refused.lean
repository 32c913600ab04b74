import ProtoSchema.Proofs.Pool.Absolute
import ProtoSchema.Proofs.Pool.Meaning

/-!
# Why records cannot be linked

`Link.Refuses` says, for each error, which condition on the records it stands for, in terms of the
declared types alone. **Linking is refused only for a condition that is violated**
(`Link.refuses_of_link`), and the error names where: the type, the field or the record.

That a name is entered twice is told apart by the records that declare it: the schema's own may declare
it twice, or else an imported one has declared it first.
-/

namespace ProtoSchema

/-- The error stands for a condition that the imported records and the schema's own violate. Types of
the list `blamed` are the only ones that it can be about by themselves. -/
inductive Link.Refuses (imported : List RecordDecl) (own : RecordDecl) (blamed : List ScopedType) :
    LinkError → Prop
  | notPlain {t : ScopedType} (mem : t ∈ blamed)
    (name : t.decl.name = "" ∨ '.' ∈ t.decl.name.toList) :
    Refuses imported own blamed (.notPlain t.decl.form t.decl.name t.scope)
  | noValues {scope : String} {e : EnumDecl} (mem : ⟨scope, .enum e⟩ ∈ blamed)
    (lacks : e.values = []) : Refuses imported own blamed (.noValues (Name.qualify scope e.name))
  | duplicate {name : String} (twice : 2 ≤ (own.types.map ScopedType.fullName).count name) :
    Refuses imported own blamed (.duplicate name)
  | conflict {r : RecordDecl} {name : String} (mem : r ∈ imported) (declares : Declares r.types name)
    (twice : 2 ≤ (((imported ++ [own]).flatMap RecordDecl.types).map ScopedType.fullName).count name) :
    Refuses imported own blamed (.conflict name r.name)
  | unresolved {scope : String} {m : MessageDecl} {f : FieldDecl}
    (mem : ⟨scope, .message m⟩ ∈ blamed) (field : f ∈ m.fields)
    (unbound : ¬Bound ((imported ++ [own]).flatMap RecordDecl.types) (Name.qualify scope m.name)
      f.typeName) :
    Refuses imported own blamed (.unresolved (Name.qualify scope m.name) f.name f.typeName)
  | invalidDefault {scope : String} {m : MessageDecl} {f : FieldDecl} {text : String}
    {fault : DefaultFault} (mem : ⟨scope, .message m⟩ ∈ blamed) (field : f ∈ m.fields)
    (declared : f.default? = some text)
    (unfit : ∀ target, Means ((imported ++ [own]).flatMap RecordDecl.types)
      (Name.qualify scope m.name) f.typeName target →
        ¬(f.label ≠ .repeated ∧ target.Accepts text)) :
    Refuses imported own blamed
      (.invalidDefault (Name.qualify scope m.name ++ "." ++ f.name) text fault)

/-! ## Records of declared types -/

namespace MessageDecl

mutual

theorem record_of_mem_placed {x : PlacedMessage} (place : Place) (i e : Nat) : ∀ m : MessageDecl,
    x ∈ m.placed place i e → x.place.record = place.record
  | ⟨name, fields, messages, enums⟩, hx => by
    rw [placed, List.mem_cons] at hx
    rcases hx with rfl | hx
    · rfl
    · have hrecord := record_of_mem_placedList _ _ _ messages hx
      exact hrecord

theorem record_of_mem_placedList {x : PlacedMessage} (place : Place) (i e : Nat) :
    ∀ ms : List MessageDecl, x ∈ placedList place i e ms → x.place.record = place.record
  | [], hx => absurd hx List.not_mem_nil
  | m :: ms, hx => by
    rw [placedList, List.mem_append] at hx
    rcases hx with hx | hx
    · exact record_of_mem_placed place i e m hx
    · exact record_of_mem_placedList place _ _ ms hx

end

end MessageDecl

theorem PlacedRecord.record_of_mem_declared {r : PlacedRecord} {d : Declared} (h : d ∈ r.declared) :
    d.place.record = r.index := by
  rw [declared, List.mem_append, List.mem_flatMap, List.mem_map] at h
  rcases h with ⟨m, hm, hd⟩ | ⟨e, he, rfl⟩
  · have hrecord := MessageDecl.record_of_mem_placedList r.place _ _ _ hm
    rcases List.mem_cons.1 hd with rfl | hd
    · exact hrecord
    · obtain ⟨e, he, rfl⟩ := List.mem_map.1 hd
      obtain ⟨e', -, rfl⟩ := List.mem_map.1 he
      exact hrecord
  · obtain ⟨e', -, rfl⟩ := List.mem_map.1 he
    rfl

namespace RecordDecl

theorem length_placed (rs : List RecordDecl) (index i e : Nat) :
    (placed index i e rs).length = rs.length := by
  rw [← List.length_map PlacedRecord.decl, Linked.map_decl_placed]

/-- The placed records have the names of the records. -/
theorem map_name_placed (rs : List RecordDecl) (k : Nat) :
    (placed 0 0 0 rs)[k]?.map (·.decl.name) = rs[k]?.map name := by
  conv_rhs => rw [← Linked.map_decl_placed rs 0 0 0, List.getElem?_map, Option.map_map]
  rfl

/-- Records that come behind others are placed behind them. -/
theorem placed_append (rs rs' : List RecordDecl) : ∀ index i e, ∃ i' e',
    placed index i e (rs ++ rs') = placed index i e rs ++ placed (index + rs.length) i' e' rs' := by
  induction rs with
  | nil => exact fun index i e => ⟨i, e, rfl⟩
  | cons r rs ih =>
    intro index i e
    obtain ⟨i', e', h⟩ := ih (index + 1) (i + MessageDecl.messageCounts r.messages)
      (e + MessageDecl.enumCounts r.messages + r.enums.length)
    have hlen : index + 1 + rs.length = index + (r :: rs).length := by
      rw [List.length_cons]
      omega
    refine ⟨i', e', ?_⟩
    rw [List.cons_append, placed, placed, h, List.cons_append, hlen]

/-- The last record is placed behind the others. -/
theorem placed_concat (rs : List RecordDecl) (own : RecordDecl) : ∃ r : PlacedRecord,
    r.decl = own ∧ r.index = rs.length ∧ placed 0 0 0 (rs ++ [own]) = placed 0 0 0 rs ++ [r] := by
  obtain ⟨i, e, h⟩ := placed_append rs [own] 0 0 0
  exact ⟨⟨own, 0 + rs.length, i, e⟩, rfl, Nat.zero_add _, h⟩

theorem index_of_mem_placed {rs : List RecordDecl} {r : PlacedRecord} : ∀ {index i e : Nat},
    r ∈ placed index i e rs → ∃ k, r.index = index + k ∧ rs[k]? = some r.decl := by
  induction rs with
  | nil => exact fun h => absurd h List.not_mem_nil
  | cons a rs ih =>
    intro index i e h
    rw [placed, List.mem_cons] at h
    rcases h with rfl | h
    · exact ⟨0, rfl, rfl⟩
    · obtain ⟨k, hk, hr⟩ := ih h
      exact ⟨k + 1, by omega, by rwa [List.getElem?_cons_succ]⟩

end RecordDecl

namespace Layout

variable {rs : List RecordDecl} {d : Declared}

/-- **A declared type is one of the record that its place names.** -/
theorem record_of_mem_declared (h : d ∈ declared rs) :
    ∃ r, rs[d.place.record]? = some r ∧ d.inScope ∈ r.types := by
  obtain ⟨r, hr, hd⟩ := List.mem_flatMap.1 h
  obtain ⟨k, hk, hdecl⟩ := RecordDecl.index_of_mem_placed hr
  refine ⟨r.decl, ?_, ?_⟩
  · rw [PlacedRecord.record_of_mem_declared hd, hk, Nat.zero_add, hdecl]
  · rw [← r.map_inScope_declared]
    exact List.mem_map_of_mem hd

theorem record_lt (h : d ∈ declared rs) : d.place.record < rs.length := by
  obtain ⟨r, hr, -⟩ := record_of_mem_declared h
  exact (List.getElem?_eq_some_iff.1 hr).1

/-- The types of the last record come behind the others. -/
theorem declared_concat (rs : List RecordDecl) (own : RecordDecl) : ∃ r : PlacedRecord,
    r.decl = own ∧ r.index = rs.length ∧ declared (rs ++ [own]) = declared rs ++ r.declared := by
  obtain ⟨r, hr, hindex, h⟩ := RecordDecl.placed_concat rs own
  refine ⟨r, hr, hindex, ?_⟩
  rw [declared, h, List.flatMap_append, List.flatMap_singleton]

end Layout

/-! ## Names that cannot be entered -/

namespace Link

/-- **Entering is refused for a name that is not plain, an enum without values, or two types of one
name.** -/
theorem enter_error {records : List PlacedRecord} {e : LinkError} {ds : List Declared} :
    ∀ {entered : List Declared}, enter records entered ds = .error e →
      (∃ d ∈ ds, Name.isPlain d.name = false ∧ e = .notPlain d.form d.name d.place.scope) ∨
      (∃ d ∈ ds, d.lacksValues = true ∧ e = .noValues d.fullName) ∨
      ∃ x y, [x, y].Sublist (entered.reverse ++ ds) ∧ x.fullName = y.fullName ∧
        e = if x.place.record = records.length - 1 ∧ y.place.record = records.length - 1 then
          .duplicate y.fullName
        else .conflict y.fullName ((records[x.place.record]?.map (·.decl.name)).getD "") := by
  induction ds with
  | nil =>
    intro entered h
    simp [enter] at h
  | cons d ds ih =>
    intro entered h
    rw [enter] at h
    by_cases hp : Name.isPlain d.name = true
    · rw [if_neg (by simp [hp])] at h
      by_cases hv : d.lacksValues = true
      · rw [if_pos hv] at h
        exact Or.inr (Or.inl ⟨d, List.mem_cons_self, hv, (Except.error.inj h).symm⟩)
      · rw [if_neg hv] at h
        cases hf : entered.find? (·.fullName = d.fullName) with
        | none =>
          -- The name is new, and the rest is entered behind it.
          rw [hf] at h
          rcases ih h with ⟨x, hx, hplain⟩ | ⟨x, hx, hvalues⟩ | ⟨x, y, hsub, htwo⟩
          · exact Or.inl ⟨x, List.mem_cons_of_mem _ hx, hplain⟩
          · exact Or.inr (Or.inl ⟨x, List.mem_cons_of_mem _ hx, hvalues⟩)
          · refine Or.inr (Or.inr ⟨x, y, ?_, htwo⟩)
            rwa [List.reverse_cons, List.append_assoc, List.singleton_append] at hsub
        | some first =>
          rw [hf] at h
          have hname : first.fullName = d.fullName := by simpa using List.find?_some hf
          have hfirst : [first].Sublist entered.reverse :=
            List.singleton_sublist.2 (List.mem_reverse.2 (List.mem_of_find?_eq_some hf))
          have hd : [d].Sublist (d :: ds) := List.singleton_sublist.2 List.mem_cons_self
          refine Or.inr (Or.inr ⟨first, d, hfirst.append hd, hname, ?_⟩)
          simp only at h
          split at h
          · next hown =>
            rw [if_pos hown]
            exact (Except.error.inj h).symm
          · next hown =>
            rw [if_neg hown]
            exact (Except.error.inj h).symm
    · rw [if_pos (by simp [hp])] at h
      exact Or.inl ⟨d, List.mem_cons_self, Bool.eq_false_iff.2 hp, (Except.error.inj h).symm⟩

variable {imported : List RecordDecl} {own : RecordDecl}

theorem two_le_count {ts : List ScopedType} {s t : ScopedType} (h : [s, t].Sublist ts)
    (hname : s.fullName = t.fullName) : 2 ≤ (ts.map ScopedType.fullName).count t.fullName := by
  have hcount := (h.map ScopedType.fullName).count_le t.fullName
  rw [List.map_cons, List.map_cons, List.map_nil, hname, List.count_cons_self,
    List.count_cons_self] at hcount
  omega

/-- Two types of one name are declared by the last record, or else the first of them by another. -/
theorem refuses_of_twice {blamed : List ScopedType} {x y : Declared}
    (h : [x, y].Sublist (Layout.declared (imported ++ [own]))) (hname : x.fullName = y.fullName) :
    Refuses imported own blamed
      (if x.place.record = imported.length ∧ y.place.record = imported.length then
        .duplicate y.fullName
      else .conflict y.fullName
        (((imported ++ [own])[x.place.record]?.map RecordDecl.name).getD "")) := by
  obtain ⟨r, rfl, hindex, hdeclared⟩ := Layout.declared_concat imported own
  have hall := h.map Declared.inScope
  have hname' : x.inScope.fullName = y.inScope.fullName := by
    rw [x.fullName_inScope, y.fullName_inScope, hname]
  rw [Layout.map_inScope_declared] at hall
  rw [hdeclared, List.sublist_append_iff] at h
  obtain ⟨front, back, hsplit, hfront, hback⟩ := h
  rw [← y.fullName_inScope]
  cases front with
  | nil =>
    -- Both stand in the last record.
    rw [List.nil_append] at hsplit
    rw [← hsplit] at hback
    have hx : x.place.record = imported.length :=
      (PlacedRecord.record_of_mem_declared (hback.subset (by simp))).trans hindex
    have hy : y.place.record = imported.length :=
      (PlacedRecord.record_of_mem_declared (hback.subset (by simp))).trans hindex
    rw [if_pos ⟨hx, hy⟩]
    have htypes := hback.map Declared.inScope
    rw [r.map_inScope_declared] at htypes
    exact .duplicate (two_le_count htypes hname')
  | cons z front =>
    -- The first stands in front of the last record.
    obtain rfl : x = z := (List.cons.inj hsplit).1
    have hmem : x ∈ Layout.declared imported := hfront.subset List.mem_cons_self
    have hlt := Layout.record_lt hmem
    obtain ⟨r', hr', htype⟩ := Layout.record_of_mem_declared hmem
    rw [if_neg (fun hown => absurd hown.1 (Nat.ne_of_lt hlt)), List.getElem?_append_left hlt, hr']
    exact .conflict (List.mem_of_getElem? hr') ⟨x.inScope, htype, hname'⟩ (two_le_count hall hname')

/-- **Names are refused only for a condition that is violated.** -/
theorem refuses_of_enter {e : LinkError}
    (h : enter (RecordDecl.placed 0 0 0 (imported ++ [own])) []
      (Layout.declared (imported ++ [own])) = .error e) :
    Refuses imported own ((imported ++ [own]).flatMap RecordDecl.types) e := by
  have hmem : ∀ d ∈ Layout.declared (imported ++ [own]),
      d.inScope ∈ (imported ++ [own]).flatMap RecordDecl.types := by
    intro d hd
    rw [← Layout.map_inScope_declared]
    exact List.mem_map_of_mem hd
  rcases enter_error h with ⟨d, hd, hplain, rfl⟩ | ⟨d, hd, hlacks, rfl⟩ | ⟨x, y, hsub, hname, rfl⟩
  · rw [← d.name_inScope, ← d.form_inScope, ← d.scope_inScope]
    refine .notPlain (hmem d hd) ?_
    rw [← d.name_inScope] at hplain
    by_contra hne
    rw [not_or] at hne
    rw [Name.isPlain_iff.2 hne] at hplain
    simp at hplain
  · cases d with
    | message m => simp [Declared.lacksValues] at hlacks
    | enum e => exact .noValues (hmem _ hd) (List.isEmpty_iff.1 hlacks)
  · rw [RecordDecl.length_placed, List.length_append, List.length_singleton, Nat.add_sub_cancel,
      RecordDecl.map_name_placed]
    exact refuses_of_twice hsub hname

/-! ## Fields that cannot be resolved -/

/-- **A field is refused only for a type that is not bound or a default that does not fit.** -/
theorem field_error {rs : List RecordDecl} {p : Pool} (h : LaidOut rs p) {scope : String}
    {f : FieldDecl} {e : LinkError} (hf : field p scope f = .error e) :
    (¬Bound (rs.flatMap RecordDecl.types) scope f.typeName ∧
        e = .unresolved scope f.name f.typeName) ∨
      ∃ text fault, f.default? = some text ∧ e = .invalidDefault (scope ++ "." ++ f.name) text fault ∧
        ∀ target, Means (rs.flatMap RecordDecl.types) scope f.typeName target →
          ¬(f.label ≠ .repeated ∧ target.Accepts text) := by
  have hnot : ¬f.Resolves (rs.flatMap RecordDecl.types) scope := by
    rw [← field_isOk_iff h]
    rintro ⟨g, hg⟩
    rw [hg] at hf
    simp at hf
  unfold field at hf
  split at hf
  · next hkind =>
    refine Or.inl ⟨?_, (Except.error.inj hf).symm⟩
    intro hbound
    obtain ⟨target, hmeans⟩ := exists_means_iff.2 hbound
    obtain ⟨kind, hk⟩ := hmeans.kind?_isSome h
    rw [(kind?_eq_some_iff h).2 ⟨target, hmeans, hk⟩] at hkind
    simp at hkind
  · next kind hkind =>
    split at hf
    · next fault hdefault =>
      cases hd : f.default? with
      | none =>
        obtain ⟨value, hvalue⟩ : ∃ value, default p f kind = .ok value :=
          default_isOk_iff.2 fun text ht => by simp [hd] at ht
        rw [hvalue] at hdefault
        simp at hdefault
      | some text =>
        rw [hd] at hf
        refine Or.inr ⟨text, fault, rfl, (Except.error.inj hf).symm, ?_⟩
        intro target hmeans hfits
        refine hnot ⟨target, hmeans, ?_⟩
        intro text' ht
        obtain rfl : text = text' := by simpa [hd] using ht
        exact hfits
    · simp at hf

/-- **Linking is refused only for a condition that is violated.** -/
theorem refuses_of_link {e : LinkError} (h : Pool.link (imported ++ [own]) = .error e) :
    Refuses imported own ((imported ++ [own]).flatMap RecordDecl.types) e := by
  unfold Pool.link at h
  simp only at h
  rcases Traverse.bind_eq_error.1 h with henter | ⟨u, henter, h⟩
  · exact refuses_of_enter henter
  · obtain ⟨-, -, hdistinct⟩ := enter_declared_eq_ok_iff.1 henter
    have hmapM : (Layout.messages (imported ++ [own])).mapM
        (message (Pool.layout (RecordDecl.placed 0 0 0 (imported ++ [own])))) = .error e := by
      rcases Traverse.bind_eq_error.1 h with h | ⟨messages, -, h⟩
      · exact h
      · simp [pure, Except.pure] at h
    obtain ⟨m, hm, hmessage⟩ := Traverse.exists_of_mapM_error hmapM
    have hfields : m.decl.fields.mapM
        (field (Pool.layout (RecordDecl.placed 0 0 0 (imported ++ [own]))) m.fullName) =
          .error e := by
      rcases Traverse.bind_eq_error.1 hmessage with h | ⟨fields, -, h⟩
      · exact h
      · simp [pure, Except.pure] at h
    obtain ⟨f, hf, hfield⟩ := Traverse.exists_of_mapM_error hfields
    have hmem := Layout.inScope_mem_types hm
    rcases field_error (LaidOut.layout hdistinct) hfield with ⟨hunbound, rfl⟩ |
      ⟨text, fault, htext, rfl, hunfit⟩
    · exact .unresolved hmem hf hunbound
    · exact .invalidDefault hmem hf htext hunfit

end Link

end ProtoSchema
