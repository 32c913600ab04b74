import ProtoSchema.Proofs.Pool.Alike

/-!
# Linking a record behind others

Records that can be linked by themselves (`Settled`) can stand in front of any other one: whether it
can be linked behind them, and what it is refused for, depends on which records they are and not on
their order (`Link.fault?_link_concat`).

Each phase of linking is taken in turn. The names in front are entered without a fault, and a name of
the last record that one of them declares is blamed on that record, wherever it stands
(`Link.find?_of_declares`). The fields in front are resolved without a fault, and those of the last
record resolve alike because the same types are declared.
-/

namespace ProtoSchema

open Traverse

/-- No two of the records declare a type of the same name. -/
def RecordDecl.Apart (rs : List RecordDecl) : Prop :=
  ∀ r ∈ rs, ∀ s ∈ rs, ∀ name, Declares r.types name → Declares s.types name → r = s

/-- The records can be linked, and their fields resolve whatever other types there are. -/
structure Settled (rs : List RecordDecl) : Prop where
  plain : ∀ t ∈ rs.flatMap RecordDecl.types, Name.isPlain t.decl.name = true
  values : ∀ t ∈ rs.flatMap RecordDecl.types, t.decl.lacksValues = false
  distinct : ((rs.flatMap RecordDecl.types).map ScopedType.fullName).Nodup
  apart : RecordDecl.Apart rs
  fields : ∀ types, rs.flatMap RecordDecl.types ⊆ types → ∀ scope m,
    ⟨scope, .message m⟩ ∈ rs.flatMap RecordDecl.types → ∀ f ∈ m.fields,
      f.Resolves types (Name.qualify scope m.name)

/-- The same records in front of the same one have the same types. -/
theorem RecordDecl.mem_types_concat_iff {front front' : List RecordDecl} {own own' : RecordDecl}
    (hmem : ∀ r, r ∈ front ↔ r ∈ front') (ha : own.Alike own') {t : ScopedType} :
    t ∈ (front ++ [own]).flatMap types ↔ t ∈ (front' ++ [own']).flatMap types := by
  rw [List.flatMap_append, List.flatMap_append, List.flatMap_singleton, List.flatMap_singleton,
    List.mem_append, List.mem_append, ha.types, List.mem_flatMap, List.mem_flatMap]
  simp only [hmem]

namespace Link

/-! ## Names behind others -/

/-- Names are entered one list after the other. -/
theorem enter_append {records : List PlacedRecord} {as bs : List Declared} :
    ∀ {entered : List Declared}, enter records entered (as ++ bs) =
      enter records entered as >>= fun _ => enter records (as.reverse ++ entered) bs := by
  induction as with
  | nil => exact rfl
  | cons a as ih =>
    intro entered
    rw [List.cons_append, enter, enter, List.reverse_cons, List.append_assoc,
      List.singleton_append]
    split
    · rfl
    · split
      · rfl
      · split
        · exact ih
        · simp only
          split <;> rfl

/-- The record that is blamed when the type's name is entered again; the last one is not. -/
def blamed? (records : List PlacedRecord) (d : Declared) : Option String :=
  if d.place.record = records.length - 1 then none
  else some ((records[d.place.record]?.map (·.decl.name)).getD "")

/-- **Names of the last record are entered alike** where the names in front are blamed alike. -/
theorem enter_congr {records records' : List PlacedRecord} {ds : List Declared}
    (hown : ∀ d ∈ ds, d.place.record = records.length - 1) :
    ∀ {ds' entered entered' : List Declared},
      ds'.map Declared.inScope = ds.map Declared.inScope →
      (∀ d ∈ ds', d.place.record = records'.length - 1) →
      (∀ name, (entered'.find? (·.fullName = name)).map (blamed? records') =
        (entered.find? (·.fullName = name)).map (blamed? records)) →
      enter records' entered' ds' = enter records entered ds := by
  induction ds with
  | nil =>
    intro ds' entered entered' hds _ _
    rw [List.map_eq_nil_iff.1 hds]
    rfl
  | cons d ds ih =>
    intro ds' entered entered' hds hown' hfind
    obtain ⟨d', ds', rfl, hd, hds⟩ := List.map_eq_cons_iff.1 hds
    rw [List.forall_mem_cons] at hown hown'
    have hname : d'.name = d.name := by rw [← d'.name_inScope, hd, d.name_inScope]
    have hfull : d'.fullName = d.fullName := by rw [← d'.fullName_inScope, hd, d.fullName_inScope]
    have hform : d'.form = d.form := by rw [← d'.form_inScope, hd, d.form_inScope]
    have hscope : d'.place.scope = d.place.scope := by
      rw [← d'.scope_inScope, hd, d.scope_inScope]
    have hlacks : d'.lacksValues = d.lacksValues := by
      rw [← d'.lacksValues_inScope, hd, d.lacksValues_inScope]
    rw [enter, enter, hname, hfull, hform, hscope, hlacks, hown.1, hown'.1]
    -- On both sides the name is new, or what was entered under it is blamed alike.
    have hfirst := hfind d.fullName
    cases hf : entered.find? (·.fullName = d.fullName) with
    | none =>
      rw [hf, Option.map_none, Option.map_eq_none_iff] at hfirst
      rw [hfirst]
      have hrest : enter records' (d' :: entered') ds' = enter records (d :: entered) ds := by
        refine ih hown.2 hds hown'.2 fun name => ?_
        rw [List.find?_cons, List.find?_cons, hfull]
        cases decide (d.fullName = name) with
        | true => simp [blamed?, hown.1, hown'.1]
        | false => exact hfind name
      simp only [hrest]
    | some first =>
      rw [hf] at hfirst
      obtain ⟨first', hf', hblamed⟩ := Option.map_eq_some_iff.1 hfirst
      rw [hf']
      -- Nothing is blamed on the last record, so both are duplicates or both are conflicts.
      unfold blamed? at hblamed
      by_cases hlast : first.place.record = records.length - 1
      · by_cases hlast' : first'.place.record = records'.length - 1
        · simp only [hlast, hlast', and_self, if_true]
        · simp [hlast, hlast'] at hblamed
      · by_cases hlast' : first'.place.record = records'.length - 1
        · simp [hlast, hlast'] at hblamed
        · rw [if_neg hlast, if_neg hlast', Option.some.injEq] at hblamed
          simp only [hlast, hlast', false_and, if_false, hblamed]

variable {front front' : List RecordDecl} {own own' : RecordDecl} {name : String}

/-- **A name is blamed on the record in front that declares it.** -/
theorem find?_of_declares (h : RecordDecl.Apart front) {r : RecordDecl} (hr : r ∈ front)
    (hname : Declares r.types name) :
    ((Layout.declared front).reverse.find? (·.fullName = name)).map
      (blamed? (RecordDecl.placed 0 0 0 (front ++ [own]))) = some (some r.name) := by
  cases hf : (Layout.declared front).reverse.find? (·.fullName = name) with
  | none =>
    obtain ⟨t, ht, htname⟩ := hname
    have hmem : t ∈ (Layout.declared front).map Declared.inScope := by
      rw [Layout.map_inScope_declared]
      exact List.mem_flatMap.2 ⟨r, hr, ht⟩
    obtain ⟨d, hd, rfl⟩ := List.mem_map.1 hmem
    have hne := List.find?_eq_none.1 hf d (List.mem_reverse.2 hd)
    rw [d.fullName_inScope] at htname
    exact absurd htname (by simpa using hne)
  | some first =>
    have hmem : first ∈ Layout.declared front :=
      List.mem_reverse.1 (List.mem_of_find?_eq_some hf)
    have hfirst : first.fullName = name := by simpa using List.find?_some hf
    obtain ⟨r', hr', htype⟩ := Layout.record_of_mem_declared hmem
    have hlt := Layout.record_lt hmem
    -- The one that is found is of a record that declares the name, and no other one does.
    obtain rfl : r = r' := h r hr r' (List.mem_of_getElem? hr') name hname
      ⟨first.inScope, htype, first.fullName_inScope.trans hfirst⟩
    rw [Option.map_some, blamed?, RecordDecl.length_placed, List.length_append,
      List.length_singleton, Nat.add_sub_cancel, if_neg (Nat.ne_of_lt hlt),
      RecordDecl.map_name_placed, List.getElem?_append_left hlt, hr', Option.map_some,
      Option.getD_some]

/-- Nothing is blamed for a name that no record in front declares. -/
theorem find?_of_not_declares (h : ¬Declares (front.flatMap RecordDecl.types) name) :
    (Layout.declared front).reverse.find? (·.fullName = name) = none := by
  rw [List.find?_eq_none]
  intro d hd hname
  refine h ⟨d.inScope, ?_, ?_⟩
  · rw [← Layout.map_inScope_declared]
    exact List.mem_map_of_mem (List.mem_reverse.1 hd)
  · rw [d.fullName_inScope]
    simpa using hname

/-- **Which record is blamed for a name does not depend on the order of the records in front.** -/
theorem map_blamed?_congr (h : RecordDecl.Apart front) (h' : RecordDecl.Apart front')
    (hmem : ∀ r, r ∈ front ↔ r ∈ front') :
    ((Layout.declared front').reverse.find? (·.fullName = name)).map
        (blamed? (RecordDecl.placed 0 0 0 (front' ++ [own']))) =
      ((Layout.declared front).reverse.find? (·.fullName = name)).map
        (blamed? (RecordDecl.placed 0 0 0 (front ++ [own]))) := by
  by_cases hname : ∃ r ∈ front, Declares r.types name
  · obtain ⟨r, hr, hname⟩ := hname
    rw [find?_of_declares h hr hname, find?_of_declares h' ((hmem r).1 hr) hname]
  · have hnone : ∀ rs : List RecordDecl, (∀ r ∈ rs, r ∈ front) →
        ¬Declares (rs.flatMap RecordDecl.types) name := by
      rintro rs hsub ⟨t, ht, htname⟩
      obtain ⟨r, hr, ht⟩ := List.mem_flatMap.1 ht
      exact hname ⟨r, hsub r hr, t, ht, htname⟩
    rw [find?_of_not_declares (hnone front fun _ => id),
      find?_of_not_declares (hnone front' fun r => (hmem r).2)]
    rfl

/-! ## Fields behind others -/

/-- A message is refused for the reason of one of its fields. -/
theorem fault?_message (p : Pool) (m : PlacedMessage) :
    fault? (message p m) = fault? (m.decl.fields.mapM (field p m.fullName)) :=
  fault?_bind_ok _ _

/-- **A message whose types mean the same is refused for the same reason.** -/
theorem fault?_message_congr {p q : Pool} {x y : PlacedMessage} (ha : x.Alike y)
    (h : ∀ f ∈ x.decl.fields, SameKind p q x.fullName f.typeName) :
    fault? (message p x) = fault? (message q y) := by
  rw [fault?_message, fault?_message, ha.fullName, ha.1]
  refine fault?_mapM_congr (List.forall₂_same.2 fun f hf => ?_)
  rw [← fault?_map p.fieldOutline, ← map_field (h f hf), fault?_map]

/-! ## The phases -/

/-- Linking is refused for a name, or else for a field. -/
theorem fault?_link (rs : List RecordDecl) : fault? (Pool.link rs) =
    (fault? (enter (RecordDecl.placed 0 0 0 rs) [] (Layout.declared rs))).or
      (fault? ((Layout.messages rs).mapM
        (message (Pool.layout (RecordDecl.placed 0 0 0 rs))))) := by
  unfold Pool.link
  simp only [fault?_bind]
  exact congrArg _ (fault?_bind_ok _ _)

/-- The names in front are entered without a fault. -/
theorem enter_concat (h : Settled front) {r : PlacedRecord}
    (hr : Layout.declared (front ++ [own]) = Layout.declared front ++ r.declared)
    (records : List PlacedRecord) :
    enter records [] (Layout.declared (front ++ [own])) =
      enter records (Layout.declared front).reverse r.declared := by
  rw [hr, enter_append, enter_declared_eq_ok_iff.2 ⟨h.plain, h.values, h.distinct⟩,
    List.append_nil]
  rfl

/-- The fields in front are resolved without a fault. -/
theorem fault?_messages_concat (h : Settled front) {p : Pool} (hp : LaidOut (front ++ [own]) p)
    {r : PlacedRecord}
    (hr : RecordDecl.placed 0 0 0 (front ++ [own]) = RecordDecl.placed 0 0 0 front ++ [r]) :
    fault? ((Layout.messages (front ++ [own])).mapM (message p)) =
      fault? (r.messages.mapM (message p)) := by
  rw [Layout.messages, hr, List.flatMap_append, List.flatMap_singleton]
  refine fault?_mapM_append fun m hm => exists_message hp ?_
  exact h.fields _ (Linked.types_subset (List.subset_append_left _ _)) _ _
    (Layout.inScope_mem_types hm)

/-- **Whether a record can be linked behind others does not depend on their order,** and neither does
what it is refused for. -/
theorem fault?_link_concat (h : Settled front) (h' : Settled front')
    (hmem : ∀ r, r ∈ front ↔ r ∈ front') (ha : own.Alike own') :
    fault? (Pool.link (front' ++ [own'])) = fault? (Pool.link (front ++ [own])) := by
  obtain ⟨r, rfl, hindex, hr⟩ := RecordDecl.placed_concat front own
  obtain ⟨r', rfl, hindex', hr'⟩ := RecordDecl.placed_concat front' own'
  have hdeclared : ∀ {rs : List RecordDecl} {x : PlacedRecord},
      RecordDecl.placed 0 0 0 (rs ++ [x.decl]) = RecordDecl.placed 0 0 0 rs ++ [x] →
      Layout.declared (rs ++ [x.decl]) = Layout.declared rs ++ x.declared := by
    intro rs x hx
    rw [Layout.declared, hx, List.flatMap_append, List.flatMap_singleton]
  have hlast : ∀ {rs : List RecordDecl} {x : PlacedRecord}, x.index = rs.length →
      ∀ d ∈ x.declared,
        d.place.record = (RecordDecl.placed 0 0 0 (rs ++ [x.decl])).length - 1 := by
    intro rs x hx d hd
    rw [PlacedRecord.record_of_mem_declared hd, hx, RecordDecl.length_placed, List.length_append,
      List.length_singleton, Nat.add_sub_cancel]
  have htypes : r'.declared.map Declared.inScope = r.declared.map Declared.inScope := by
    rw [r'.map_inScope_declared, r.map_inScope_declared, ha.types]
  have henter : enter (RecordDecl.placed 0 0 0 (front' ++ [r'.decl])) []
        (Layout.declared (front' ++ [r'.decl])) =
      enter (RecordDecl.placed 0 0 0 (front ++ [r.decl])) []
        (Layout.declared (front ++ [r.decl])) := by
    rw [enter_concat h' (hdeclared hr'), enter_concat h (hdeclared hr)]
    exact enter_congr (hlast hindex) htypes (hlast hindex') fun _ =>
      map_blamed?_congr h.apart h'.apart hmem
  rw [fault?_link, fault?_link, henter]
  cases hok : enter (RecordDecl.placed 0 0 0 (front ++ [r.decl])) []
      (Layout.declared (front ++ [r.decl])) with
  | error e => rfl
  | ok u =>
    -- Every name is new, so both pools are laid out, and have the same types.
    obtain ⟨-, -, hdistinct⟩ := enter_declared_eq_ok_iff.1 hok
    obtain ⟨-, -, hdistinct'⟩ := enter_declared_eq_ok_iff.1 (henter.trans hok)
    have hp := LaidOut.layout hdistinct
    have hp' := LaidOut.layout hdistinct'
    rw [fault?_messages_concat h' hp' hr', fault?_messages_concat h hp hr]
    refine congrArg (Option.or _) (fault?_mapM_congr ?_).symm
    refine (PlacedRecord.forall₂_messages ha).imp fun x y hxy =>
      fault?_message_congr hxy fun f _ => sameKind hp hp' fun t =>
        RecordDecl.mem_types_concat_iff hmem ha

end Link

end ProtoSchema
