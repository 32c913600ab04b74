import ProtoSchema.Proofs.Pool.Linked
import ProtoSchema.Proofs.Scope

/-!
# What references mean

`Means types scope reference target` says what a declared type means in a scope, in terms of the
declared types alone and without any order among them: a keyword is its scalar type, an absolute
reference the type of that name, and a relative one the type that is declared in the longest scope
around. Linking binds each reference to what it means (`Link.kind?_eq_some_iff`).

Together with the other conditions on names and defaults this tells which records can be linked at all
(`linkable_iff`).
-/

namespace ProtoSchema

/-! ## Meaning -/

/-- What a declared type may mean. -/
inductive Target
  | scalar (type : ScalarType)
  | named (type : ScopedType)

/-- The reference is neither a keyword nor absolute. -/
def Relative (reference : String) : Prop :=
  (∀ t : ScalarType, reference ≠ t.keyword) ∧ ∀ name, reference ≠ "." ++ name

/-- What the declared type means in the scope, among the declared types. -/
inductive Means (types : List ScopedType) (scope : String) : String → Target → Prop
  | keyword (t : ScalarType) : Means types scope t.keyword (.scalar t)
  | absolute {t : ScopedType} (mem : t ∈ types) : Means types scope ("." ++ t.fullName) (.named t)
  | enclosed {reference outer : String} {t : ScopedType} (relative : Relative reference)
    (encloses : Name.Encloses outer scope) (mem : t ∈ types)
    (name : t.fullName = outer ++ "." ++ reference)
    (longest : ∀ longer, Name.Encloses longer scope → outer.length < longer.length →
      ∀ u ∈ types, u.fullName ≠ longer ++ "." ++ reference) :
    Means types scope reference (.named t)
  | bare {reference : String} {t : ScopedType} (relative : Relative reference) (mem : t ∈ types)
    (name : t.fullName = reference)
    (unscoped : ∀ outer, Name.Encloses outer scope →
      ∀ u ∈ types, u.fullName ≠ outer ++ "." ++ reference) :
    Means types scope reference (.named t)

/-- The kind of a field whose type has the meaning. -/
def Target.kind? (p : Pool) : Target → Option FieldKind
  | scalar t => some (.scalar t)
  | named t => (p.find? t.fullName).map Link.kindOf

/-- What a reference means is a declared type. -/
theorem Means.mem {types : List ScopedType} {scope reference : String} {t : ScopedType}
    (h : Means types scope reference (.named t)) : t ∈ types := by
  cases h <;> assumption

/-- A keyword means its scalar type and nothing else. -/
theorem means_keyword_iff {types : List ScopedType} {scope : String} {t : ScalarType}
    {target : Target} : Means types scope t.keyword target ↔ target = .scalar t := by
  constructor
  · intro h
    generalize hr : t.keyword = reference at h
    cases h with
    | keyword u =>
      have hu := ScalarType.ofKeyword?_keyword u
      rw [← hr, ScalarType.ofKeyword?_keyword] at hu
      rw [Option.some.inj hu]
    | absolute _ =>
      have ha := ScalarType.absolute?_keyword t
      rw [hr, Name.absolute?_dot] at ha
      exact absurd ha (Option.some_ne_none _)
    | enclosed relative => exact absurd hr.symm (relative.1 t)
    | bare relative => exact absurd hr.symm (relative.1 t)
  · rintro rfl
    exact .keyword t

/-- An absolute reference means the types of that name. -/
theorem means_dot_iff {types : List ScopedType} {scope name : String} {target : Target} :
    Means types scope ("." ++ name) target ↔ ∃ t ∈ types, t.fullName = name ∧ target = .named t := by
  constructor
  · intro h
    generalize hr : "." ++ name = reference at h
    cases h with
    | keyword t =>
      have ha := ScalarType.absolute?_keyword t
      rw [← hr, Name.absolute?_dot] at ha
      exact absurd ha (Option.some_ne_none _)
    | @absolute t mem =>
      have hn := Name.absolute?_dot t.fullName
      rw [← hr, Name.absolute?_dot] at hn
      exact ⟨t, mem, (Option.some.inj hn).symm, rfl⟩
    | enclosed relative => exact absurd hr.symm (relative.2 name)
    | bare relative => exact absurd hr.symm (relative.2 name)
  · rintro ⟨t, ht, rfl, rfl⟩
    exact .absolute ht

/-- What a reference means has a kind. -/
theorem Means.kind?_isSome {rs : List RecordDecl} {p : Pool} (h : LaidOut rs p)
    {scope reference : String} {target : Target}
    (hm : Means (rs.flatMap RecordDecl.types) scope reference target) :
    ∃ kind, target.kind? p = some kind := by
  cases target with
  | scalar t => exact ⟨_, rfl⟩
  | named t =>
    have hsome : (p.find? t.fullName).isSome = true := h.find?_isSome_iff.2 ⟨t, hm.mem, rfl⟩
    obtain ⟨ref, href⟩ := Option.isSome_iff_exists.1 hsome
    rw [Target.kind?, href]
    exact ⟨_, rfl⟩

/-- The kind is of the form of the meaning that it comes from. -/
theorem Means.kind?_cases {rs : List RecordDecl} {p : Pool} (h : LaidOut rs p)
    {scope reference : String} {target : Target} {kind : FieldKind}
    (hm : Means (rs.flatMap RecordDecl.types) scope reference target)
    (hk : target.kind? p = some kind) :
    (∃ t, target = .scalar t ∧ kind = .scalar t) ∨
      (∃ outer m i, target = .named ⟨outer, .message m⟩ ∧ kind = .message i) ∨
      ∃ outer e k, target = .named ⟨outer, .enum e⟩ ∧ kind = .enum k ∧
        (p.enum k).values = e.values := by
  cases target with
  | scalar t => exact Or.inl ⟨t, rfl, (Option.some.inj hk).symm⟩
  | named t =>
    obtain ⟨outer, m | e⟩ := t
    · obtain ⟨i, hi⟩ := h.message_of_types hm.mem
      rw [Target.kind?, ScopedType.fullName, TypeDecl.name, hi] at hk
      exact Or.inr (Or.inl ⟨outer, m, i, rfl, (Option.some.inj hk).symm⟩)
    · obtain ⟨k, hfind, hvalues⟩ := h.enum_of_types hm.mem
      rw [Target.kind?, ScopedType.fullName, TypeDecl.name, hfind] at hk
      exact Or.inr (Or.inr ⟨outer, e, k, rfl, (Option.some.inj hk).symm, hvalues⟩)

/-- The form of the type that is meant. -/
def Target.form? : Target → Option TypeForm
  | scalar _ => none
  | named t => some t.decl.form

theorem relative_iff {reference : String} : Relative reference ↔
    ScalarType.ofKeyword? reference = none ∧ Name.absolute? reference = none := by
  have hk : (∀ t : ScalarType, reference ≠ t.keyword) ↔ ScalarType.ofKeyword? reference = none := by
    constructor
    · intro h
      cases hr : ScalarType.ofKeyword? reference with
      | none => rfl
      | some t => exact absurd (ScalarType.keyword_of_ofKeyword? hr).symm (h t)
    · rintro h t rfl
      rw [ScalarType.ofKeyword?_keyword] at h
      exact absurd h (Option.some_ne_none t)
  have ha : (∀ name, reference ≠ "." ++ name) ↔ Name.absolute? reference = none := by
    simp only [Option.eq_none_iff_forall_ne_some, Ne, Name.absolute?_eq_some_iff]
  rw [Relative, hk, ha]

/-- Some declared type has the name. -/
def Declares (types : List ScopedType) (name : String) : Prop := ∃ t ∈ types, t.fullName = name

/-- The declared type is a keyword, the absolute name of a declared type, or the name of one relative
to a scope around or as it stands. -/
def Bound (types : List ScopedType) (scope reference : String) : Prop :=
  (∃ t : ScalarType, reference = t.keyword) ∨
    (∃ name, reference = "." ++ name ∧ Declares types name) ∨
      Relative reference ∧ ((∃ outer, Name.Encloses outer scope ∧
        Declares types (outer ++ "." ++ reference)) ∨ Declares types reference)

/-- Among the scopes around a name that satisfy something there is a longest one. -/
theorem Name.exists_longest {P : String → Prop} {name scope : String} (hs : Encloses scope name)
    (hP : P scope) : ∃ outer, Encloses outer name ∧ P outer ∧
      ∀ longer, Encloses longer name → outer.length < longer.length → ¬P longer := by
  classical
  let f : String → Option Unit := fun s => if P s then some () else none
  have hf : ∀ s, f s = none ↔ ¬P s := fun s => by simp [f]
  cases h : (scopes name).findSome? f with
  | none => exact absurd hP ((hf scope).1 (findSome?_scopes_eq_none_iff.1 h scope hs))
  | some u =>
    obtain ⟨outer, ho, hsome, hlonger⟩ := findSome?_scopes_eq_some_iff.1 h
    refine ⟨outer, ho, ?_, fun longer hl hlt => (hf longer).1 (hlonger longer hl hlt)⟩
    by_contra hne
    rw [(hf outer).2 hne] at hsome
    exact absurd hsome.symm (Option.some_ne_none u)

/-- **A reference means something exactly when it is bound.** -/
theorem exists_means_iff {types : List ScopedType} {scope reference : String} :
    (∃ target, Means types scope reference target) ↔ Bound types scope reference := by
  constructor
  · rintro ⟨target, h⟩
    cases h with
    | keyword t => exact Or.inl ⟨t, rfl⟩
    | @absolute t mem => exact Or.inr (Or.inl ⟨_, rfl, t, mem, rfl⟩)
    | @enclosed _ outer t relative encloses mem name =>
      exact Or.inr (Or.inr ⟨relative, Or.inl ⟨outer, encloses, t, mem, name⟩⟩)
    | @bare _ t relative mem name => exact Or.inr (Or.inr ⟨relative, Or.inr ⟨t, mem, name⟩⟩)
  · rintro (⟨t, rfl⟩ | ⟨name, rfl, t, ht, rfl⟩ | ⟨hr, h⟩)
    · exact ⟨_, .keyword t⟩
    · exact ⟨_, .absolute ht⟩
    · -- A relative reference is taken as it stands only when no scope around it gives anything.
      by_cases hscope : ∃ outer, Name.Encloses outer scope ∧ Declares types (outer ++ "." ++ reference)
      · obtain ⟨scope', hs, hd⟩ := hscope
        obtain ⟨outer, ho, ⟨t, ht, hname⟩, hlonger⟩ :=
          Name.exists_longest (P := fun s => Declares types (s ++ "." ++ reference)) hs hd
        exact ⟨_, .enclosed hr ho ht hname fun longer hl hlt u hu he => hlonger longer hl hlt ⟨u, hu, he⟩⟩
      · obtain ⟨t, ht, hname⟩ := h.resolve_left hscope
        exact ⟨_, .bare hr ht hname fun outer ho u hu he => hscope ⟨outer, ho, u, hu, he⟩⟩

namespace Link

variable {rs : List RecordDecl} {p : Pool} {scope reference : String} {kind : FieldKind}

theorem kind?_keyword (t : ScalarType) : kind? p scope t.keyword = some (.scalar t) := by
  rw [kind?, ScalarType.ofKeyword?_keyword]

/-- A relative reference means what the longest scope around gives, else what it gives as it stands. -/
theorem kind?_relative (hr : Relative reference) : kind? p scope reference = some kind ↔
    ∃ ref, kindOf ref = kind ∧
      ((∃ outer, Name.Encloses outer scope ∧ p.find? (outer ++ "." ++ reference) = some ref ∧
          ∀ longer, Name.Encloses longer scope → outer.length < longer.length →
            p.find? (longer ++ "." ++ reference) = none) ∨
        p.find? reference = some ref ∧
          ∀ outer, Name.Encloses outer scope → p.find? (outer ++ "." ++ reference) = none) := by
  obtain ⟨hk, ha⟩ := relative_iff.1 hr
  -- Scopes are not empty, so qualifying always puts a dot.
  have hq : ∀ outer, Name.Encloses outer scope →
      Name.qualify outer reference = outer ++ "." ++ reference := by
    intro outer ho
    rw [Name.qualify, if_neg ho.1]
  have hcandidates : (Name.candidates scope reference).findSome? p.find? =
      ((Name.scopes scope).findSome? fun s => p.find? (Name.qualify s reference)).or
        (p.find? reference) := by
    rw [Name.candidates, ha]
    simp only [List.findSome?_append, List.findSome?_map, List.findSome?_cons, List.findSome?_nil]
    rw [Function.comp_def]
    cases p.find? reference <;> rfl
  have hsome : ∀ ref, ((Name.scopes scope).findSome? fun s => p.find? (Name.qualify s reference)) =
      some ref ↔ ∃ outer, Name.Encloses outer scope ∧
        p.find? (outer ++ "." ++ reference) = some ref ∧
          ∀ longer, Name.Encloses longer scope → outer.length < longer.length →
            p.find? (longer ++ "." ++ reference) = none := by
    intro ref
    rw [Name.findSome?_scopes_eq_some_iff]
    refine exists_congr fun outer => and_congr_right ?_
    intro ho
    rw [hq outer ho]
    refine and_congr_right fun _ => forall_congr' fun longer => forall_congr' ?_
    intro hl
    rw [hq longer hl]
  have hnone : ((Name.scopes scope).findSome? fun s => p.find? (Name.qualify s reference)) = none ↔
      ∀ outer, Name.Encloses outer scope → p.find? (outer ++ "." ++ reference) = none := by
    rw [Name.findSome?_scopes_eq_none_iff]
    refine forall_congr' fun outer => forall_congr' ?_
    intro ho
    rw [hq outer ho]
  rw [kind?, hk, hcandidates]
  simp only [Option.map_eq_some_iff, Option.or_eq_some_iff, hsome, hnone]
  refine exists_congr ?_
  intro ref
  rw [and_comm]
  exact and_congr_right fun _ => or_congr_right and_comm

/-- A name that finds nothing is declared by no type. -/
theorem find?_eq_none_iff (h : LaidOut rs p) {name : String} :
    p.find? name = none ↔ ∀ t ∈ rs.flatMap RecordDecl.types, t.fullName ≠ name := by
  rw [← Option.not_isSome_iff_eq_none, h.find?_isSome_iff]
  constructor
  · intro h t ht hn
    exact h ⟨t, ht, hn⟩
  · rintro h ⟨t, ht, hn⟩
    exact h t ht hn

theorem exists_of_find? (h : LaidOut rs p) {name : String} {ref : TypeRef}
    (hf : p.find? name = some ref) : ∃ t ∈ rs.flatMap RecordDecl.types, t.fullName = name :=
  h.find?_isSome_iff.1 (by rw [hf]; rfl)

/-- **Linking binds a reference to what it means.** -/
theorem kind?_eq_some_iff (h : LaidOut rs p) : kind? p scope reference = some kind ↔
    ∃ target, Means (rs.flatMap RecordDecl.types) scope reference target ∧
      target.kind? p = some kind := by
  constructor
  · intro hkind
    -- A reference is a keyword, or absolute, or relative, and resolving takes them in this order.
    by_cases hk : ∃ t : ScalarType, reference = t.keyword
    · obtain ⟨t, rfl⟩ := hk
      rw [kind?_keyword] at hkind
      exact ⟨.scalar t, .keyword t, hkind⟩
    · by_cases ha : ∃ name, reference = "." ++ name
      · obtain ⟨name, rfl⟩ := ha
        rw [kind?_dot] at hkind
        obtain ⟨ref, href, rfl⟩ := Option.map_eq_some_iff.1 hkind
        obtain ⟨t, ht, rfl⟩ := exists_of_find? h href
        exact ⟨.named t, .absolute ht, hkind⟩
      · have hr : Relative reference := ⟨not_exists.1 hk, not_exists.1 ha⟩
        obtain ⟨ref, rfl, ⟨outer, ho, href, hlonger⟩ | ⟨href, houter⟩⟩ := (kind?_relative hr).1 hkind
        · obtain ⟨t, ht, hname⟩ := exists_of_find? h href
          refine ⟨.named t, .enclosed hr ho ht hname fun longer hl hlt =>
            (find?_eq_none_iff h).1 (hlonger longer hl hlt), ?_⟩
          rw [Target.kind?, hname, href]
          rfl
        · obtain ⟨t, ht, hname⟩ := exists_of_find? h href
          refine ⟨.named t, .bare hr ht hname fun outer ho =>
            (find?_eq_none_iff h).1 (houter outer ho), ?_⟩
          rw [Target.kind?, hname, href]
          rfl
  · rintro ⟨target, hmeans, hkind⟩
    cases hmeans with
    | keyword t => rw [kind?_keyword, ← hkind, Target.kind?]
    | absolute ht => rw [kind?_dot, ← hkind, Target.kind?]
    | @enclosed _ outer t hr ho ht hname hlonger =>
      obtain ⟨ref, href, hk⟩ := Option.map_eq_some_iff.1 hkind
      refine (kind?_relative hr).2 ⟨ref, hk, Or.inl ⟨outer, ho, ?_, ?_⟩⟩
      · rw [← hname]
        exact href
      · intro longer hl hlt
        exact (find?_eq_none_iff h).2 (hlonger longer hl hlt)
    | @bare _ t hr ht hname houter =>
      obtain ⟨ref, href, hk⟩ := Option.map_eq_some_iff.1 hkind
      refine (kind?_relative hr).2 ⟨ref, hk, Or.inr ⟨?_, ?_⟩⟩
      · rw [← hname]
        exact href
      · intro outer ho
        exact (find?_eq_none_iff h).2 (houter outer ho)

end Link

/-! ## Defaults -/

/-- Whether a field of the type can have the declared default. -/
def TypeDecl.Accepts (text : String) : TypeDecl → Prop
  | message _ => False
  | enum e => ∃ v ∈ e.values, v.name = text

/-- Whether a field whose type has the meaning can have the declared default. -/
def Target.Accepts (text : String) : Target → Prop
  | scalar t => ∃ v, Scalar.ofDefault t text = .ok v
  | named t => t.decl.Accepts text

/-- Whether a field of the kind can have the declared default. -/
def FieldKind.Accepts (p : Pool) (text : String) : FieldKind → Prop
  | scalar t => ∃ v, Scalar.ofDefault t text = .ok v
  | message _ => False
  | enum i => ∃ v ∈ (p.enum i).values, v.name = text

theorem EnumDef.named?_isSome_iff {e : EnumDef} {name : String} :
    (∃ i, e.named? name = some i) ↔ ∃ v ∈ e.values, v.name = name := by
  rw [← Option.isSome_iff_exists, named?, List.findIdx?_isSome, List.any_eq_true]
  simp only [decide_eq_true_eq]

namespace Link

variable {rs : List RecordDecl} {p : Pool} {scope : String} {f : FieldDecl} {kind : FieldKind}

/-- **A field has a default unless it declares one that it cannot have.** -/
theorem default_isOk_iff : (∃ value, default p f kind = .ok value) ↔
    ∀ text, f.default? = some text → f.label ≠ .repeated ∧ kind.Accepts p text := by
  obtain ⟨label, typeName, name, number, default?⟩ := f
  cases default? with
  | none => cases label <;> cases kind <;> simp [default]
  | some text =>
    have hscalar : ∀ t, (∃ value, (Scalar.ofDefault t text).map FieldDefault.scalar = .ok value) ↔
        ∃ v, Scalar.ofDefault t text = .ok v := by
      intro t
      cases Scalar.ofDefault t text <;> simp [Except.map]
    simp only [Option.some.injEq, forall_eq']
    cases kind with
    | scalar t => cases label <;> simp [default, FieldKind.Accepts, hscalar]
    | message i => cases label <;> simp [default, FieldKind.Accepts]
    | enum i =>
      rw [FieldKind.Accepts, ← EnumDef.named?_isSome_iff]
      cases hn : (p.enum i).named? text <;> cases label <;> simp [default, hn]

/-- A kind accepts the same defaults as the meaning that it comes from. -/
theorem accepts_iff (h : LaidOut rs p) {target : Target} {text reference : String}
    (hm : Means (rs.flatMap RecordDecl.types) scope reference target)
    (hk : target.kind? p = some kind) : kind.Accepts p text ↔ target.Accepts text := by
  rcases hm.kind?_cases h hk with ⟨t, rfl, rfl⟩ | ⟨outer, m, i, rfl, rfl⟩ | ⟨outer, e, k, rfl, rfl, he⟩
  · exact Iff.rfl
  · exact Iff.rfl
  · rw [FieldKind.Accepts, he]
    exact Iff.rfl

end Link

/-! ## When records can be linked -/

/-- The field's type means something in the scope, and its default fits. -/
def FieldDecl.Resolves (types : List ScopedType) (scope : String) (f : FieldDecl) : Prop :=
  ∃ target, Means types scope f.typeName target ∧
    ∀ text, f.default? = some text → f.label ≠ .repeated ∧ target.Accepts text

/-- **A field can be resolved when its type means something and its default fits.** -/
theorem Link.field_isOk_iff {rs : List RecordDecl} {p : Pool} (h : LaidOut rs p) {scope : String}
    {f : FieldDecl} : (∃ g, field p scope f = .ok g) ↔
      f.Resolves (rs.flatMap RecordDecl.types) scope := by
  simp only [field_eq_ok_iff, FieldDecl.Resolves]
  constructor
  · rintro ⟨g, kind, value, hkind, hvalue, -⟩
    obtain ⟨target, hmeans, hk⟩ := (kind?_eq_some_iff h).1 hkind
    refine ⟨target, hmeans, ?_⟩
    intro text ht
    rw [← accepts_iff h hmeans hk]
    exact default_isOk_iff.1 ⟨value, hvalue⟩ text ht
  · rintro ⟨target, hmeans, hdefault⟩
    obtain ⟨kind, hk⟩ := hmeans.kind?_isSome h
    obtain ⟨value, hvalue⟩ : ∃ value, default p f kind = .ok value := by
      rw [default_isOk_iff]
      intro text ht
      rw [accepts_iff h hmeans hk]
      exact hdefault text ht
    exact ⟨_, kind, value, (kind?_eq_some_iff h).2 ⟨target, hmeans, hk⟩, hvalue, rfl⟩

/-- A message can be linked when its fields can be resolved. -/
theorem Link.exists_message {rs : List RecordDecl} {p : Pool} (h : LaidOut rs p) {m : PlacedMessage}
    (hfields : ∀ f ∈ m.decl.fields, f.Resolves (rs.flatMap RecordDecl.types) m.fullName) :
    ∃ d, message p m = .ok d := by
  obtain ⟨fields, hf⟩ := Traverse.exists_mapM fun f hf => (field_isOk_iff h).2 (hfields f hf)
  exact ⟨_, Traverse.bind_eq_ok.2 ⟨fields, hf, rfl⟩⟩

/-- What records have to satisfy, type by type. -/
structure Linkable (rs : List RecordDecl) : Prop where
  plain : ∀ t ∈ rs.flatMap RecordDecl.types, Name.isPlain t.decl.name = true
  values : ∀ t ∈ rs.flatMap RecordDecl.types, t.decl.lacksValues = false
  distinct : ((rs.flatMap RecordDecl.types).map ScopedType.fullName).Nodup
  fields : ∀ scope m, ⟨scope, .message m⟩ ∈ rs.flatMap RecordDecl.types → ∀ f ∈ m.fields,
    f.Resolves (rs.flatMap RecordDecl.types) (Name.qualify scope m.name)

/-- **Records can be linked when each type satisfies what is asked of it.** -/
theorem linkable_iff {rs : List RecordDecl} : Linkable rs ↔ ∃ p, Linked rs p := by
  constructor
  · rintro ⟨hplain, hvalues, hdistinct, hfields⟩
    have henter : Link.enter (RecordDecl.placed 0 0 0 rs) [] (Layout.declared rs) = .ok () :=
      enter_declared_eq_ok_iff.2 ⟨hplain, hvalues, hdistinct⟩
    have hmessage : ∀ m ∈ Layout.messages rs,
        ∃ d, Link.message (Pool.layout (RecordDecl.placed 0 0 0 rs)) m = .ok d := fun m hm =>
      Link.exists_message (LaidOut.layout hdistinct)
        (hfields m.place.scope m.decl (Layout.inScope_mem_types hm))
    obtain ⟨messages, hmessages⟩ := Traverse.exists_mapM hmessage
    simp only [← link_eq_ok_iff]
    exact ⟨_, Traverse.bind_eq_ok.2 ⟨(), henter, Traverse.bind_eq_ok.2 ⟨messages, hmessages, rfl⟩⟩⟩
  · rintro ⟨p, h⟩
    refine ⟨h.plain, h.values, h.distinct, ?_⟩
    intro scope m hm f hf
    obtain ⟨-, d, -, -, hlinks⟩ := h.message_of_types hm
    obtain ⟨g, -, hg⟩ := Traverse.exists_of_forall₂ hlinks hf
    exact (Link.field_isOk_iff h.laidOut).1 ⟨g, hg⟩

end ProtoSchema
