import Mathlib.Data.List.Forall2

/-!
# Steps that may be refused

What it means that a sequence of steps, each of which may be refused, goes through: the steps one by
one (`bind_eq_ok`), a step for each element of a list (`mapM_eq_ok`, `forM_eq_ok`), and steps that add
one element after the other to something (`foldlM_eq_ok`). Steps that give different things are compared
by the reasons that they are refused for (`fault?`).
-/

namespace ProtoSchema.Traverse

variable {ε α β : Type}

/-- Two steps go through when the first does and the second does with its result. -/
theorem bind_eq_ok {x : Except ε α} {f : α → Except ε β} {b : β} :
    x >>= f = .ok b ↔ ∃ a, x = .ok a ∧ f a = .ok b := by
  cases x with
  | error e => simp [bind, Except.bind]
  | ok a => simp [bind, Except.bind]

/-- Two steps are refused when the first is, or the second is with its result. -/
theorem bind_eq_error {x : Except ε α} {f : α → Except ε β} {e : ε} :
    x >>= f = .error e ↔ x = .error e ∨ ∃ a, x = .ok a ∧ f a = .error e := by
  cases x with
  | error e => simp [bind, Except.bind]
  | ok a => simp [bind, Except.bind]

theorem pure_eq_ok {a b : α} : (pure a : Except ε α) = .ok b ↔ b = a := by
  rw [eq_comm]
  exact Except.ok.injEq b a ▸ Iff.rfl

theorem map_eq_ok {x : Except ε α} {f : α → β} {b : β} :
    x.map f = .ok b ↔ ∃ a, x = .ok a ∧ f a = b := by
  cases x with
  | error e => simp [Except.map]
  | ok a => simp [Except.map]

theorem mapError_eq_ok {ε' : Type} {x : Except ε α} {f : ε → ε'} {a : α} :
    x.mapError f = .ok a ↔ x = .ok a := by
  cases x with
  | error e => simp [Except.mapError]
  | ok a => simp [Except.mapError]

theorem exists_of_isOk {x : Except ε α} (h : x.isOk = true) : ∃ a, x = .ok a := by
  cases x with
  | error e => simp [Except.isOk, Except.toBool] at h
  | ok a => exact ⟨a, rfl⟩

/-- **A step for each element gives the list of what each element gives.** -/
theorem mapM_eq_ok {f : α → Except ε β} {as : List α} {bs : List β} :
    as.mapM f = .ok bs ↔ List.Forall₂ (fun a b => f a = .ok b) as bs := by
  induction as generalizing bs with
  | nil =>
    rw [List.mapM_nil, List.forall₂_nil_left_iff]
    constructor
    · intro h
      exact (Except.ok.inj h).symm
    · intro h
      rw [h]
      rfl
  | cons a as ih =>
    rw [List.mapM_cons, bind_eq_ok, List.forall₂_cons_left_iff]
    constructor
    · rintro ⟨b, hb, h⟩
      obtain ⟨rest, hrest, h⟩ := bind_eq_ok.1 h
      exact ⟨b, rest, hb, ih.1 hrest, (Except.ok.inj h).symm⟩
    · rintro ⟨b, rest, hb, hrest, rfl⟩
      exact ⟨b, hb, bind_eq_ok.2 ⟨rest, ih.2 hrest, rfl⟩⟩

/-- When each element gives what it is sent to, the list does. -/
theorem mapM_eq_map {f : α → Except ε β} {g : α → β} {as : List α} (h : ∀ a ∈ as, f a = .ok (g a)) :
    as.mapM f = .ok (as.map g) := by
  rw [mapM_eq_ok, List.forall₂_map_right_iff]
  exact List.forall₂_same.2 h

/-- When each element gives something, the list does. -/
theorem exists_mapM {f : α → Except ε β} {as : List α} (h : ∀ a ∈ as, ∃ b, f a = .ok b) :
    ∃ bs, as.mapM f = .ok bs := by
  induction as with
  | nil => exact ⟨[], rfl⟩
  | cons a as ih =>
    rw [List.forall_mem_cons] at h
    obtain ⟨b, hb⟩ := h.1
    obtain ⟨bs, hbs⟩ := ih h.2
    refine ⟨b :: bs, ?_⟩
    rw [List.mapM_cons, bind_eq_ok]
    exact ⟨b, hb, bind_eq_ok.2 ⟨bs, hbs, rfl⟩⟩

/-- When some element is refused, and every one is that is not sent anywhere, all for one reason, the
list is refused for it. -/
theorem mapM_eq_error {f : α → Except ε β} {g : α → β} {e : ε} {as : List α}
    (h : ∀ a ∈ as, f a = .ok (g a) ∨ f a = .error e) {a : α} (ha : a ∈ as) (hf : f a = .error e) :
    as.mapM f = .error e := by
  induction as with
  | nil => exact absurd ha List.not_mem_nil
  | cons b as ih =>
    rw [List.forall_mem_cons] at h
    rw [List.mapM_cons]
    rcases h.1 with hb | hb
    · rcases List.mem_cons.1 ha with rfl | hmem
      · rw [hf] at hb
        simp at hb
      · rw [hb, ih h.2 hmem]
        rfl
    · rw [hb]
      rfl

/-- A list is refused for one of its elements. -/
theorem exists_of_mapM_error {f : α → Except ε β} {e : ε} {as : List α}
    (h : as.mapM f = .error e) : ∃ a ∈ as, f a = .error e := by
  induction as with
  | nil => simp [pure, Except.pure] at h
  | cons a as ih =>
    rw [List.mapM_cons, bind_eq_error] at h
    rcases h with ha | ⟨b, -, h⟩
    · exact ⟨a, List.mem_cons_self, ha⟩
    · rcases bind_eq_error.1 h with has | ⟨bs, -, h⟩
      · obtain ⟨a', ha', hf⟩ := ih has
        exact ⟨a', List.mem_cons_of_mem _ ha', hf⟩
      · simp [pure, Except.pure] at h

/-- When each element gives something definite exactly under a condition, the list does under all of
them. -/
theorem mapM_eq_ok_map {f : α → Except ε β} {g : α → β} {ok : α → Prop}
    (h : ∀ a b, f a = .ok b ↔ ok a ∧ b = g a) {as : List α} {bs : List β} :
    as.mapM f = .ok bs ↔ (∀ a ∈ as, ok a) ∧ bs = as.map g := by
  constructor
  · rw [mapM_eq_ok]
    intro hbs
    induction hbs with
    | nil => exact ⟨fun _ h => absurd h List.not_mem_nil, rfl⟩
    | cons hb _ ih =>
      obtain ⟨ha, rfl⟩ := (h _ _).1 hb
      exact ⟨List.forall_mem_cons.2 ⟨ha, ih.1⟩, by rw [ih.2, List.map_cons]⟩
  · rintro ⟨has, rfl⟩
    exact mapM_eq_map fun a ha => (h a _).2 ⟨has a ha, rfl⟩

/-- Each element of one list has a partner in the other. -/
theorem exists_of_forall₂ {R : α → β → Prop} {as : List α} {bs : List β} (h : List.Forall₂ R as bs)
    {a : α} (ha : a ∈ as) : ∃ b ∈ bs, R a b := by
  induction h with
  | nil => exact absurd ha List.not_mem_nil
  | cons hab _ ih =>
    rcases List.mem_cons.1 ha with rfl | ha
    · exact ⟨_, List.mem_cons_self, hab⟩
    · obtain ⟨b, hb, hr⟩ := ih ha
      exact ⟨b, List.mem_cons_of_mem _ hb, hr⟩

theorem forM_eq_ok {f : α → Except ε Unit} {as : List α} :
    as.forM f = .ok () ↔ ∀ a ∈ as, f a = .ok () := by
  induction as with
  | nil => exact ⟨fun _ a h => absurd h List.not_mem_nil, fun _ => rfl⟩
  | cons a as ih =>
    show (f a >>= fun _ => as.forM f) = .ok () ↔ _
    rw [bind_eq_ok, List.forall_mem_cons]
    constructor
    · rintro ⟨u, ha, has⟩
      exact ⟨ha, ih.1 has⟩
    · rintro ⟨ha, has⟩
      exact ⟨(), ha, ih.2 has⟩

/-- **Adding element after element.** `grow` adds an element where that is allowed, `P` is what every
stage has to keep and the stages in front of a good one have as well. -/
theorem foldlM_eq_ok {step : β → α → Except ε β} {grow : β → α → β} {ok : α → Prop} {P : β → Prop}
    (hstep : ∀ a b b', P b → (step b a = .ok b' ↔ ok a ∧ P (grow b a) ∧ b' = grow b a))
    (hback : ∀ a b, P (grow b a) → P b) {as : List α} : ∀ {b b' : β}, P b →
      (as.foldlM step b = .ok b' ↔
        (∀ a ∈ as, ok a) ∧ P (as.foldl grow b) ∧ b' = as.foldl grow b) := by
  -- What holds at the end has held from the start, so no stage in between needs an assumption.
  have hfirst : ∀ (as : List α) (b : β), P (as.foldl grow b) → P b := by
    intro as
    induction as with
    | nil => exact fun _ h => h
    | cons a as ih => exact fun b h => hback a b (ih _ h)
  induction as with
  | nil =>
    intro b b' hb
    rw [List.foldlM_nil, List.foldl_nil]
    constructor
    · intro h
      exact ⟨fun _ ha => absurd ha List.not_mem_nil, hb, (Except.ok.inj h).symm⟩
    · intro h
      rw [h.2.2]
      rfl
  | cons a as ih =>
    intro b b' hb
    rw [List.foldlM_cons, bind_eq_ok, List.forall_mem_cons, List.foldl_cons]
    constructor
    · rintro ⟨c, hc, h⟩
      obtain ⟨ha, hgrow, rfl⟩ := (hstep a b c hb).1 hc
      obtain ⟨has, hP, rfl⟩ := (ih hgrow).1 h
      exact ⟨⟨ha, has⟩, hP, rfl⟩
    · rintro ⟨⟨ha, has⟩, hP, rfl⟩
      have hgrow : P (grow b a) := hfirst as _ hP
      exact ⟨grow b a, (hstep a b _ hb).2 ⟨ha, hgrow, rfl⟩, (ih hgrow).2 ⟨has, hP, rfl⟩⟩

/-! ## Reasons -/

/-- Why the step is refused, if it is. -/
def fault? : Except ε α → Option ε
  | .error e => some e
  | .ok _ => none

theorem fault?_eq_some {x : Except ε α} {e : ε} : fault? x = some e ↔ x = .error e := by
  cases x with
  | error e' => simp [fault?]
  | ok a => simp [fault?]

theorem fault?_eq_none {x : Except ε α} : fault? x = none ↔ ∃ a, x = .ok a := by
  cases x with
  | error e => simp [fault?]
  | ok a => simp [fault?]

theorem fault?_map (f : α → β) (x : Except ε α) : fault? (x.map f) = fault? x := by
  cases x <;> rfl

/-- A step that is never refused itself adds nothing to the reasons. -/
theorem fault?_bind_ok (f : α → β) (x : Except ε α) :
    fault? (x >>= fun a => .ok (f a)) = fault? x := by
  cases x <;> rfl

/-- Two steps in a row are refused for the reason of the first, or else of the second. -/
theorem fault?_bind (x : Except ε Unit) (y : Except ε β) :
    fault? (x >>= fun _ => y) = (fault? x).or (fault? y) := by
  cases x <;> rfl

/-- **Lists whose elements are refused for the same reasons are refused for the same reason.** -/
theorem fault?_mapM_congr {γ δ : Type} {f : α → Except ε β} {g : γ → Except ε δ} {as : List α}
    {cs : List γ} (h : List.Forall₂ (fun a c => fault? (f a) = fault? (g c)) as cs) :
    fault? (as.mapM f) = fault? (cs.mapM g) := by
  induction h with
  | nil => rfl
  | @cons a c as cs hac _ ih =>
    rw [List.mapM_cons, List.mapM_cons]
    cases hf : f a with
    | error e =>
      rw [hf] at hac
      rw [fault?_eq_some.1 hac.symm]
      rfl
    | ok b =>
      rw [hf] at hac
      obtain ⟨d, hd⟩ := fault?_eq_none.1 hac.symm
      rw [hd]
      exact (fault?_bind_ok _ _).trans (ih.trans (fault?_bind_ok _ _).symm)

/-- Elements in front that are not refused make no difference to the reason. -/
theorem fault?_mapM_append {f : α → Except ε β} {as as' : List α} (h : ∀ a ∈ as, ∃ b, f a = .ok b) :
    fault? ((as ++ as').mapM f) = fault? (as'.mapM f) := by
  obtain ⟨bs, hbs⟩ := exists_mapM h
  rw [List.mapM_append, hbs]
  exact fault?_bind_ok _ _

/-! ## Refusals -/

/-- Whatever the step is refused for satisfies the condition. -/
def RefusedFor (P : ε → Prop) (x : Except ε α) : Prop := ∀ e, x = .error e → P e

variable {P : ε → Prop}

theorem refusedFor_ok (a : α) : RefusedFor P (.ok a : Except ε α) :=
  fun e h => by simp at h

theorem refusedFor_error {e : ε} : RefusedFor P (.error e : Except ε α) ↔ P e :=
  ⟨fun h => h e rfl, fun h e' he => by rwa [← Except.error.inj he]⟩

theorem refusedFor_bind {x : Except ε α} {f : α → Except ε β} (hx : RefusedFor P x)
    (hf : ∀ a, x = .ok a → RefusedFor P (f a)) : RefusedFor P (x >>= f) := by
  cases x with
  | error e => exact fun e' he => hx e' (by simpa [bind, Except.bind] using he)
  | ok a => exact hf a rfl

theorem refusedFor_mapM {f : α → Except ε β} {as : List α} (h : ∀ a ∈ as, RefusedFor P (f a)) :
    RefusedFor P (as.mapM f) := by
  induction as with
  | nil => exact refusedFor_ok []
  | cons a as ih =>
    rw [List.forall_mem_cons] at h
    rw [List.mapM_cons]
    exact refusedFor_bind h.1 fun b _ => refusedFor_bind (ih h.2) fun bs _ => refusedFor_ok _

theorem refusedFor_forM {f : α → Except ε Unit} {as : List α} (h : ∀ a ∈ as, RefusedFor P (f a)) :
    RefusedFor P (as.forM f) := by
  induction as with
  | nil => exact refusedFor_ok ()
  | cons a as ih =>
    rw [List.forall_mem_cons] at h
    show RefusedFor P (f a >>= fun _ => as.forM f)
    exact refusedFor_bind h.1 fun _ _ => ih h.2

theorem refusedFor_foldlM {step : β → α → Except ε β} {as : List α}
    (h : ∀ b, ∀ a ∈ as, RefusedFor P (step b a)) (b : β) : RefusedFor P (as.foldlM step b) := by
  induction as generalizing b with
  | nil => exact refusedFor_ok b
  | cons a as ih =>
    rw [List.foldlM_cons]
    refine refusedFor_bind (h b a List.mem_cons_self) ?_
    intro c _
    exact ih (fun b a ha => h b a (List.mem_cons_of_mem _ ha)) c

end ProtoSchema.Traverse
