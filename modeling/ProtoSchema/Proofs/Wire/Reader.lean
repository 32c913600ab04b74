import ProtoSchema.Proofs.Traverse
import ProtoSchema.Wire.Varint

/-!
# What readers give

Two kinds of facts about readers. The first say what is read off a given front: a reader that reads
back each part of a byte string, whatever follows, reads the whole back (`all_flatMap`). The second
say what holds of anything that is read, from any bytes (`Yields`).

Reading over and over may also go on from what was read before (`Reader.thread`). If each time it adds
something to that which does not depend on it, then everything may be read first and added afterwards
(`thread_eq`).
-/

namespace ProtoSchema.Reader

open Traverse

variable {ε ε' α β : Type}

/-! ## Reading a front -/

section Front

variable {r : Reader ε α} {a : α} {bs rest : Bytes}

theorem read_check (f : α → Except ε β) (h : r.read bs = .ok (a, rest)) :
    (r.check f).read bs = (f a).map (·, rest) := by
  unfold check
  simp only [h]

theorem read_map (f : α → β) (h : r.read bs = .ok (a, rest)) :
    (r.map f).read bs = .ok (f a, rest) := read_check _ h

theorem read_map_of {x : Except ε α} (f : α → β) (h : r.read bs = x.map (·, rest)) :
    (r.map f).read bs = (x.map f).map (·, rest) := by
  cases x with
  | error e =>
    unfold map check
    simp only [h, Except.map]
  | ok a => exact read_map f h

theorem read_bind (f : α → Reader ε β) (h : r.read bs = .ok (a, rest)) :
    (r.bind f).read bs = (f a).read rest := by
  unfold bind andThen
  simp only [h]

theorem check_eq_ok_iff {f : α → Except ε β} {b : β} :
    (r.check f).read bs = .ok (b, rest) ↔ ∃ a, r.read bs = .ok (a, rest) ∧ f a = .ok b := by
  constructor
  · intro h
    unfold check at h
    simp only at h
    split at h
    · simp at h
    · next a rest' ha =>
      obtain ⟨b', hb, heq⟩ := map_eq_ok.1 h
      obtain ⟨rfl, rfl⟩ := Prod.mk.inj heq
      exact ⟨a, ha, hb⟩
  · rintro ⟨a, ha, hb⟩
    rw [read_check f ha, hb]
    rfl

theorem map_eq_ok_iff {f : α → β} {b : β} :
    (r.map f).read bs = .ok (b, rest) ↔ ∃ a, r.read bs = .ok (a, rest) ∧ f a = b := by
  simp only [map, check_eq_ok_iff, Except.ok.injEq]

theorem mapError_eq_ok_iff {f : ε → ε'} :
    (r.mapError f).read bs = .ok (a, rest) ↔ r.read bs = .ok (a, rest) := by
  unfold mapError
  simp only
  cases r.read bs <;> simp

/-- A step that depends on what was read is taken when something is read and the step goes through. -/
theorem step_eq_ok_iff {x : Reading ε α} {step : α → Bytes → Reading ε β} {b : β} :
    (match x with
      | .error e => .error e
      | .ok (a, rest) => step a rest : Reading ε β) = .ok (b, rest) ↔
        ∃ a rest', x = .ok (a, rest') ∧ step a rest' = .ok (b, rest) := by
  cases x with
  | error e => simp
  | ok x =>
    obtain ⟨a, rest'⟩ := x
    simp

theorem bind_eq_ok_iff {f : α → Reader ε β} {b : β} :
    (r.bind f).read bs = .ok (b, rest) ↔
      ∃ a rest', r.read bs = .ok (a, rest') ∧ (f a).read rest' = .ok (b, rest) :=
  step_eq_ok_iff

theorem packed_eq_ok_iff {fault : WireFault → ε} {as : List α} :
    (packed fault r).read bs = .ok (as, rest) ↔ ∃ n rest', varint.read bs = .ok (n, rest') ∧
      n ≤ rest'.length ∧ r.within (fault .lengthExceeded) n rest' = .ok (as, rest) := by
  refine step_eq_ok_iff.trans ?_
  simp only [mapError_eq_ok_iff]
  refine exists_congr fun n => exists_congr fun rest' => and_congr_right fun _ => ?_
  by_cases hlt : rest'.length < n
  · simp [hlt, Nat.not_le.2 hlt]
  · simp [hlt, Nat.not_lt.1 hlt]

theorem delimited_eq_ok_iff {payload : Bytes} :
    delimited.read bs = .ok (payload, rest) ↔
      varint.read bs = .ok (payload.length, payload ++ rest) := by
  refine step_eq_ok_iff.trans ?_
  constructor
  · rintro ⟨n, rest', hn, h⟩
    split at h
    · simp at h
    · next hle =>
      obtain ⟨rfl, rfl⟩ := Prod.mk.inj (Except.ok.inj h)
      rw [List.take_append_drop, List.length_take, Nat.min_eq_left (Nat.not_lt.1 hle), hn]
  · intro h
    refine ⟨_, _, h, ?_⟩
    rw [if_neg (by rw [List.length_append]; omega), List.take_left, List.drop_left]

theorem read_ne_nil (h : r.read bs = .ok (a, rest)) : bs ≠ [] := by
  intro hnil
  have hlt := r.shorter h
  rw [hnil] at hlt
  exact absurd hlt (Nat.not_lt_zero _)

end Front

theorem ofType_self (type : WireType) (r : Reader WireFault α) : r.ofType type type = r := if_pos rfl

theorem all_nil (r : Reader ε α) : r.all [] = .ok [] := by
  unfold all
  exact if_pos rfl

theorem all_ok {r : Reader ε α} {a : α} {bs rest : Bytes} (h : r.read bs = .ok (a, rest)) :
    r.all bs = (r.all rest).map (a :: ·) := by
  rw [all, if_neg (read_ne_nil h)]
  split
  · next e he => rw [h] at he; simp at he
  · next b tail hb =>
    obtain ⟨rfl, rfl⟩ : a = b ∧ rest = tail := by simpa [h] using hb
    rfl

theorem all_error {r : Reader ε α} {e : ε} {bs : Bytes} (hne : bs ≠ []) (h : r.read bs = .error e) :
    r.all bs = .error e := by
  rw [all, if_neg hne]
  split
  · next e' he =>
    rw [h] at he
    rw [Except.error.inj he]
  · next b tail hb => rw [h] at hb; simp at hb

theorem within_ok {r : Reader ε α} {exceeded : ε} {n : Nat} {a : α} {bs rest : Bytes} (hn : n ≠ 0)
    (h : r.read bs = .ok (a, rest)) : r.within exceeded n bs =
      if n < bs.length - rest.length then .error exceeded
      else (r.within exceeded (n - (bs.length - rest.length)) rest).map
        fun (as, rest) => (a :: as, rest) := by
  rw [within, if_neg hn]
  split
  · next e he => rw [h] at he; simp at he
  · next b tail hb =>
    obtain ⟨rfl, rfl⟩ : a = b ∧ rest = tail := by simpa [h] using hb
    rfl

theorem within_error {r : Reader ε α} {exceeded e : ε} {n : Nat} {bs : Bytes} (hn : n ≠ 0)
    (h : r.read bs = .error e) : r.within exceeded n bs = .error e := by
  rw [within, if_neg hn]
  split
  · next e' he =>
    rw [h] at he
    rw [Except.error.inj he]
  · next a rest ha => rw [h] at ha; simp at ha

/-- Reading to the end of the input uses up all of it. -/
theorem all_eq_within (r : Reader ε α) (exceeded : ε) (bs : Bytes) :
    r.all bs = (r.within exceeded bs.length bs).map Prod.fst := by
  fun_induction all r bs with
  | case1 =>
    rw [within, if_pos List.length_nil]
    rfl
  | case2 bs hne e he =>
    rw [within_error (fun h => hne (List.length_eq_zero_iff.1 h)) he]
    rfl
  | case3 bs hne a rest hr ih =>
    have hlt := r.shorter hr
    have hleft : bs.length - (bs.length - rest.length) = rest.length := by omega
    rw [within_ok (by omega) hr, if_neg (by omega), hleft, ih]
    cases r.within exceeded rest.length rest <;> rfl

/-- **A reader that gives the same for each part, whatever follows, gives that for the whole.** -/
theorem all_flatMap {γ : Type} {r : Reader ε α} {write : γ → Bytes} {give : γ → Except ε α}
    {xs : List γ} (hne : ∀ x ∈ xs, write x ≠ [])
    (h : ∀ x ∈ xs, ∀ rest, r.read (write x ++ rest) = (give x).map (·, rest)) :
    r.all (xs.flatMap write) = xs.mapM give := by
  induction xs with
  | nil => exact all_nil r
  | cons x xs ih =>
    rw [List.forall_mem_cons] at hne h
    rw [List.flatMap_cons, List.mapM_cons]
    have hx := h.1 (xs.flatMap write)
    cases hg : give x with
    | error e =>
      rw [hg] at hx
      have hne' : write x ++ xs.flatMap write ≠ [] := by
        intro hnil
        exact hne.1 (List.append_eq_nil_iff.1 hnil).1
      rw [all_error hne' hx]
      rfl
    | ok a =>
      rw [hg] at hx
      rw [all_ok hx, ih hne.2 h.2]
      cases xs.mapM give <;> rfl

/-! ## Whatever is read -/

/-- Whatever the reader reads satisfies the condition. -/
def Yields (r : Reader ε α) (P : α → Prop) : Prop :=
  ∀ bs a rest, r.read bs = .ok (a, rest) → P a

variable {P : α → Prop} {Q : β → Prop} {r : Reader ε α}

theorem yields_fail (e : ε) : (fail e : Reader ε α).Yields P := fun _ _ _ h => by
  simp [fail] at h

theorem yields_check {f : α → Except ε β} (h : r.Yields P) (hf : ∀ a b, P a → f a = .ok b → Q b) :
    (r.check f).Yields Q := by
  intro bs b rest hb
  obtain ⟨a, ha, hb⟩ := check_eq_ok_iff.1 hb
  exact hf a b (h _ _ _ ha) hb

theorem yields_map {f : α → β} (h : r.Yields P) (hf : ∀ a, P a → Q (f a)) : (r.map f).Yields Q :=
  yields_check h fun a b ha hb => by
    obtain rfl := Except.ok.inj hb
    exact hf a ha

theorem yields_true (r : Reader ε α) : r.Yields fun _ => True := fun _ _ _ _ => trivial

theorem yields_bind {f : α → Reader ε β} (hf : ∀ a, (f a).Yields Q) : (r.bind f).Yields Q := by
  intro bs b rest hb
  obtain ⟨a, rest', -, hb⟩ := bind_eq_ok_iff.1 hb
  exact hf a _ _ _ hb

theorem yields_ofType {r : Reader WireFault α} (actual expected : WireType) (h : r.Yields P) :
    (r.ofType actual expected).Yields P := by
  unfold ofType
  split
  · exact h
  · exact yields_fail _

theorem of_mem_within {exceeded : ε} (h : r.Yields P) {n : Nat} {bs rest : Bytes} {as : List α}
    (hw : r.within exceeded n bs = .ok (as, rest)) : ∀ a ∈ as, P a := by
  fun_induction within r exceeded n bs generalizing as rest with
  | case1 =>
    obtain ⟨rfl, -⟩ := Prod.mk.inj (Except.ok.inj hw)
    intro _ ha
    exact absurd ha List.not_mem_nil
  | case2 => simp at hw
  | case3 => simp at hw
  | case4 n bs hn a rest' hr hused ih =>
    obtain ⟨⟨as', last⟩, has, heq⟩ := map_eq_ok.1 hw
    obtain ⟨rfl, -⟩ := Prod.mk.inj heq
    exact List.forall_mem_cons.2 ⟨h _ _ _ hr, ih has⟩

theorem yields_packed {fault : WireFault → ε} (h : r.Yields P) :
    (packed fault r).Yields fun as => ∀ a ∈ as, P a := by
  intro bs as rest hb
  obtain ⟨n, rest', -, -, hb⟩ := packed_eq_ok_iff.1 hb
  exact of_mem_within h hb

/-- **Whatever is read off the whole input satisfies what each reading does.** -/
theorem of_mem_all (h : r.Yields P) {bs : Bytes} {as : List α} (ha : r.all bs = .ok as) :
    ∀ a ∈ as, P a := by
  fun_induction all r bs generalizing as with
  | case1 =>
    obtain rfl := Except.ok.inj ha
    intro _ ha
    exact absurd ha List.not_mem_nil
  | case2 => simp at ha
  | case3 bs hne a rest hr ih =>
    obtain ⟨as', has, rfl⟩ := map_eq_ok.1 ha
    exact List.forall_mem_cons.2 ⟨h _ _ _ hr, ih has⟩

/-! ## Readers that give the same -/

theorem ext {r s : Reader ε α} (h : ∀ bs, r.read bs = s.read bs) : r = s := by
  obtain ⟨read, _⟩ := r
  obtain ⟨read', _⟩ := s
  obtain rfl : read = read' := funext h
  rfl

theorem map_check {γ : Type} (r : Reader ε α) (f : α → Except ε β) (g : β → γ) :
    (r.check f).map g = r.check fun a => (f a).map g := by
  refine ext fun bs => ?_
  unfold map check
  cases hr : r.read bs with
  | error e => simp only [hr]
  | ok x =>
    obtain ⟨a, rest⟩ := x
    simp only [hr]
    cases f a <;> rfl

theorem map_map {γ : Type} (r : Reader ε α) (f : α → β) (g : β → γ) :
    (r.map f).map g = r.map fun a => g (f a) := map_check r _ g

theorem map_bind {γ : Type} (r : Reader ε α) (f : α → Reader ε β) (g : β → γ) :
    (r.bind f).map g = r.bind fun a => (f a).map g := by
  refine ext fun bs => ?_
  unfold map check bind andThen
  simp only
  cases r.read bs <;> rfl

/-! ## Reading on from what was read -/

/-- Reads to the end of the input, each time on from what was read before. -/
def thread (step : α → Reader ε α) (a : α) (bs : Bytes) : Except ε α :=
  if bs = [] then .ok a
  else
    match _h : (step a).read bs with
    | .error e => .error e
    | .ok (a', rest) => thread step a' rest
termination_by bs.length
decreasing_by exact (step a).shorter _h

section Thread

variable {step : α → Reader ε α} {a a' : α} {bs rest : Bytes}

theorem thread_nil : thread step a [] = .ok a := by
  rw [thread, if_pos rfl]

theorem thread_ok (h : (step a).read bs = .ok (a', rest)) :
    thread step a bs = thread step a' rest := by
  rw [thread, if_neg (read_ne_nil h)]
  split
  · next e he => rw [h] at he; simp at he
  · next b tail hb =>
    obtain ⟨rfl, rfl⟩ : a' = b ∧ rest = tail := by simpa [h] using hb
    rfl

theorem thread_error {e : ε} (hne : bs ≠ []) (h : (step a).read bs = .error e) :
    thread step a bs = .error e := by
  rw [thread, if_neg hne]
  split
  · next e' he =>
    rw [h] at he
    rw [Except.error.inj he]
  · next b tail hb => rw [h] at hb; simp at hb

/-- **What each reading adds to what was read before may as well be added when all has been read.** -/
theorem thread_eq {I : α → Prop} {add : α → β → α} {r : Reader ε β} (hr : r.Yields Q)
    (hstep : ∀ a, I a → step a = r.map (add a)) (hadd : ∀ a b, I a → Q b → I (add a b))
    (ha : I a) (bs : Bytes) : thread step a bs = (r.all bs).map (·.foldl add a) := by
  fun_induction all r bs generalizing a with
  | case1 => exact thread_nil
  | case2 bs hne e he =>
    refine thread_error hne ?_
    rw [hstep a ha, map, check]
    simp only [he]
  | case3 bs hne b rest hb ih =>
    have hread : (step a).read bs = .ok (add a b, rest) := by
      rw [hstep a ha, read_map _ hb]
    rw [thread_ok hread, ih (hadd a b ha (hr _ _ _ hb))]
    cases r.all rest <;> rfl

end Thread

end ProtoSchema.Reader
