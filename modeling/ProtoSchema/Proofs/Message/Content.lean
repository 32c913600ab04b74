import Mathlib.Data.List.TakeWhile
import Mathlib.Tactic.Tauto
import ProtoSchema.Message.Content

/-!
# The order of contents

A content is ordered when its values stand by the numbers of their fields and only repeated fields
have several. Every way of changing a content keeps it ordered: taking away a field (`Ordered.clear`),
putting values behind those of a repeated field, and putting one value in the place of another field's
(`Ordered.append`, `Ordered.replace`). A value whose number is the last goes to the end
(`append_of_le`).

What a change does to the values of each field is said by `values_append`, `values_replace` and
`values_clear`, and contents in order are told apart by the values of their fields (`Ordered.ext`).
-/

namespace ProtoSchema.Content

variable {α : Type}

/-- The values stand by number, and those fields that have several may. -/
def Ordered (repeats : Nat → Prop) (c : List (Nat × α)) : Prop :=
  c.Pairwise fun x y => x.1 ≤ y.1 ∧ (x.1 = y.1 → repeats x.1)

variable {repeats : Nat → Prop} {n : Nat} {c : List (Nat × α)} {xs : List α}

/-! ## Membership -/

theorem mem_values {a : α} : a ∈ values n c ↔ (n, a) ∈ c := by
  simp [values]

theorem mem_clear {x : Nat × α} : x ∈ clear n c ↔ x ∈ c ∧ x.1 ≠ n := by
  simp [clear]

theorem mem_append {x : Nat × α} : x ∈ append n xs c ↔ x ∈ c ∨ x.1 = n ∧ x.2 ∈ xs := by
  have hsplit : x ∈ c ↔ x ∈ c.takeWhile (·.1 ≤ n) ∨ x ∈ c.dropWhile (·.1 ≤ n) := by
    rw [← List.mem_append, List.takeWhile_append_dropWhile]
  have hput : x ∈ xs.map (n, ·) ↔ x.1 = n ∧ x.2 ∈ xs := by
    rw [List.mem_map]
    constructor
    · rintro ⟨a, ha, rfl⟩
      exact ⟨rfl, ha⟩
    · rintro ⟨rfl, ha⟩
      exact ⟨x.2, ha, rfl⟩
  rw [append, List.mem_append, List.mem_append, hsplit, hput]
  tauto

theorem mem_replace {x : Nat × α} :
    x ∈ replace n xs c ↔ x ∈ c ∧ x.1 ≠ n ∨ x.1 = n ∧ x.2 ∈ xs := by
  rw [replace, mem_append, mem_clear]

theorem clear_of_forall_ne (h : ∀ x ∈ c, x.1 ≠ n) : clear n c = c := by
  rw [clear, List.filter_eq_self]
  intro x hx
  simpa using h x hx

theorem values_of_forall_ne (h : ∀ x ∈ c, x.1 ≠ n) : values n c = [] := by
  rw [List.eq_nil_iff_forall_not_mem]
  intro a ha
  exact h _ (mem_values.1 ha) rfl

/-! ## Order -/

theorem le_of_mem_takeWhile {x : Nat × α} (h : x ∈ c.takeWhile (·.1 ≤ n)) : x.1 ≤ n := by
  simpa using List.mem_takeWhile_imp h

/-- What an ordered content holds behind the numbers up to `n` has greater ones. -/
theorem lt_of_mem_dropWhile (h : Ordered repeats c) :
    ∀ x ∈ c.dropWhile (·.1 ≤ n), n < x.1 := by
  induction c with
  | nil => exact fun _ hx => absurd hx List.not_mem_nil
  | cons y c ih =>
    obtain ⟨hhead, htail⟩ := List.pairwise_cons.1 h
    by_cases hy : y.1 ≤ n
    · rw [List.dropWhile_cons_of_pos (by simpa using hy)]
      exact ih htail
    · rw [List.dropWhile_cons_of_neg (by simpa using hy), List.forall_mem_cons]
      refine ⟨by omega, ?_⟩
      intro x hx
      have hle := (hhead x hx).1
      omega

theorem Ordered.clear (h : Ordered repeats c) (n : Nat) : Ordered repeats (clear n c) :=
  List.Pairwise.filter _ h

/-- The values of one field are in order, if it is repeated or they are not several. -/
theorem ordered_map (h : repeats n ∨ xs.length ≤ 1) : Ordered repeats (xs.map (n, ·)) := by
  rw [Ordered, List.pairwise_map]
  rcases h with hrep | hlen
  · exact List.pairwise_of_forall fun _ _ => ⟨Nat.le_refl n, fun _ => hrep⟩
  · match xs, hlen with
    | [], _ => exact List.Pairwise.nil
    | [a], _ => exact List.pairwise_singleton _ _

/-- **Values put behind those of their field keep the order**, if the field is repeated or has no
other. -/
theorem Ordered.append (h : Ordered repeats c)
    (hput : repeats n ∨ (xs.length ≤ 1 ∧ ∀ x ∈ c, x.1 ≠ n)) : Ordered repeats (append n xs c) := by
  have hfront : Ordered repeats (c.takeWhile (·.1 ≤ n)) := h.sublist (List.takeWhile_sublist _)
  have hback : Ordered repeats (c.dropWhile (·.1 ≤ n)) := h.sublist (List.dropWhile_sublist _)
  have hmiddle : Ordered repeats (xs.map (n, ·)) := ordered_map (hput.imp_right And.left)
  have hlt := lt_of_mem_dropWhile (n := n) h
  rw [Content.append, List.append_assoc]
  refine List.pairwise_append.2 ⟨hfront, List.pairwise_append.2 ⟨hmiddle, hback, ?_⟩, ?_⟩
  · intro x hx y hy
    obtain ⟨a, -, rfl⟩ := List.mem_map.1 hx
    have hlty := hlt y hy
    exact ⟨Nat.le_of_lt hlty, fun heq => absurd heq (Nat.ne_of_lt hlty)⟩
  · intro x hx y hy
    have hle := le_of_mem_takeWhile hx
    rcases List.mem_append.1 hy with hy | hy
    · obtain ⟨a, -, rfl⟩ := List.mem_map.1 hy
      -- A value of the same field stands in front of the new ones only if the field is repeated.
      refine ⟨hle, ?_⟩
      intro heq
      rcases hput with hrep | ⟨-, hne⟩
      · exact heq ▸ hrep
      · exact absurd heq (hne x (List.takeWhile_subset _ hx))
    · have hlty := hlt y hy
      exact ⟨by omega, fun heq => by omega⟩

/-- **Values put in the place of those of their field keep the order**, if the field is repeated or
they are not several. -/
theorem Ordered.replace (h : Ordered repeats c) (hput : repeats n ∨ xs.length ≤ 1) :
    Ordered repeats (replace n xs c) := by
  refine (h.clear n).append ?_
  rcases hput with hrep | hlen
  · exact Or.inl hrep
  · exact Or.inr ⟨hlen, fun x hx => (mem_clear.1 hx).2⟩

/-- Values behind which nothing stands go to the end. -/
theorem append_of_le (h : ∀ x ∈ c, x.1 ≤ n) : append n xs c = c ++ xs.map (n, ·) := by
  have hall : ∀ x ∈ c, decide (x.1 ≤ n) = true := by
    intro x hx
    exact decide_eq_true (h x hx)
  rw [append, List.takeWhile_eq_self_iff.2 hall, List.dropWhile_eq_nil_iff.2 hall, List.append_nil]

/-! ## The values of a field -/

@[simp] theorem values_nil (n : Nat) : values n ([] : List (Nat × α)) = [] := rfl

theorem values_cons (n : Nat) (x : Nat × α) (c : List (Nat × α)) :
    values n (x :: c) = if x.1 = n then x.2 :: values n c else values n c := by
  by_cases hx : x.1 = n <;> simp [values, hx]

theorem values_concat (n : Nat) (c d : List (Nat × α)) :
    values n (c ++ d) = values n c ++ values n d := by
  simp [values]

theorem values_map (n m : Nat) (xs : List α) :
    values n (xs.map (m, ·)) = if n = m then xs else [] := by
  by_cases hn : n = m
  · simp [values, hn, List.filter_map, Function.comp_def]
  · simp [values, hn, List.filter_map, Function.comp_def, Ne.symm hn]

theorem has_eq_isEmpty (n : Nat) (c : List (Nat × α)) : has n c = !(values n c).isEmpty := by
  induction c with
  | nil => rfl
  | cons x c ih =>
    rw [has] at ih
    rw [has, values_cons, List.any_cons, ih]
    by_cases hx : x.1 = n <;> simp [hx]

/-- The values of fields that stand one after the other. -/
theorem values_flatMap {ns : List Nat} (hns : ns.Nodup) (g : Nat → List α) (m : Nat) :
    values m (ns.flatMap fun n => (g n).map (n, ·)) = if m ∈ ns then g m else [] := by
  induction ns with
  | nil => rfl
  | cons n ns ih =>
    obtain ⟨hn, hns⟩ := List.nodup_cons.1 hns
    rw [List.flatMap_cons, values_concat, values_map, ih hns]
    by_cases hm : m = n
    · subst hm
      simp [hn]
    · simp [hm]

/-- Of the two parts that values are put between, the second has none of their number. -/
theorem values_takeWhile_append (h : ∀ x ∈ c.dropWhile (·.1 ≤ n), x.1 ≠ n) (m : Nat) :
    values m (append n xs c) = values m c ++ if m = n then xs else [] := by
  have hsplit : values m c =
      values m (c.takeWhile (·.1 ≤ n)) ++ values m (c.dropWhile (·.1 ≤ n)) := by
    rw [← values_concat, List.takeWhile_append_dropWhile]
  rw [append, values_concat, values_concat, values_map, hsplit]
  by_cases hm : m = n
  · rw [if_pos hm, hm, values_of_forall_ne h, List.append_nil, List.append_nil]
  · rw [if_neg hm, List.append_nil, List.append_nil]

/-- **Values that are put behind those of their field are put there, and nowhere else.** -/
theorem values_append (h : Ordered repeats c) (m : Nat) :
    values m (append n xs c) = values m c ++ if m = n then xs else [] :=
  values_takeWhile_append (fun x hx => Nat.ne_of_gt (lt_of_mem_dropWhile h x hx)) m

theorem values_clear (n m : Nat) (c : List (Nat × α)) :
    values m (clear n c) = if m = n then [] else values m c := by
  split
  · next hm =>
    refine values_of_forall_ne fun x hx => ?_
    exact hm ▸ (mem_clear.1 hx).2
  · next hm =>
    rw [values, values, clear, List.filter_filter]
    congr 1
    refine List.filter_congr fun x _ => ?_
    by_cases hx : x.1 = m <;> simp [hx, hm]

/-- **Values that are put in the place of those of their field are all that it has then.** -/
theorem values_replace (m : Nat) :
    values m (replace n xs c) = if m = n then xs else values m c := by
  have hne : ∀ x ∈ (clear n c).dropWhile (·.1 ≤ n), x.1 ≠ n := fun x hx =>
    (mem_clear.1 (List.dropWhile_subset _ hx)).2
  rw [replace, values_takeWhile_append hne, values_clear]
  by_cases hm : m = n <;> simp [hm]

/-- A field that is not repeated has at most one value. -/
theorem Ordered.length_values_le (h : Ordered repeats c) (hn : ¬ repeats n) :
    (values n c).length ≤ 1 := by
  induction c with
  | nil => exact Nat.zero_le 1
  | cons x c ih =>
    obtain ⟨hhead, htail⟩ := List.pairwise_cons.1 h
    rw [values_cons]
    split
    · next hx =>
      have hnone : values n c = [] := by
        refine values_of_forall_ne fun y hy hyn => hn ?_
        exact hx ▸ (hhead y hy).2 (hx.trans hyn.symm)
      rw [hnone]
      exact Nat.le_refl 1
    · exact ih htail

/-- **Contents in order are the same when each field has the same values.** -/
theorem Ordered.ext {d : List (Nat × α)} (hc : Ordered repeats c) (hd : Ordered repeats d)
    (h : ∀ n, values n c = values n d) : c = d := by
  induction c generalizing d with
  | nil =>
    cases d with
    | nil => rfl
    | cons y d =>
      have hy := h y.1
      rw [values_nil, values_cons, if_pos rfl] at hy
      exact absurd hy.symm (List.cons_ne_nil _ _)
  | cons x c ih =>
    cases d with
    | nil =>
      have hx := h x.1
      rw [values_nil, values_cons, if_pos rfl] at hx
      exact absurd hx (List.cons_ne_nil _ _)
    | cons y d =>
      -- Each of the two first values stands in both contents, so neither number is the greater.
      have hx : x.2 ∈ values x.1 (y :: d) := by
        rw [← h, values_cons, if_pos rfl]
        exact List.mem_cons_self
      have hy : y.2 ∈ values y.1 (x :: c) := by
        rw [h, values_cons, if_pos rfl]
        exact List.mem_cons_self
      have hle : ∀ {x y : Nat × α} {d}, Ordered repeats (y :: d) → x.2 ∈ values x.1 (y :: d) →
          y.1 ≤ x.1 := by
        intro x y d hd hx
        rcases List.mem_cons.1 (mem_values.1 hx) with heq | hmem
        · exact Nat.le_of_eq (congrArg Prod.fst heq).symm
        · exact ((List.pairwise_cons.1 hd).1 _ hmem).1
      have hnumber : x.1 = y.1 := Nat.le_antisymm (hle hc hy) (hle hd hx)
      have hfirst := h x.1
      rw [values_cons, values_cons, if_pos rfl, if_pos hnumber.symm] at hfirst
      obtain ⟨hvalue, hrest⟩ := List.cons.inj hfirst
      have htail : ∀ n, values n c = values n d := by
        intro n
        by_cases hn : x.1 = n
        · exact hn ▸ hrest
        · have hval := h n
          rwa [values_cons, values_cons, if_neg hn, if_neg (hnumber ▸ hn)] at hval
      rw [Prod.ext hnumber hvalue,
        ih (List.pairwise_cons.1 hc).2 (List.pairwise_cons.1 hd).2 htail]

/-- **A content in order has the values of one field after the other,** by increasing number. -/
theorem Ordered.eq_flatMap {ns : List Nat} (h : Ordered repeats c) (hns : ns.Pairwise (· < ·))
    (hall : ∀ x ∈ c, x.1 ∈ ns) : c = ns.flatMap fun n => (values n c).map (n, ·) := by
  refine h.ext (List.pairwise_flatMap.2 ⟨?_, ?_⟩) ?_
  · intro n _
    refine ordered_map ?_
    by_cases hn : repeats n
    · exact Or.inl hn
    · exact Or.inr (h.length_values_le hn)
  · refine hns.imp ?_
    intro n m hlt x hx y hy
    obtain ⟨a, -, rfl⟩ := List.mem_map.1 hx
    obtain ⟨b, -, rfl⟩ := List.mem_map.1 hy
    exact ⟨Nat.le_of_lt hlt, fun heq => absurd heq (Nat.ne_of_lt hlt)⟩
  · intro m
    rw [values_flatMap (hns.imp Nat.ne_of_lt)]
    split
    · rfl
    · next hm =>
      refine values_of_forall_ne fun x hx hxm => ?_
      exact hm (hxm ▸ hall x hx)

end ProtoSchema.Content
