import Mathlib.Data.Fin.VecNotation
import Mathlib.Data.Fintype.Basic
import Mathlib.Data.List.FinRange
import Mathlib.Tactic.FinCases
import ProtoSchema.Proofs.Message.Forward
import ProtoSchema.Proofs.Wire.Record

/-!
# Records in sequence

A record gives values of its own field only (`Decode.values_of_isRecord`), and records one behind the
other give what each of them gives, merged as one (`Decode.content_flatMap`). What is merged depends on
the order of the values of each field and not on how the fields are mixed, so **records of different
fields may change places** (`Message.decode_reorder`).
-/

namespace ProtoSchema

open Reader Wire

/-! ## What records are merged to -/

namespace Content

variable {p : Pool} {t n : Nat} {c d : Content}

theorem values_flatMap_eq {ι : Type} (n : Nat) (is : List ι) (give : ι → Content) :
    values n (is.flatMap give) = is.flatMap fun i => values n (give i) := by
  induction is with
  | nil => rfl
  | cons i is ih => rw [List.flatMap_cons, List.flatMap_cons, values_concat, ih]

/-- A field comes to hold what the values that it is given say, and no others. -/
theorem values_merge_nil_congr (hc : ∀ x ∈ c, Belongs p t x) (hd : ∀ x ∈ d, Belongs p t x)
    (h : values n c = values n d) : values n (merge p t [] c) = values n (merge p t [] d) := by
  cases hf : (p.message t).field? n with
  | none => rw [(typed_nil.merge hc).values_of_none hf, (typed_nil.merge hd).values_of_none hf]
  | some f => rw [values_merge typed_nil.ordered hf, values_merge typed_nil.ordered hf, h]

/-- **What is merged depends on the order of the values of each field only.** -/
theorem merge_nil_ext (hc : ∀ x ∈ c, Belongs p t x) (hd : ∀ x ∈ d, Belongs p t x)
    (h : ∀ n, values n c = values n d) : merge p t [] c = merge p t [] d :=
  (typed_nil.merge hc).ordered.ext (typed_nil.merge hd).ordered fun n =>
    values_merge_nil_congr hc hd (h n)

end Content

/-! ## Single records -/

namespace Decode

variable {p : Pool} {t n budget : Nat} {body : Nat → Bytes → Except WireFault Content}
  {bs rest : Bytes} {c : Content}

/-- What is read as a record can be read past as well, and gives values of the field in its key only. -/
theorem skip_of_record (hr : (record p t body).read bs = .ok (c, rest)) :
    ∃ k left, key.read bs = .ok (k, left) ∧ (skip groupBudget k).read left = .ok ((), rest) ∧
      ∀ x ∈ c, x.1 = k.tag := by
  obtain ⟨k, left, hk, hr⟩ := bind_eq_ok_iff.1 hr
  refine ⟨k, left, hk, ?_⟩
  cases hf : (p.message t).field? k.tag with
  | none =>
    simp only [hf] at hr
    obtain ⟨u, hu, rfl⟩ := map_eq_ok_iff.1 hr
    exact ⟨hu, fun x hx => absurd hx List.not_mem_nil⟩
  | some f =>
    simp only [hf] at hr
    obtain ⟨es, hes, rfl⟩ := map_eq_ok_iff.1 hr
    obtain ⟨u, hu, -⟩ := follows_skip_elements f k _ _ _ hes
    refine ⟨hu, ?_⟩
    rw [List.forall_mem_map]
    exact fun e _ => MessageDef.number_of_field? hf

/-- **A complete record is read to its end, and gives values of its field only.** -/
theorem rest_of_record (h : IsRecord n bs) (hr : (record p t body).read bs = .ok (c, rest)) :
    rest = [] ∧ ∀ x ∈ c, x.1 = n := by
  obtain ⟨type, key, payload, hkey, hpayload, rfl⟩ := h
  obtain ⟨k, left, hk, hskip, hnumber⟩ := skip_of_record hr
  rw [selfDelimiting_key.append hkey payload] at hk
  obtain ⟨rfl, rfl⟩ := Prod.mk.inj (Except.ok.inj hk)
  rw [List.nil_append, ← List.append_nil payload] at hskip
  exact ⟨rest_of_skip hpayload hskip, hnumber⟩

/-- **Whatever is read as a record is one complete record.** -/
theorem isRecord_of_record (hr : (record p t body).read bs = .ok (c, rest)) :
    ∃ n front, bs = front ++ rest ∧ IsRecord n front ∧ ∀ x ∈ c, x.1 = n := by
  obtain ⟨⟨n, type⟩, left, hk, hskip, hnumber⟩ := skip_of_record hr
  obtain ⟨key, rfl, hkey⟩ := selfDelimiting_key.exists_front hk
  obtain ⟨payload, rfl, hpayload⟩ := isPayload_of_skip hskip
  exact ⟨n, key ++ payload, (List.append_assoc _ _ _).symm, ⟨type, key, payload, hkey, hpayload, rfl⟩,
    hnumber⟩

/-- What one record gives is a content of its own. -/
theorem content_of_record (hr : (record p t (content p budget)).read bs = .ok (c, [])) :
    content p (budget + 1) t bs = .ok (Content.merge p t [] c) := by
  rw [content_eq, all_ok hr, all_nil]
  simp only [Except.map, List.flatten_cons, List.flatten_nil, List.append_nil]

/-- A record that is decoded alone is read as one. -/
theorem record_of_content (h : IsRecord n bs) (hc : content p (budget + 1) t bs = .ok c) :
    ∃ part, (record p t (content p budget)).read bs = .ok (part, []) ∧
      c = Content.merge p t [] part := by
  have hne : bs ≠ [] := by
    obtain ⟨type, key, payload, hkey, -, rfl⟩ := h
    exact List.append_ne_nil_of_left_ne_nil (read_ne_nil hkey) _
  cases hr : (record p t (content p budget)).read bs with
  | error e =>
    rw [content_eq, all_error hne hr] at hc
    simp [Except.map] at hc
  | ok x =>
    obtain ⟨part, rest⟩ := x
    obtain ⟨rfl, -⟩ := rest_of_record h hr
    rw [content_of_record hr] at hc
    exact ⟨part, rfl, (Except.ok.inj hc).symm⟩

/-- **What is decoded from one record has values for its field only.** -/
theorem values_of_isRecord (h : IsRecord n bs) (hc : content p budget t bs = .ok c) {m : Nat}
    (hm : m ≠ n) : Content.values m c = [] := by
  cases budget with
  | zero => simp [content] at hc
  | succ budget =>
    obtain ⟨part, hpart, rfl⟩ := record_of_content h hc
    have hbelongs := (yields_record fun _ _ _ hc => content_typed hc) _ _ _ hpart
    have hnone : Content.values m part = [] :=
      Content.values_of_forall_ne fun x hx => (rest_of_record h hpart).2 x hx ▸ hm.symm
    exact Content.values_merge_nil_congr (d := []) (fun x hx => (hbelongs x hx).1)
      Content.typed_nil.belongs hnone

end Decode

/-! ## Records one behind the other -/

namespace Decode

variable {p : Pool} {t budget : Nat} {ι : Type} {is : List ι} {bytes : ι → Bytes}
  {give : ι → Content}

/-- **Inputs one behind the other give what each of them gives, merged as one.** -/
theorem content_flatMap (h : ∀ i ∈ is, content p (budget + 1) t (bytes i) = .ok (give i)) :
    content p (budget + 1) t (is.flatMap bytes) =
      .ok (Content.merge p t [] (is.flatMap give)) := by
  induction is using List.reverseRecOn with
  | nil =>
    rw [List.flatMap_nil, List.flatMap_nil, content_eq, all_nil]
    rfl
  | append_singleton is i ih =>
    have his : ∀ j ∈ is, content p (budget + 1) t (bytes j) = .ok (give j) := fun j hj =>
      h j (List.mem_append_left _ hj)
    have hi := h i (List.mem_append_right _ (List.mem_singleton_self i))
    rw [List.flatMap_append, content_append (ih his), List.flatMap_singleton, hi,
      List.flatMap_append, List.flatMap_singleton, Content.merge_append]
    rfl

theorem belongs_flatMap (h : ∀ i ∈ is, content p budget t (bytes i) = .ok (give i)) :
    ∀ x ∈ is.flatMap give, Content.Belongs p t x := by
  intro x hx
  obtain ⟨i, hi, hx⟩ := List.mem_flatMap.1 hx
  exact (content_typed (h i hi)).1.belongs x hx

end Decode

/-! ## Records of different fields -/

/-- Members that give nothing may be left out. -/
theorem flatMap_filter_of_nil {ι α : Type} {f : ι → List α} {P : ι → Prop} [DecidablePred P]
    {is : List ι} (h : ∀ i ∈ is, ¬P i → f i = []) : (is.filter P).flatMap f = is.flatMap f := by
  induction is with
  | nil => rfl
  | cons i is ih =>
    rw [List.forall_mem_cons] at h
    by_cases hi : P i
    · rw [List.filter_cons_of_pos (by simpa using hi), List.flatMap_cons, List.flatMap_cons, ih h.2]
    · rw [List.filter_cons_of_neg (by simpa using hi), List.flatMap_cons, h.1 hi, List.nil_append,
        ih h.2]

/-- A permutation that keeps the order of the members of each class keeps each class as it is. -/
theorem filter_map_perm {n : Nat} {number : Fin n → Nat} {σ : Equiv.Perm (Fin n)}
    (hσ : ∀ i j, i < j → number (σ i) = number (σ j) → σ i < σ j) (k : Nat) :
    ((List.finRange n).map σ).filter (number · = k) =
      (List.finRange n).filter (number · = k) := by
  have hlt := List.pairwise_lt_finRange n
  have hmoved : (((List.finRange n).map σ).filter (number · = k)).Pairwise (· < ·) := by
    rw [List.pairwise_filter, List.pairwise_map]
    refine hlt.imp fun {i j} hij hi hj => hσ i j hij ?_
    exact (of_decide_eq_true hi).trans (of_decide_eq_true hj).symm
  refine List.Perm.eq_of_pairwise ?_ hmoved (hlt.filter _)
    ((Equiv.Perm.map_finRange_perm σ).filter _)
  intro i j _ _ hij hji
  exact absurd hji (not_lt_of_gt hij)

/-- **Records of different fields may change places.** Records that can be decoded each can be decoded
one behind the other, and give the same message in any order that keeps the order of the records of
each field. -/
theorem Message.decode_reorder {type : MessageType} {n : Nat} {number : Fin n → Nat}
    {record : Fin n → Bytes} (hrecord : ∀ i, IsRecord (number i) (record i))
    (hdecode : ∀ i, ∃ m, decode type (record i) = .ok m) {σ : Equiv.Perm (Fin n)}
    (hσ : ∀ i j, i < j → number (σ i) = number (σ j) → σ i < σ j) :
    ∃ m, decode type ((List.finRange n).flatMap record) = .ok m ∧
      decode type ((List.finRange n).flatMap fun i => record (σ i)) = .ok m := by
  have hcontent : ∀ i, ∃ c,
      Decode.content type.schema.pool Decode.nestingBudget type.index (record i) = .ok c := by
    intro i
    obtain ⟨m, hm⟩ := hdecode i
    obtain ⟨c, hc, -⟩ := Traverse.map_eq_ok.1 hm
    exact ⟨c, hc⟩
  choose give hgive using hcontent
  have hall : ∀ is : List (Fin n), ∀ i ∈ is,
      Decode.content type.schema.pool Decode.nestingBudget type.index (record i) = .ok (give i) :=
    fun _ i _ => hgive i
  -- The values of a field are those that its own records give.
  have hvalues : ∀ (k : Nat) (is : List (Fin n)), Content.values k (is.flatMap give) =
      (is.filter (number · = k)).flatMap fun i => Content.values k (give i) := by
    intro k is
    rw [Content.values_flatMap_eq, flatMap_filter_of_nil]
    exact fun i _ hi => Decode.values_of_isRecord (hrecord i) (hgive i) (Ne.symm hi)
  have hmerge := Content.merge_nil_ext (Decode.belongs_flatMap (hall ((List.finRange n).map σ)))
    (Decode.belongs_flatMap (hall (List.finRange n))) fun k => by
      rw [hvalues, hvalues, filter_map_perm hσ]
  have hreordered := Decode.content_flatMap (hall ((List.finRange n).map σ))
  rw [hmerge, List.flatMap_map] at hreordered
  refine ⟨⟨type, Content.merge type.schema.pool type.index [] ((List.finRange n).flatMap give)⟩,
    ?_, ?_⟩
  · rw [decode, Decode.nestingBudget, Decode.content_flatMap (hall _)]
    rfl
  · rw [decode, Decode.nestingBudget, hreordered]
    rfl

namespace Message

/-- Two links with a mark for the link that comes next, a group that no field of a link has between
them, and a mark. -/
def linkRecords : Fin 4 → Bytes := ![[10, 2, 16, 1], [27, 28], [10, 2, 16, 2], [16, 5]]

theorem isRecord_linkRecords : ∀ i, IsRecord ((![1, 3, 1, 2] : Fin 4 → Nat) i) (linkRecords i) := by
  have hnext : ∀ n : UInt8, IsRecord 1 [10, 2, 16, n] := fun n =>
    ⟨.delimited, [10], [2, 16, n], rfl, @IsPayload.delimited 1 [2] [16, n] rfl, rfl⟩
  intro i
  match i with
  | 0 => exact hnext 1
  | 1 => exact ⟨.startGroup, [27], [28], rfl, .groupEnd rfl, rfl⟩
  | 2 => exact hnext 2
  | 3 => exact ⟨.varint, [16], [5], rfl, .varint (n := 5) rfl, rfl⟩

theorem decode_linkRecords :
    ∀ i, ∃ m, decode ⟨⟨0, Pool.chain⟩, 0⟩ (linkRecords i) = .ok m := by
  -- What is read as one record is decoded.
  have hrecord : ∀ {bs : Bytes} {c : Content},
      (Decode.record Pool.chain 0 (Decode.content Pool.chain 100)).read bs = .ok (c, []) →
        ∃ m, decode ⟨⟨0, Pool.chain⟩, 0⟩ bs = .ok m := by
    intro bs c hr
    refine ⟨⟨⟨⟨0, Pool.chain⟩, 0⟩, Content.merge Pool.chain 0 [] c⟩, ?_⟩
    rw [decode, Decode.nestingBudget, Decode.content_of_record hr]
    rfl
  have hgroup : (skip Decode.groupBudget ⟨3, .startGroup⟩).read [28] = .ok ((), []) :=
    skipGroup_eq_ok_iff.2 ⟨⟨3, .endGroup⟩, [], rfl, Or.inl ⟨rfl, rfl⟩⟩
  intro i
  fin_cases i
  · exact ⟨_, decode_marked (n := 1) (by decide)⟩
  · refine hrecord (c := []) (bind_eq_ok_iff.2 ⟨⟨3, .startGroup⟩, [28], rfl, ?_⟩)
    exact map_eq_ok_iff.2 ⟨(), hgroup, rfl⟩
  · exact ⟨_, decode_marked (n := 2) (by decide)⟩
  · exact hrecord (c := [(2, .scalar (.int32 5))]) rfl

/-- The mark may come first and the group last. -/
theorem decode_reorder_chain : ∃ m,
    decode ⟨⟨0, Pool.chain⟩, 0⟩ [10, 2, 16, 1, 27, 28, 10, 2, 16, 2, 16, 5] = .ok m ∧
      decode ⟨⟨0, Pool.chain⟩, 0⟩ [16, 5, 10, 2, 16, 1, 10, 2, 16, 2, 27, 28] = .ok m := by
  let σ : Equiv.Perm (Fin 4) :=
    ⟨![3, 0, 2, 1], ![1, 3, 2, 0], fun i => by revert i; decide, fun i => by revert i; decide⟩
  exact decode_reorder (σ := σ) isRecord_linkRecords decode_linkRecords (by decide)

end Message

end ProtoSchema
