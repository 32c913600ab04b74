import ProtoSchema.Proofs.Wire.Reader
import ProtoSchema.Wire.Scalar
import ProtoSchema.Wire.Skip

/-!
# What readers take off their input

A reader is self-delimiting when it takes a front off its input and would take the same whatever
stood behind (`Reader.SelfDelimiting`). The readers of numbers, keys, lengths and scalars are, and so
are those that read past unknown fields. Hence what is read of two byte strings, one behind the other,
is what is read of the first and then of the second (`all_append`).
-/

namespace ProtoSchema.Reader

variable {ε α β : Type}

/-- What is read is a front of the input, whatever stands behind it. -/
def TakesFront (read : Bytes → Reading ε α) : Prop :=
  ∀ bs a rest, read bs = .ok (a, rest) →
    ∃ front, bs = front ++ rest ∧ ∀ tail, read (front ++ tail) = .ok (a, tail)

/-- The reader takes a front off its input, whatever stands behind it. -/
def SelfDelimiting (r : Reader ε α) : Prop := TakesFront r.read

variable {r : Reader ε α}

/-! ## Readers made of others -/

theorem selfDelimiting_fail (e : ε) : (fail e : Reader ε α).SelfDelimiting := fun _ _ _ h => by
  simp [fail] at h

theorem SelfDelimiting.check (h : r.SelfDelimiting) (f : α → Except ε β) :
    (r.check f).SelfDelimiting := by
  intro bs b rest hb
  obtain ⟨a, ha, hf⟩ := check_eq_ok_iff.1 hb
  obtain ⟨front, rfl, hfront⟩ := h _ _ _ ha
  refine ⟨front, rfl, fun tail => ?_⟩
  exact check_eq_ok_iff.2 ⟨a, hfront tail, hf⟩

theorem SelfDelimiting.map (h : r.SelfDelimiting) (f : α → β) : (r.map f).SelfDelimiting :=
  h.check _

theorem SelfDelimiting.bind (h : r.SelfDelimiting) {f : α → Reader ε β}
    (hf : ∀ a, (f a).SelfDelimiting) : (r.bind f).SelfDelimiting := by
  intro bs b rest hb
  obtain ⟨a, rest', ha, hf'⟩ := bind_eq_ok_iff.1 hb
  obtain ⟨front, rfl, hfront⟩ := h _ _ _ ha
  obtain ⟨front', rfl, hfront'⟩ := hf a _ _ _ hf'
  refine ⟨front ++ front', (List.append_assoc _ _ _).symm, fun tail => ?_⟩
  rw [List.append_assoc]
  exact bind_eq_ok_iff.2 ⟨a, front' ++ tail, hfront _, hfront' tail⟩

theorem SelfDelimiting.ofType {r : Reader WireFault α} (h : r.SelfDelimiting)
    (actual expected : WireType) : (r.ofType actual expected).SelfDelimiting := by
  unfold Reader.ofType
  split
  · exact h
  · exact selfDelimiting_fail _

/-! ## Reading over and over -/

/-- Reading until `n` bytes are used up uses up `n` bytes. -/
theorem length_of_within {exceeded : ε} {n : Nat} {bs rest : Bytes} {as : List α}
    (hw : r.within exceeded n bs = .ok (as, rest)) : bs.length = n + rest.length := by
  fun_induction Reader.within r exceeded n bs generalizing as rest with
  | case1 bs =>
    obtain ⟨-, rfl⟩ := Prod.mk.inj (Except.ok.inj hw)
    exact (Nat.zero_add _).symm
  | case2 => simp at hw
  | case3 => simp at hw
  | case4 n bs hn a rest' hr hused ih =>
    obtain ⟨⟨as', last⟩, has, heq⟩ := Traverse.map_eq_ok.1 hw
    obtain ⟨-, rfl⟩ := Prod.mk.inj heq
    have hlt := r.shorter hr
    have hrest := ih has
    omega

theorem SelfDelimiting.within (h : r.SelfDelimiting) (exceeded : ε) (n : Nat) :
    TakesFront (r.within exceeded n) := by
  intro bs as rest hw
  fun_induction Reader.within r exceeded n bs generalizing as rest with
  | case1 bs =>
    obtain ⟨rfl, rfl⟩ := Prod.mk.inj (Except.ok.inj hw)
    refine ⟨[], rfl, fun tail => ?_⟩
    rw [List.nil_append, Reader.within, if_pos rfl]
  | case2 => simp at hw
  | case3 => simp at hw
  | case4 n bs hn a rest' hr hused ih =>
    obtain ⟨⟨as', last⟩, has, heq⟩ := Traverse.map_eq_ok.1 hw
    obtain ⟨rfl, rfl⟩ := Prod.mk.inj heq
    obtain ⟨front, rfl, hfront⟩ := h _ _ _ hr
    obtain ⟨front', rfl, hfront'⟩ := ih _ _ has
    refine ⟨front ++ front', (List.append_assoc _ _ _).symm, fun tail => ?_⟩
    -- As many bytes are taken for one thing whatever stands behind the last one.
    have hlen : ∀ tail : Bytes,
        (front ++ (front' ++ tail)).length - (front' ++ tail).length = front.length := by
      intro tail
      rw [List.length_append]
      omega
    rw [hlen] at hused hfront'
    rw [List.append_assoc, within_ok hn (hfront _), hlen, if_neg hused, hfront' tail]
    rfl

/-- **What is read of two inputs is what is read of the one and then of the other.** -/
theorem all_append (h : r.SelfDelimiting) {as bs : Bytes} {xs : List α} (ha : r.all as = .ok xs) :
    r.all (as ++ bs) = (r.all bs).map (xs ++ ·) := by
  fun_induction all r as generalizing xs with
  | case1 =>
    obtain rfl := Except.ok.inj ha
    rw [List.nil_append]
    cases r.all bs <;> rfl
  | case2 => simp at ha
  | case3 as hne a rest hr ih =>
    obtain ⟨xs', hxs, rfl⟩ := Traverse.map_eq_ok.1 ha
    obtain ⟨front, rfl, hfront⟩ := h _ _ _ hr
    rw [List.append_assoc, all_ok (hfront _), ih hxs]
    cases r.all bs <;> rfl

/-! ## Numbers, keys and lengths -/

theorem takesFront_readVarint {most n : Nat} {bs rest : Bytes}
    (h : Wire.readVarint most bs = some (n, rest)) :
    ∃ front, bs = front ++ rest ∧
      ∀ tail, Wire.readVarint most (front ++ tail) = some (n, tail) := by
  induction most generalizing bs n with
  | zero => simp [Wire.readVarint] at h
  | succ most ih =>
    cases bs with
    | nil => simp [Wire.readVarint] at h
    | cons b bs =>
      rw [Wire.readVarint] at h
      split at h
      · next hb =>
        split at h
        · simp at h
        · next hlast =>
          obtain ⟨rfl, rfl⟩ := Prod.mk.inj (Option.some.inj h)
          refine ⟨[b], rfl, fun tail => ?_⟩
          rw [List.singleton_append, Wire.readVarint, if_pos hb, if_neg hlast]
      · next hb =>
        obtain ⟨⟨m, rest'⟩, hm, heq⟩ := Option.map_eq_some_iff.1 h
        obtain ⟨rfl, rfl⟩ := Prod.mk.inj heq
        obtain ⟨front, rfl, hfront⟩ := ih hm
        refine ⟨b :: front, rfl, fun tail => ?_⟩
        rw [List.cons_append, Wire.readVarint, if_neg hb, hfront tail]
        rfl

theorem selfDelimiting_varint : varint.SelfDelimiting := by
  intro bs n rest h
  unfold varint at h ⊢
  simp only at h ⊢
  split at h
  · simp at h
  · next x hx =>
    obtain rfl := Except.ok.inj h
    obtain ⟨front, rfl, hfront⟩ := takesFront_readVarint hx
    refine ⟨front, rfl, fun tail => ?_⟩
    rw [hfront tail]

theorem selfDelimiting_fixed (count : Nat) (pos : 0 < count) : (fixed count pos).SelfDelimiting := by
  intro bs n rest h
  unfold fixed at h ⊢
  simp only at h ⊢
  split at h
  · simp at h
  · next hle =>
    obtain ⟨rfl, rfl⟩ := Prod.mk.inj (Except.ok.inj h)
    have hlen : (bs.take count).length = count := List.length_take_of_le (Nat.not_lt.1 hle)
    refine ⟨bs.take count, (List.take_append_drop count bs).symm, fun tail => ?_⟩
    rw [if_neg (by rw [List.length_append]; omega), List.take_left' hlen, List.drop_left' hlen]

theorem selfDelimiting_key : key.SelfDelimiting := selfDelimiting_varint.check _

theorem selfDelimiting_delimited : delimited.SelfDelimiting := by
  intro bs payload rest h
  obtain ⟨front, rfl, hfront⟩ := selfDelimiting_varint _ _ _ (delimited_eq_ok_iff.1 h)
  refine ⟨front ++ payload, (List.append_assoc _ _ _).symm, fun tail => ?_⟩
  rw [List.append_assoc]
  exact delimited_eq_ok_iff.2 (hfront _)

theorem SelfDelimiting.packed (h : r.SelfDelimiting) (fault : WireFault → ε) :
    (packed fault r).SelfDelimiting := by
  intro bs as rest hb
  obtain ⟨n, rest', hn, hle, hw⟩ := packed_eq_ok_iff.1 hb
  obtain ⟨front, rfl, hfront⟩ := selfDelimiting_varint _ _ _ hn
  obtain ⟨front', rfl, hfront'⟩ := h.within _ _ _ _ _ hw
  refine ⟨front ++ front', (List.append_assoc _ _ _).symm, fun tail => ?_⟩
  rw [List.append_assoc]
  have hlen := length_of_within (hfront' tail)
  exact packed_eq_ok_iff.2 ⟨n, front' ++ tail, hfront _, by omega, hfront' tail⟩

theorem selfDelimiting_scalar (t : ScalarType) : (scalar t).SelfDelimiting := by
  cases t
  case double | fixed64 | sfixed64 => exact (selfDelimiting_fixed 8 (by decide)).map _
  case float | fixed32 | sfixed32 => exact (selfDelimiting_fixed 4 (by decide)).map _
  case int32 => exact (selfDelimiting_varint.map _).map _
  case string => exact (selfDelimiting_delimited.check _).map _
  case bytes => exact selfDelimiting_delimited.map _
  all_goals exact selfDelimiting_varint.map _

/-! ## Unknown fields -/

section Group

variable {tag : Nat} {inner : Key → Reader WireFault Unit} {bs rest rest' : Bytes} {k : Key}

theorem skipGroup_end (h : key.read bs = .ok (k, rest)) (hend : k.type = .endGroup) :
    skipGroup tag inner bs =
      if k.tag = tag then .ok ((), rest) else .error .unexpectedEndGroup := by
  rw [skipGroup]
  split
  · next e he => rw [h] at he; simp at he
  · next k' tail hk =>
    obtain ⟨rfl, rfl⟩ : k = k' ∧ rest = tail := by simpa [h] using hk
    rw [if_pos hend]

theorem skipGroup_inner (h : key.read bs = .ok (k, rest)) (hend : k.type ≠ .endGroup)
    (hi : (inner k).read rest = .ok ((), rest')) :
    skipGroup tag inner bs = skipGroup tag inner rest' := by
  rw [skipGroup]
  split
  · next e he => rw [h] at he; simp at he
  · next k' tail hk =>
    obtain ⟨rfl, rfl⟩ : k = k' ∧ rest = tail := by simpa [h] using hk
    rw [if_neg hend]
    split
    · next e he => rw [hi] at he; simp at he
    · next u tail hu =>
      obtain rfl : rest' = tail := by simpa [hi] using hu
      rfl

end Group

theorem SelfDelimiting.skipGroup {inner : Key → Reader WireFault Unit}
    (h : ∀ k, (inner k).SelfDelimiting) (tag : Nat) : TakesFront (skipGroup tag inner) := by
  intro bs u rest hs
  fun_induction Reader.skipGroup tag inner bs with
  | case1 => simp at hs
  | case2 bs k rest' hk hend htag =>
    obtain ⟨-, rfl⟩ := Prod.mk.inj (Except.ok.inj hs)
    obtain ⟨front, rfl, hfront⟩ := selfDelimiting_key _ _ _ hk
    refine ⟨front, rfl, fun tail => ?_⟩
    rw [skipGroup_end (hfront tail) hend, if_pos htag]
  | case3 => simp at hs
  | case4 => simp at hs
  | case5 bs k rest' hk hend u rest'' hi ih =>
    obtain ⟨front, rfl, hfront⟩ := selfDelimiting_key _ _ _ hk
    obtain ⟨front', rfl, hfront'⟩ := h k _ _ _ hi
    obtain ⟨front'', rfl, hfront''⟩ := ih hs
    refine ⟨front ++ (front' ++ front''), by simp only [List.append_assoc], fun tail => ?_⟩
    simp only [List.append_assoc]
    rw [skipGroup_inner (hfront _) hend (hfront' _)]
    exact hfront'' tail

theorem selfDelimiting_skip (budget : Nat) (k : Key) : (skip budget k).SelfDelimiting := by
  induction budget generalizing k with
  | zero => exact selfDelimiting_fail _
  | succ budget ih =>
    obtain ⟨tag, type⟩ := k
    cases type with
    | varint => exact selfDelimiting_varint.map _
    | eightBytes => exact (selfDelimiting_fixed 8 (by decide)).map _
    | delimited => exact selfDelimiting_delimited.map _
    | startGroup => exact SelfDelimiting.skipGroup ih tag
    | endGroup => exact selfDelimiting_fail _
    | fourBytes => exact (selfDelimiting_fixed 4 (by decide)).map _

end ProtoSchema.Reader
