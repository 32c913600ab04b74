import ProtoSchema.Proofs.Wire.Front

/-!
# Complete records

What one complete record of a field is, whether or not anyone knows the field: a key, and behind it a
varint, four or eight bytes, as many bytes as a length says, or a group of complete records up to its
end key (`Wire.IsRecord`).

Reading past a field takes exactly this off its input: what it takes is complete
(`Reader.isPayload_of_skip`), and behind something complete it does not go on (`Reader.rest_of_skip`).
It only refuses groups that nest too deep.
-/

namespace ProtoSchema

namespace Wire

/-- The bytes are a varint of the number, with nothing behind it. -/
def IsVarint (n : Nat) (bs : Bytes) : Prop := Reader.varint.read bs = .ok (n, [])

/-- The bytes are the key, with nothing behind it. -/
def IsKey (k : Key) (bs : Bytes) : Prop := Reader.key.read bs = .ok (k, [])

/-- The bytes are what stands behind the key of one complete record. A group holds complete records
and ends with an end key of its own number. -/
inductive IsPayload : Key → Bytes → Prop
  | varint {tag n : Nat} {bs : Bytes} (h : IsVarint n bs) : IsPayload ⟨tag, .varint⟩ bs
  | eightBytes {tag : Nat} {bs : Bytes} (h : bs.length = 8) : IsPayload ⟨tag, .eightBytes⟩ bs
  | delimited {tag : Nat} {length bs : Bytes} (h : IsVarint bs.length length) :
    IsPayload ⟨tag, .delimited⟩ (length ++ bs)
  | groupEnd {tag : Nat} {close : Bytes} (h : IsKey ⟨tag, .endGroup⟩ close) :
    IsPayload ⟨tag, .startGroup⟩ close
  | groupRecord {tag : Nat} {k : Key} {key payload rest : Bytes} (hkey : IsKey k key)
    (hpayload : IsPayload k payload) (hrest : IsPayload ⟨tag, .startGroup⟩ rest) :
    IsPayload ⟨tag, .startGroup⟩ (key ++ (payload ++ rest))
  | fourBytes {tag : Nat} {bs : Bytes} (h : bs.length = 4) : IsPayload ⟨tag, .fourBytes⟩ bs

/-- The bytes are one complete record of the field number. -/
def IsRecord (number : Nat) (bs : Bytes) : Prop :=
  ∃ type key payload, IsKey ⟨number, type⟩ key ∧ IsPayload ⟨number, type⟩ payload ∧
    bs = key ++ payload

theorem IsPayload.ne_endGroup {k : Key} {bs : Bytes} (h : IsPayload k bs) :
    k.type ≠ .endGroup := by
  cases h <;> exact WireType.noConfusion

end Wire

namespace Reader

open Wire

variable {ε α β : Type} {r : Reader ε α}

/-! ## Fronts -/

/-- What is read stays the same when more stands behind the input. -/
theorem SelfDelimiting.append (h : r.SelfDelimiting) {bs rest : Bytes} {a : α}
    (hr : r.read bs = .ok (a, rest)) (tail : Bytes) :
    r.read (bs ++ tail) = .ok (a, rest ++ tail) := by
  obtain ⟨front, rfl, hfront⟩ := h _ _ _ hr
  rw [List.append_assoc]
  exact hfront _

/-- What is read could have been read alone. -/
theorem SelfDelimiting.exists_front (h : r.SelfDelimiting) {bs rest : Bytes} {a : α}
    (hr : r.read bs = .ok (a, rest)) : ∃ front, bs = front ++ rest ∧ r.read front = .ok (a, []) := by
  obtain ⟨front, rfl, hfront⟩ := h _ _ _ hr
  refine ⟨front, rfl, ?_⟩
  simpa using hfront []

theorem length_of_fixed {count : Nat} {pos : 0 < count} {n : Nat} {bs rest : Bytes}
    (h : (fixed count pos).read bs = .ok (n, rest)) : bs.length = count + rest.length := by
  unfold fixed at h
  simp only at h
  split at h
  · simp at h
  · obtain ⟨-, rfl⟩ := Prod.mk.inj (Except.ok.inj h)
    rw [List.length_drop]
    omega

theorem read_fixed_of_length {count : Nat} (pos : 0 < count) {bs : Bytes} (h : bs.length = count) :
    (fixed count pos).read bs = .ok (ofFixed bs, []) := by
  unfold fixed
  simp only
  rw [if_neg (by omega), List.take_of_length_le (by omega), List.drop_of_length_le (by omega)]

theorem read_delimited_of_isVarint {length bs : Bytes} (h : IsVarint bs.length length) :
    delimited.read (length ++ bs) = .ok (bs, []) := by
  rw [delimited_eq_ok_iff, List.append_nil]
  exact selfDelimiting_varint.append h bs

/-! ## Groups -/

/-- A group goes on with its end key, or with a record and then the rest of the group. -/
theorem skipGroup_eq_ok_iff {tag : Nat} {inner : Key → Reader WireFault Unit} {bs rest : Bytes} :
    skipGroup tag inner bs = .ok ((), rest) ↔
      ∃ k left, key.read bs = .ok (k, left) ∧
        (k = ⟨tag, .endGroup⟩ ∧ left = rest ∨ k.type ≠ .endGroup ∧ ∃ left',
          (inner k).read left = .ok ((), left') ∧ skipGroup tag inner left' = .ok ((), rest)) := by
  constructor
  · intro h
    rw [skipGroup] at h
    split at h
    · simp at h
    · next k left hk =>
      refine ⟨k, left, hk, ?_⟩
      split at h
      · next hend =>
        split at h
        · next htag => exact Or.inl ⟨by rw [← htag, ← hend], (Prod.mk.inj (Except.ok.inj h)).2⟩
        · simp at h
      · next hend =>
        split at h
        · simp at h
        · next u left' hi => exact Or.inr ⟨hend, left', hi, h⟩
  · rintro ⟨k, left, hk, ⟨rfl, rfl⟩ | ⟨hend, left', hi, hrest⟩⟩
    · rw [skipGroup_end hk rfl, if_pos rfl]
    · rwa [skipGroup_inner hk hend hi]

/-! ## Reading past complete records -/

theorem rest_of_map {f : α → β} {a : α} {b : β} {bs tail rest : Bytes} (h : r.SelfDelimiting)
    (hr : r.read bs = .ok (a, [])) (hs : (r.map f).read (bs ++ tail) = .ok (b, rest)) :
    rest = tail := by
  rw [read_map f (h.append hr tail)] at hs
  simpa using (Prod.mk.inj (Except.ok.inj hs)).2.symm

/-- **Reading past a complete record ends where the record ends**, if it is not refused for the
nesting. -/
theorem rest_of_skip {k : Key} {bs : Bytes} (h : IsPayload k bs) {budget : Nat} {tail rest : Bytes}
    (hs : (skip (budget + 1) k).read (bs ++ tail) = .ok ((), rest)) : rest = tail := by
  induction h generalizing budget tail rest with
  | varint h => exact rest_of_map selfDelimiting_varint h hs
  | eightBytes h => exact rest_of_map (selfDelimiting_fixed 8 _) (read_fixed_of_length _ h) hs
  | delimited h => exact rest_of_map selfDelimiting_delimited (read_delimited_of_isVarint h) hs
  | fourBytes h => exact rest_of_map (selfDelimiting_fixed 4 _) (read_fixed_of_length _ h) hs
  | groupEnd h =>
    obtain ⟨k, left, hk, hgroup⟩ := skipGroup_eq_ok_iff.1 hs
    rw [selfDelimiting_key.append h tail] at hk
    obtain ⟨rfl, rfl⟩ := Prod.mk.inj (Except.ok.inj hk)
    rcases hgroup with ⟨-, rfl⟩ | ⟨hend, -⟩
    · rfl
    · exact absurd rfl hend
  | groupRecord hkey hpayload hrest ihpayload ihrest =>
    obtain ⟨k, left, hk, hgroup⟩ := skipGroup_eq_ok_iff.1 hs
    rw [List.append_assoc, selfDelimiting_key.append hkey] at hk
    obtain ⟨rfl, rfl⟩ := Prod.mk.inj (Except.ok.inj hk)
    rcases hgroup with ⟨rfl, -⟩ | ⟨-, left', hi, hgroup⟩
    · exact absurd rfl hpayload.ne_endGroup
    · cases budget with
      | zero => cases hi
      | succ budget =>
        rw [List.nil_append, List.append_assoc] at hi
        obtain rfl := ihpayload hi
        exact @ihrest (budget + 1) _ _ hgroup

theorem isPayload_of_skipGroup {tag : Nat} {inner : Key → Reader WireFault Unit} {bs rest : Bytes}
    (hinner : ∀ k bs rest, (inner k).read bs = .ok ((), rest) →
      ∃ payload, bs = payload ++ rest ∧ IsPayload k payload)
    (h : skipGroup tag inner bs = .ok ((), rest)) :
    ∃ payload, bs = payload ++ rest ∧ IsPayload ⟨tag, .startGroup⟩ payload := by
  fun_induction skipGroup tag inner bs with
  | case1 => simp at h
  | case2 bs k left hk hend htag =>
    obtain ⟨-, rfl⟩ := Prod.mk.inj (Except.ok.inj h)
    obtain ⟨front, rfl, hfront⟩ := selfDelimiting_key.exists_front hk
    have hk : k = ⟨tag, .endGroup⟩ := by rw [← htag, ← hend]
    exact ⟨front, rfl, .groupEnd (hk ▸ hfront)⟩
  | case3 => simp at h
  | case4 => simp at h
  | case5 bs k left hk hend u left' hi ih =>
    obtain ⟨front, rfl, hfront⟩ := selfDelimiting_key.exists_front hk
    obtain ⟨payload, rfl, hpayload⟩ := hinner k _ _ hi
    obtain ⟨others, rfl, hothers⟩ := ih h
    refine ⟨front ++ (payload ++ others), ?_, .groupRecord hfront hpayload hothers⟩
    simp only [List.append_assoc]

/-- **What reading past a field takes off its input is complete.** -/
theorem isPayload_of_skip {budget : Nat} {k : Key} {bs rest : Bytes}
    (h : (skip budget k).read bs = .ok ((), rest)) :
    ∃ payload, bs = payload ++ rest ∧ IsPayload k payload := by
  induction budget generalizing k bs rest with
  | zero => cases h
  | succ budget ih =>
    obtain ⟨tag, type⟩ := k
    cases type with
    | varint =>
      obtain ⟨n, hn, -⟩ := map_eq_ok_iff.1 h
      obtain ⟨front, rfl, hfront⟩ := selfDelimiting_varint.exists_front hn
      exact ⟨front, rfl, .varint hfront⟩
    | eightBytes =>
      obtain ⟨n, hn, -⟩ := map_eq_ok_iff.1 h
      obtain ⟨front, rfl, hfront⟩ := (selfDelimiting_fixed 8 _).exists_front hn
      exact ⟨front, rfl, .eightBytes (length_of_fixed hfront)⟩
    | fourBytes =>
      obtain ⟨n, hn, -⟩ := map_eq_ok_iff.1 h
      obtain ⟨front, rfl, hfront⟩ := (selfDelimiting_fixed 4 _).exists_front hn
      exact ⟨front, rfl, .fourBytes (length_of_fixed hfront)⟩
    | delimited =>
      obtain ⟨body, hbody, -⟩ := map_eq_ok_iff.1 h
      obtain ⟨front, rfl, hfront⟩ :=
        selfDelimiting_varint.exists_front (delimited_eq_ok_iff.1 hbody)
      exact ⟨front ++ body, (List.append_assoc _ _ _).symm, .delimited hfront⟩
    | startGroup => exact isPayload_of_skipGroup (fun k bs rest => ih) h
    | endGroup => cases h

end Reader

end ProtoSchema
