import ProtoSchema.Proofs.Message.Sequence

/-!
# Truncated messages

The bytes of a message are a record for each of its values (`Message.records`). A reader that reads all
of an input refuses every shorter front of it (`Reader.refuses_prefix`), so **the bytes of a message that
are cut off can be decoded only where one record ends and the next begins**, and then give the values
whose records are left (`Message.Made.decode_take`).
-/

namespace ProtoSchema

open Reader Wire

/-- **A reader that reads all of an input refuses every shorter front of it**, if it takes the same
whatever stands behind. -/
theorem Reader.refuses_prefix {ε α : Type} {r : Reader ε α} (h : r.SelfDelimiting) {bs front : Bytes}
    {a : α} (hr : r.read bs = .ok (a, [])) (hfront : front <+: bs) (hne : front ≠ bs) :
    ∃ e, r.read front = .error e := by
  cases hread : r.read front with
  | error e => exact ⟨e, rfl⟩
  | ok x =>
    obtain ⟨b, rest⟩ := x
    obtain ⟨tail, rfl⟩ := hfront
    rw [h.append hread tail] at hr
    have hnil := (Prod.mk.inj (Except.ok.inj hr)).2
    rw [(List.append_eq_nil_iff.1 hnil).2, List.append_nil] at hne
    exact absurd rfl hne

/-- A front of lists one behind the other ends between two of them or inside one. -/
theorem exists_cut {α : Type} {parts : List (List α)} {k : Nat} (hk : k ≤ parts.flatten.length) :
    (∃ j ≤ parts.length, k = (parts.take j).flatten.length) ∨
      ∃ j part front, part ∈ parts ∧ front <+: part ∧ front ≠ [] ∧ front ≠ part ∧
        parts.flatten.take k = (parts.take j).flatten ++ front := by
  induction parts generalizing k with
  | nil => exact Or.inl ⟨0, Nat.le_refl 0, Nat.le_zero.1 hk⟩
  | cons part parts ih =>
    by_cases hlt : k < part.length
    · by_cases hzero : k = 0
      · exact Or.inl ⟨0, Nat.zero_le _, hzero⟩
      · have hlen : (part.take k).length = k := List.length_take_of_le (Nat.le_of_lt hlt)
        refine Or.inr ⟨0, part, part.take k, List.mem_cons_self, List.take_prefix _ _, ?_, ?_, ?_⟩
        · intro hnil
          rw [hnil] at hlen
          exact hzero hlen.symm
        · intro heq
          rw [heq] at hlen
          omega
        · rw [List.flatten_cons, List.take_append_of_le_length (Nat.le_of_lt hlt)]
          rfl
    · -- The first part is left whole.
      rw [List.flatten_cons, List.length_append] at hk
      rcases ih (k := k - part.length) (by omega) with ⟨j, hj, hcut⟩ | ⟨j, q, front, hq, hcut⟩
      · refine Or.inl ⟨j + 1, Nat.succ_le_succ hj, ?_⟩
        rw [List.take_succ_cons, List.flatten_cons, List.length_append]
        omega
      · obtain ⟨hfront, hnil, hne, htake⟩ := hcut
        refine Or.inr ⟨j + 1, q, front, List.mem_cons_of_mem _ hq, hfront, hnil, hne, ?_⟩
        rw [List.take_succ_cons, List.flatten_cons, List.flatten_cons, List.append_assoc, ← htake,
          List.take_append, List.take_of_length_le (Nat.not_lt.1 hlt)]

/-! ## The first values of a content -/

namespace Content

variable {p : Pool} {t j : Nat} {c : Content}

theorem Typed.take (h : Typed p t c) (j : Nat) : Typed p t (c.take j) :=
  ⟨fun x hx => h.belongs x (List.mem_of_mem_take hx), h.ordered.sublist (List.take_sublist _ _)⟩

theorem depth_take_le (c : Content) (j : Nat) : depth (c.take j) ≤ depth c :=
  depth_le_iff.2 fun x hx => depth_le_iff.1 (Nat.le_refl _) x (List.mem_of_mem_take hx)

/-- **The record of a value is read as the value.** -/
theorem Typed.read_record (h : Typed p t c) (hp : p.Sound) {budget : Nat}
    (hdepth : depth c ≤ budget) (hlen : (encode p t c).Addressable) {x : Nat × Element} (hx : x ∈ c) :
    (Decode.record p t (Decode.content p budget)).read (record p t x) = .ok ([x], []) := by
  obtain ⟨f, hf, htyped⟩ := h.belongs x hx
  have hlen' := addressable_record hlen hx
  rw [record_eq hf] at hlen' ⊢
  have hread := htyped.readsBack hp t budget f (MessageDef.mem_of_field? hf) rfl hlen' []
  rw [List.append_nil, if_pos (depth_le_iff.1 hdepth x hx), MessageDef.number_of_field? hf] at hread
  exact hread

end Content

namespace Message

/-- The records of the values of the message, in the order in which they are written. -/
def records (m : Message) : List Bytes :=
  m.content.map (Content.record m.type.schema.pool m.type.index)

/-- The message with its first values only. -/
def take (m : Message) (j : Nat) : Message := { m with content := m.content.take j }

variable {m : Message}

theorem flatten_records (m : Message) : m.records.flatten = m.encode :=
  Content.encode_eq_flatMap.symm

/-- The first records stand in front of the others. -/
theorem encode_eq_append (m : Message) (j : Nat) :
    m.encode = (m.records.take j).flatten ++ (m.records.drop j).flatten := by
  rw [← List.flatten_append, List.take_append_drop, flatten_records]

theorem records_take (m : Message) (j : Nat) : (m.take j).records = m.records.take j :=
  List.map_take

/-- The records of the first values are those of a message of its own. -/
theorem Made.decode_records_take (h : m.Made) (hdepth : m.depth ≤ 100) (hlen : m.encode.Addressable)
    (j : Nat) : decode m.type (m.records.take j).flatten = .ok (m.take j) := by
  have hencode : (m.records.take j).flatten =
      Content.encode m.type.schema.pool m.type.index (m.content.take j) := by
    rw [← records_take, flatten_records]
    rfl
  have hshort : Bytes.Addressable (m.records.take j).flatten := by
    refine hlen.of_le ?_
    rw [m.encode_eq_append j, List.length_append]
    exact Nat.le_add_right _ _
  rw [hencode] at hshort
  have hback := (h.sound.typed.take j).readsBack h.sound.reachable.sound hshort 101
  rw [if_pos (Nat.lt_succ_of_le ((Content.depth_take_le _ j).trans hdepth))] at hback
  rw [hencode, decode, Decode.nestingBudget, hback]
  rfl

/-- **Truncation is noticed.** The bytes of a message are one complete record for each of its values.
Cut off behind some of the records, they are decoded as the message with as many values; cut off
anywhere else, they are refused. -/
theorem Made.decode_take (h : m.Made) (hdepth : m.depth ≤ 100) (hlen : m.encode.Addressable)
    {k : Nat} (hk : k ≤ m.encode.length) :
    m.encode = m.records.flatten ∧
      List.Forall₂ (fun x r => IsRecord x.1 r) m.content m.records ∧
      (∀ j ≤ m.records.length, k = (m.records.take j).flatten.length →
        decode m.type (m.encode.take k) = .ok (m.take j)) ∧
      ((¬∃ j ≤ m.records.length, k = (m.records.take j).flatten.length) →
        ∃ fault, decode m.type (m.encode.take k) = .error fault) := by
  have hread : ∀ x ∈ m.content, _ := fun x hx =>
    h.sound.typed.read_record h.sound.reachable.sound hdepth hlen hx
  refine ⟨(flatten_records m).symm, ?_, ?_, ?_⟩
  · rw [records, List.forall₂_map_right_iff, List.forall₂_same]
    intro x hx
    obtain ⟨n, front, hfront, hrecord, hn⟩ := Decode.isRecord_of_record (hread x hx)
    rw [hn x (List.mem_singleton_self x), hfront, List.append_nil]
    exact hrecord
  · rintro j - rfl
    have htake : m.encode.take (m.records.take j).flatten.length = (m.records.take j).flatten := by
      rw [m.encode_eq_append j, List.take_left]
    rw [htake]
    exact h.decode_records_take hdepth hlen j
  · intro hcut
    rw [← flatten_records] at hk
    rcases exists_cut hk with hj | ⟨j, r, front, hr, hfront, hne, hshort, htake⟩
    · exact absurd hj hcut
    · -- What is left of the record that was cut is read behind the records that are whole.
      obtain ⟨x, hx, rfl⟩ := List.mem_map.1 hr
      obtain ⟨e, he⟩ := refuses_prefix Decode.selfDelimiting_record (hread x hx) hfront hshort
      obtain ⟨c, hc, -⟩ := Traverse.map_eq_ok.1 (h.decode_records_take hdepth hlen j)
      have hrest : Decode.content m.type.schema.pool 101 m.type.index front = .error e := by
        rw [Decode.content_eq, all_error hne he]
        rfl
      refine ⟨e, ?_⟩
      rw [← flatten_records, htake, decode, Decode.content_append hc, Decode.nestingBudget, hrest]
      rfl

/-- A link that holds one with a mark and has a mark itself: the bytes of the inner link may not be
cut off in the middle, although its own first bytes are those of a link. -/
theorem Made.decode_take_chain : ∃ m : Message,
    m.type = ⟨⟨0, Pool.chain⟩, 0⟩ ∧ m.encode = [10, 2, 16, 1, 16, 5] ∧
      (∃ fault, decode m.type [10, 2] = .error fault) ∧
        decode m.type [10, 2, 16, 1] = .ok ⟨⟨⟨0, Pool.chain⟩, 0⟩, Content.marked 1⟩ := by
  let marked : Message := ⟨⟨⟨0, Pool.chain⟩, 0⟩, Content.marked 1⟩
  let m : Message := ⟨⟨⟨0, Pool.chain⟩, 0⟩, [(1, .message [(2, .scalar (.int32 1))]),
    (2, .scalar (.int32 5))]⟩
  have hmarked : marked.Made := .decode Pool.reachable_chain (decode_marked (n := 1) (by decide))
  have hadd : marked.add (.number 2) (.scalar (.int32 5)) = .ok m :=
    add_eq_ok_iff.2 ⟨_, .scalar (.int32 5), MessageType.select_number rfl, rfl, rfl, rfl⟩
  have hmade : m.Made := .add (s := .number 2) hmarked trivial (.scalar _) hadd
  have hrecords : m.records = [[10, 2, 16, 1], [16, 5]] := by
    simp [m, records, Content.record, Content.encode, Element.encode, Pool.message, Pool.chain,
      MessageDef.field?, Wire.key, Wire.delimited, Scalar.payload, Wire.signed, Wire.varint_of_lt,
      ScalarType.wireType, WireType.number, Numeral.span]
  have hencode : m.encode = [10, 2, 16, 1, 16, 5] := by
    rw [← flatten_records, hrecords]
    rfl
  have hlen : m.encode.Addressable := by
    rw [hencode]
    show 6 < Numeral.span 64
    decide
  have hdepth : m.depth ≤ 100 := by
    simp [depth, Content.depth, Element.depth, m]
  have hle : ∀ k ≤ 6, k ≤ m.encode.length := by
    rw [hencode]
    exact fun k hk => hk
  refine ⟨m, rfl, hencode, ?_, ?_⟩
  · have hcut := (Made.decode_take hmade hdepth hlen (hle 2 (by decide))).2.2.2
    rw [hrecords, hencode] at hcut
    exact hcut (by decide)
  · have hwhole := (Made.decode_take hmade hdepth hlen (hle 4 (by decide))).2.2.1 1
    rw [hrecords, hencode] at hwhole
    exact hwhole (by decide) rfl

end Message

end ProtoSchema
