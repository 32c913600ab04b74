import ProtoSchema.Proofs.Message.Merge
import ProtoSchema.Proofs.Message.Roundtrip
import ProtoSchema.Proofs.Wire.Front

/-!
# Decoding one input behind another

The records of a message are told apart whatever stands behind them, so two inputs, one behind the
other, hold the records of the first and then those of the second. Hence **decoding both is merging
what each of them gives**, and if only the second is refused, both are refused for the same fault
(`Message.decode_append`).

The records need not be read apart from what is there already. Reading them into one content, and what
they have of a nested message into the one that it holds (`Decode.contentInto`), is merging into it
what is read of them (`Decode.contentInto_eq`).
-/

namespace ProtoSchema

open Reader

namespace Decode

variable {p : Pool} {t budget : Nat} {body : Nat → Bytes → Except WireFault Content}

theorem selfDelimiting_values {α : Type} {r : Reader WireFault α} (h : r.SelfDelimiting)
    (packs : Bool) (actual expected : WireType) : (values packs actual expected r).SelfDelimiting := by
  unfold values
  split
  · exact h.packed _
  · exact (h.ofType _ _).map _

theorem selfDelimiting_elements (f : FieldDef) (type : WireType) :
    (elements p f type body).SelfDelimiting := by
  unfold elements
  cases f.kind with
  | scalar t => exact (selfDelimiting_values (selfDelimiting_scalar t) _ _ _).map _
  | enum k => exact (selfDelimiting_values (selfDelimiting_varint.map _) _ _ _).map _
  | message u => exact (selfDelimiting_delimited.ofType _ _).check _

/-- **A record ends where it ends, whatever stands behind it.** -/
theorem selfDelimiting_record : (record p t body).SelfDelimiting := by
  refine selfDelimiting_key.bind fun k => ?_
  cases (p.message t).field? k.tag with
  | none => exact (selfDelimiting_skip groupBudget k).map _
  | some f => exact (selfDelimiting_elements f k.type).map _

/-- A content is what its records give, merged as one. -/
theorem content_eq (bs : Bytes) : content p (budget + 1) t bs =
    ((record p t (content p budget)).all bs).map fun parts => Content.merge p t [] parts.flatten := by
  rw [content]
  simp only [Content.foldl_merge_eq]

theorem belongs_of_all {bs : Bytes} {parts : List Content}
    (h : (record p t (content p budget)).all bs = .ok parts) :
    ∀ x ∈ parts.flatten, Content.Belongs p t x := by
  intro x hx
  obtain ⟨part, hpart, hx⟩ := List.mem_flatten.1 hx
  exact (of_mem_all (yields_record fun _ _ _ hc => content_typed hc) h part hpart x hx).1

/-- **What one input behind another gives is what the second gives, merged into what the first
does.** -/
theorem content_append {as : Bytes} {c : Content} (h : content p budget t as = .ok c) (bs : Bytes) :
    content p budget t (as ++ bs) = (content p budget t bs).map (Content.merge p t c) := by
  cases budget with
  | zero => simp [content] at h
  | succ budget =>
    rw [content_eq] at h ⊢
    obtain ⟨parts, hparts, rfl⟩ := Traverse.map_eq_ok.1 h
    rw [all_append selfDelimiting_record hparts, content_eq]
    cases hbs : (record p t (content p budget)).all bs with
    | error e => rfl
    | ok parts' =>
      have hfirst := Content.typed_nil.merge (belongs_of_all hparts)
      simp only [Except.map]
      rw [List.flatten_append, Content.merge_append, hfirst.merge_merge_nil (belongs_of_all hbs)]

end Decode

/-! ## Reading into a content -/

namespace Content

/-- The message that a field holds, for another one to be read into. -/
def held (f : FieldDef) (c : Content) : Content :=
  match f.isRepeated, values f.number c with
  | false, .message d :: _ => d
  | _, _ => []

/-- Puts a value that was read behind those of its field, or in the place of the one that it holds. -/
def put (f : FieldDef) (c : Content) (e : Element) : Content :=
  if f.isRepeated then append f.number [e] c else replace f.number [e] c

variable {p : Pool} {t : Nat} {c d : Content} {f : FieldDef}

/-- Values that are put one after the other are merged, if there is nothing in them to be merged. -/
theorem foldl_put (hf : (p.message t).field? f.number = some f) {es : List Element}
    (hes : ∀ e ∈ es, ∀ old, e.mergeInto p f.kind old = e) (c : Content) :
    es.foldl (put f) c = merge p t c (es.map (f.number, ·)) := by
  induction es generalizing c with
  | nil => rw [List.foldl_nil, List.map_nil, merge]
  | cons e es ih =>
    rw [List.forall_mem_cons] at hes
    rw [List.foldl_cons, List.map_cons, merge_cons e _ hf, hes.1, ih hes.2, put]

theorem Typed.held {u : Nat} (h : Typed p t c) (hf : (p.message t).field? f.number = some f)
    (hkind : f.kind = .message u) : Typed p u (held f c) := by
  unfold Content.held
  split
  · next d rest _ hv =>
    have hd : (Element.message d).Typed p f.kind :=
      h.of_mem_values hf (hv ▸ List.mem_cons_self)
    rw [hkind] at hd
    exact typed_message_iff.1 hd
  · exact typed_nil

/-- A message that is merged into the one that its field holds may be put in its place. -/
theorem Typed.put_message {u : Nat} (h : Typed p t c)
    (hf : (p.message t).field? f.number = some f) (hkind : f.kind = .message u)
    (hd : Typed p u d) : put f c (.message (Content.merge p u (Content.held f c) d)) =
      Content.merge p t c [(f.number, .message d)] := by
  rw [merge_cons _ _ hf, Content.merge, put, Content.held]
  cases hrep : f.isRepeated with
  | true => rw [if_pos rfl, if_pos rfl, hd.nil_merge]
  | false =>
    rw [if_neg (by decide), if_neg (by decide), hkind]
    obtain hnil | ⟨e, he, htyped⟩ := h.values_cases hf hrep
    · rw [hnil, List.head?_nil, Element.mergeInto_none, hd.nil_merge]
    · rw [hkind] at htyped
      cases htyped with
      | message => rw [he, List.head?_cons, Element.mergeInto]

end Content

namespace Decode

/-- Reads one record of a message of the type into the content. What a record of a field that is not
repeated has of a message is read into the one that the field holds. -/
def recordInto (p : Pool) (t : Nat) (body : Nat → Content → Bytes → Except WireFault Content)
    (c : Content) : Reader WireFault Content :=
  Reader.key.bind fun k =>
    match (p.message t).field? k.tag with
    | some f => (elements p f k.type fun u => body u (c.held f)).map (·.foldl (Content.put f) c)
    | none => (Reader.skip groupBudget k).map fun _ => c

/-- Reads the records of a message of the type into the content, one after the other. -/
def contentInto (p : Pool) :
    (budget : Nat) → (t : Nat) → Content → Bytes → Except WireFault Content
  | 0, _, _, _ => .error .recursionLimit
  | budget + 1, t, c, bs => Reader.thread (recordInto p t (contentInto p budget)) c bs

variable {p : Pool} {t budget : Nat} {body : Nat → Bytes → Except WireFault Content}
  {into : Nat → Content → Bytes → Except WireFault Content} {c : Content}

theorem elements_into {f : FieldDef} (hf : (p.message t).field? f.number = some f)
    (hbody : ∀ u bs d, body u bs = .ok d → Content.Typed p u d)
    (hinto : ∀ u d bs, Content.Typed p u d → into u d bs = (body u bs).map (Content.merge p u d))
    (hc : Content.Typed p t c) (type : WireType) :
    (elements p f type fun u => into u (c.held f)).map (·.foldl (Content.put f) c) =
      (elements p f type body).map fun es => Content.merge p t c (es.map (f.number, ·)) := by
  unfold elements
  cases hkind : f.kind with
  | scalar s =>
    rw [map_map, map_map]
    congr 1
    funext vs
    refine Content.foldl_put hf ?_ c
    rw [List.forall_mem_map]
    intro v _ old
    rw [Element.mergeInto]
  | enum k =>
    rw [map_map, map_map]
    congr 1
    funext ns
    refine Content.foldl_put hf ?_ c
    intro e he old
    obtain ⟨n, -, hn⟩ := List.mem_filterMap.1 he
    obtain ⟨i, -, rfl⟩ := Option.map_eq_some_iff.1 hn
    rw [Element.mergeInto]
  | message u =>
    rw [map_check, map_check]
    congr 1
    funext bs
    simp only [hinto u _ bs (hc.held hf hkind)]
    cases hd : body u bs with
    | error e => rfl
    | ok d => exact congrArg Except.ok (hc.put_message hf hkind (hbody u bs d hd))

/-- **A record that is read into a content gives what is read of it, merged into the content**, if
nested messages are read so. -/
theorem recordInto_eq (hbody : ∀ u bs d, body u bs = .ok d → Content.Typed p u d)
    (hinto : ∀ u d bs, Content.Typed p u d → into u d bs = (body u bs).map (Content.merge p u d))
    (hc : Content.Typed p t c) :
    recordInto p t into c = (record p t body).map (Content.merge p t c) := by
  rw [recordInto, record, map_bind]
  congr 1
  funext k
  cases hf : (p.message t).field? k.tag with
  | none =>
    simp only [map_map]
    rw [Content.merge]
  | some f =>
    rw [← MessageDef.number_of_field? hf] at hf
    simp only [map_map]
    exact elements_into hf hbody hinto hc k.type

/-- **Reading into a content is merging into it what is read**, down to the innermost messages. -/
theorem contentInto_eq (hc : Content.Typed p t c) (bs : Bytes) :
    contentInto p budget t c bs = (content p budget t bs).map (Content.merge p t c) := by
  induction budget generalizing t c bs with
  | zero => rfl
  | succ budget ih =>
    have hthread : thread (recordInto p t (contentInto p budget)) c bs =
        ((record p t (content p budget)).all bs).map (·.foldl (Content.merge p t) c) := by
      refine thread_eq (I := Content.Typed p t) (yields_record fun _ _ _ h => content_typed h) ?_ ?_
        hc bs
      · intro c hc
        exact recordInto_eq (fun _ _ _ h => (content_typed h).1) (fun _ _ bs hd => ih hd bs) hc
      · intro c part hc hpart
        exact hc.merge fun x hx => (hpart x hx).1
    rw [contentInto, content_eq, hthread]
    cases hbs : (record p t (content p budget)).all bs with
    | error e => rfl
    | ok parts =>
      simp only [Except.map]
      rw [Content.foldl_merge_eq, hc.merge_merge_nil (belongs_of_all hbs)]

/-- The content of a message is what is read into nothing. -/
theorem content_eq_contentInto (bs : Bytes) :
    content p budget t bs = contentInto p budget t [] bs := by
  rw [contentInto_eq Content.typed_nil]
  cases hc : content p budget t bs with
  | error e => rfl
  | ok c => exact congrArg Except.ok (content_typed hc).1.nil_merge.symm

end Decode

/-- **A message is decoded by reading one record after the other into one content**, and what a record
has of a nested message into the one that is there already. -/
theorem Message.decode_eq_contentInto (type : MessageType) (bs : Bytes) : decode type bs =
    (Decode.contentInto type.schema.pool Decode.nestingBudget type.index [] bs).map (⟨type, ·⟩) := by
  rw [decode, Decode.content_eq_contentInto]

/-! ## Messages that stand one behind the other -/

/-- **Decoding one input behind another is merging what each of them gives.** If the first can be
decoded and the second cannot, both together are refused for the fault of the second. -/
theorem Message.decode_append {type : MessageType} {a b : Bytes} {m : Message}
    (h : decode type a = .ok m) :
    (∀ n, decode type b = .ok n → ∃ c, decode type (a ++ b) = .ok ⟨type, c⟩ ∧
      ∀ c', Content.Merged type.schema.pool type.index m.content n.content c' ↔ c' = c) ∧
        ∀ e, decode type b = .error e → decode type (a ++ b) = .error e := by
  obtain ⟨c, hc, rfl⟩ := Traverse.map_eq_ok.1 h
  have happend := Decode.content_append hc b
  constructor
  · intro n hn
    obtain ⟨d, hd, rfl⟩ := Traverse.map_eq_ok.1 hn
    refine ⟨Content.merge type.schema.pool type.index c d, ?_, ?_⟩
    · rw [decode, happend, hd]
      rfl
    · intro c'
      have hmerged := Content.merged_of_typed (Decode.content_typed hc).1 (Decode.content_typed hd).1
      constructor
      · intro h'
        exact h'.unique (Decode.content_typed hc).1 (Decode.content_typed hd).1 hmerged
      · rintro rfl
        exact hmerged
  · intro e he
    cases hd : Decode.content type.schema.pool Decode.nestingBudget type.index b with
    | ok d =>
      rw [decode, hd] at he
      simp [Except.map] at he
    | error e' =>
      rw [decode, hd] at he
      rw [decode, happend, hd]
      exact he

namespace Content

/-- The content of a link that holds another one with a mark. -/
def marked (n : Int32) : Content := [(1, .message [(2, .scalar (.int32 n))])]

theorem typed_marked (n : Int32) : Typed Pool.chain 0 (marked n) := by
  have hinner : Typed Pool.chain 0 [(2, .scalar (.int32 n))] := by
    refine ⟨?_, List.pairwise_singleton _ _⟩
    rw [List.forall_mem_singleton]
    exact ⟨⟨"marks", 2, .repeated, .scalar .int32, none, .emptyList⟩, rfl, .scalar rfl⟩
  refine ⟨?_, List.pairwise_singleton _ _⟩
  rw [marked, List.forall_mem_singleton]
  exact ⟨⟨"next", 1, .optional, .message 0, none, .emptyMessage⟩, rfl, typed_message_iff.2 hinner⟩

theorem encode_marked {n : Int32} (h : (n.toInt % Numeral.span 64).toNat < 128) :
    encode Pool.chain 0 (marked n) =
      [10, 2, 16, UInt8.ofNat (n.toInt % Numeral.span 64).toNat] := by
  simp [marked, encode, Element.encode, Pool.message, Pool.chain, MessageDef.field?, Wire.key,
    Wire.delimited, Scalar.payload, Wire.signed, Wire.varint_of_lt, ScalarType.wireType,
    WireType.number, h]

end Content

theorem Message.decode_marked {n : Int32} (h : (n.toInt % Numeral.span 64).toNat < 128) :
    decode ⟨⟨0, Pool.chain⟩, 0⟩ [10, 2, 16, UInt8.ofNat (n.toInt % Numeral.span 64).toNat] =
      .ok ⟨⟨⟨0, Pool.chain⟩, 0⟩, Content.marked n⟩ := by
  have hread := (Content.typed_marked n).readsBack Pool.reachable_chain.sound
    (by rw [Content.encode_marked h]; show 4 < Numeral.span 64; decide) Decode.nestingBudget
  rw [Content.encode_marked h, if_pos (by simp [Content.marked, Content.depth, Element.depth,
    Decode.nestingBudget])] at hread
  rw [decode, hread]
  rfl

/-- Two links that each hold one with a mark, one behind the other, are one that holds one with both
marks. -/
theorem Message.decode_append_chain :
    decode ⟨⟨0, Pool.chain⟩, 0⟩ [10, 2, 16, 1] = .ok ⟨⟨⟨0, Pool.chain⟩, 0⟩, Content.marked 1⟩ ∧
      decode ⟨⟨0, Pool.chain⟩, 0⟩ [10, 2, 16, 2] = .ok ⟨⟨⟨0, Pool.chain⟩, 0⟩, Content.marked 2⟩ ∧
        decode ⟨⟨0, Pool.chain⟩, 0⟩ ([10, 2, 16, 1] ++ [10, 2, 16, 2]) =
          .ok ⟨⟨⟨0, Pool.chain⟩, 0⟩,
            [(1, .message [(2, .scalar (.int32 1)), (2, .scalar (.int32 2))])]⟩ := by
  have hone := decode_marked (n := 1) (by decide)
  have htwo := decode_marked (n := 2) (by decide)
  refine ⟨hone, htwo, ?_⟩
  obtain ⟨c, hc, hmerged⟩ := (decode_append hone).1 _ htwo
  have hmerge := Content.merged_of_typed (Content.typed_marked 1) (Content.typed_marked 2)
  obtain rfl := (hmerged _).1 hmerge
  exact hc

end ProtoSchema
