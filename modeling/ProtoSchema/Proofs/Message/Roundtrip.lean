import ProtoSchema.Message.Encode
import ProtoSchema.Proofs.Message.Made

/-!
# Messages are read back

What a typed content is written as is read back as the same content, if the budget lets it nest so
deep, and is refused for its nesting if not (`Content.Typed.readsBack`). So **a message that can be made
is decoded from its own bytes exactly when no more than a hundred messages nest in it**
(`Message.Made.decode_encode`).

The bytes have to be addressable: a length that is no number of 64 bits cannot be written.
-/

namespace ProtoSchema

open Reader

/-! ## Writing value by value -/

namespace Content

variable {p : Pool} {t : Nat} {c : Content}

/-- The record of a value of a message of the type. -/
def record (p : Pool) (t : Nat) (x : Nat × Element) : Bytes :=
  match (p.message t).field? x.1 with
  | some f => x.2.encode p f
  | none => []

theorem encode_eq_flatMap : encode p t c = c.flatMap (record p t) := by
  induction c with
  | nil => rw [encode, List.flatMap_nil]
  | cons x c ih =>
    rw [encode, ih, List.flatMap_cons]
    rfl

theorem record_eq {x : Nat × Element} {f : FieldDef} (hf : (p.message t).field? x.1 = some f) :
    record p t x = x.2.encode p f := by
  rw [record, hf]

theorem addressable_record (h : (encode p t c).Addressable) {x : Nat × Element} (hx : x ∈ c) :
    (record p t x).Addressable := by
  refine h.of_le ?_
  rw [encode_eq_flatMap, List.flatMap]
  exact (List.sublist_flatten_of_mem (List.mem_map_of_mem hx)).length_le

/-! ## Merging value by value -/

/-- Values that are merged one after the other, in order, come to stand in this order. -/
theorem foldl_merge {acc : Content} (h : Typed p t (acc ++ c)) :
    (c.map fun x => [x]).foldl (merge p t) acc = acc ++ c := by
  induction c generalizing acc with
  | nil => rw [List.map_nil, List.foldl_nil, List.append_nil]
  | cons x c ih =>
    obtain ⟨n, e⟩ := x
    have hsplit : acc ++ (n, e) :: c = acc ++ [(n, e)] ++ c := by
      rw [List.append_assoc, List.singleton_append]
    obtain ⟨f, hf, -⟩ := h.belongs (n, e) (List.mem_append_right _ List.mem_cons_self)
    have hlast := (List.pairwise_append.1 h.ordered).2.2
    have hle : ∀ y ∈ acc, y.1 ≤ n := by
      intro y hy
      exact (hlast y hy (n, e) List.mem_cons_self).1
    have hstep : merge p t acc [(n, e)] = acc ++ [(n, e)] := by
      rw [merge_cons e [] hf, merge]
      by_cases hrep : f.isRepeated = true
      · -- Another element of a repeated field goes behind the others.
        rw [if_pos hrep, append_of_le hle]
        rfl
      · -- A field that is not repeated had no value yet.
        have hne : ∀ y ∈ acc, y.1 ≠ n := by
          intro y hy heq
          obtain ⟨g, hg, hgrep⟩ := (hlast y hy (n, e) List.mem_cons_self).2 heq
          obtain rfl : g = f := Option.some.inj (hg.symm.trans (heq ▸ hf))
          exact hrep hgrep
        rw [if_neg hrep, values_of_forall_ne hne, replace, clear_of_forall_ne hne,
          append_of_le hle, List.head?_nil, Element.mergeInto_none]
        rfl
    rw [List.map_cons, List.foldl_cons, hstep, hsplit]
    exact ih (hsplit ▸ h)

end Content

/-! ## Reading value by value -/

namespace Decode

variable {p : Pool} {t : Nat} {body : Nat → Bytes → Except WireFault Content} {rest : Bytes}

theorem read_values {α : Type} {packs : Bool} {type : WireType} {r : Reader WireFault α} {a : α}
    {bs : Bytes} (h : r.read bs = .ok (a, rest)) (hp : ¬(packs = true ∧ type = .delimited)) :
    (values packs type type r).read bs = .ok ([a], rest) := by
  rw [values, if_neg hp, ofType_self]
  exact read_map _ h

/-- A record with the key of a field is read as the values of the field. -/
theorem read_record (hp : p.Sound) {f : FieldDef} (hf : f ∈ (p.message t).fields) {type : WireType}
    {payload : Bytes} {x : Except WireFault (List Element)}
    (h : (elements p f type body).read (payload ++ rest) = x.map (·, rest)) :
    (record p t body).read (Wire.key f.number type ++ payload ++ rest) =
      (x.map (·.map (f.number, ·))).map (·, rest) := by
  obtain ⟨hpos, hle⟩ := hp.range t f hf
  rw [record, List.append_assoc, read_bind _ (read_key type hpos hle)]
  simp only [MessageDef.field?_of_mem (hp.numbers t) hf]
  exact read_map_of _ h

end Decode

/-- The number of a value of an enum is that of no other. -/
theorem EnumDef.numbered?_value {d : EnumDef} (hd : (d.values.map ValueDecl.number).Nodup) {i : Nat}
    (hi : i < d.values.length) : d.numbered? (d.value i).number = some i := by
  have hvalue := value_of_lt hi
  rw [numbered?, List.findIdx?_eq_some_iff_getElem]
  refine ⟨hi, by simp [hvalue], ?_⟩
  intro j hj
  have hne := List.pairwise_iff_getElem.1 (List.pairwise_map.1 hd) j i (Nat.lt_trans hj hi) hi hj
  simpa [hvalue] using hne

namespace Element

variable {p : Pool}

/-- Wherever a field of the kind has the value, its record is read back, whatever follows it, unless
the value nests deeper than the budget lets it. -/
def ReadsBack (p : Pool) (kind : FieldKind) (e : Element) : Prop :=
  ∀ t budget, ∀ f ∈ (p.message t).fields, f.kind = kind → (e.encode p f).Addressable → ∀ rest,
    (Decode.record p t (Decode.content p budget)).read (e.encode p f ++ rest) =
      (if e.depth ≤ budget then .ok [(f.number, e)] else .error .recursionLimit :
        Except WireFault Content).map (·, rest)

theorem readsBack_scalar (hp : p.Sound) {t : ScalarType} {v : Scalar} (hfits : v.fits t = true) :
    ReadsBack p (.scalar t) (.scalar v) := by
  intro m budget f hf hkind hlen rest
  have hencode : (scalar v).encode p f = Wire.key f.number t.wireType ++ v.payload t := by
    rw [encode, hkind]
  have hpayload : (v.payload t).Addressable := by
    rw [hencode] at hlen
    exact hlen.of_le (by rw [List.length_append]; omega)
  have hpacks : ¬((f.isRepeated && t.isPackable) = true ∧ t.wireType = .delimited) := by
    -- What is delimited is not packed.
    rintro ⟨hpack, hwire⟩
    cases t <;> simp [ScalarType.isPackable, ScalarType.wireType] at hpack hwire
  have hread : (Decode.elements p f t.wireType (Decode.content p budget)).read
      (v.payload t ++ rest) = .ok ([.scalar v], rest) := by
    rw [Decode.elements, hkind]
    exact read_map _ (Decode.read_values (read_payload hfits hpayload) hpacks)
  rw [hencode, depth, if_pos (Nat.zero_le _)]
  exact Decode.read_record (x := .ok [.scalar v]) hp hf hread

theorem readsBack_enum (hp : p.Sound) {k i : Nat} (hlt : i < (p.enum k).values.length) :
    ReadsBack p (.enum k) (.enum i) := by
  intro m budget f hf hkind hlen rest
  have hencode : (enum i).encode p f =
      Wire.key f.number .varint ++ Wire.signed ((p.enum k).value i).number.toInt := by
    rw [encode, hkind]
  have hread : (Decode.elements p f .varint (Decode.content p budget)).read
      (Wire.signed ((p.enum k).value i).number.toInt ++ rest) = .ok ([.enum i], rest) := by
    rw [Decode.elements, hkind]
    simp only
    rw [read_map _ (Decode.read_values (read_int32 _) (by simp))]
    simp [EnumDef.numbered?_value (hp.values k) hlt]
  rw [hencode, depth, if_pos (Nat.zero_le _)]
  exact Decode.read_record (x := .ok [.enum i]) hp hf hread

/-- A value of a field is written as something. -/
theorem Typed.encode_ne_nil {e : Element} {f : FieldDef} (h : e.Typed p f.kind) :
    e.encode p f ≠ [] := by
  have hkey : ∀ type (bs : Bytes), Wire.key f.number type ++ bs ≠ [] := by
    intro type bs hnil
    exact Wire.varint_ne_nil _ (List.append_eq_nil_iff.1 hnil).1
  generalize hkind : f.kind = kind at h
  cases h with
  | scalar fits =>
    rw [encode, hkind]
    exact hkey _ _
  | enum lt =>
    rw [encode, hkind]
    exact hkey _ _
  | message known typed ordered =>
    rw [encode, hkind]
    exact hkey _ _

end Element

/-- **A content whose values are read back is read back**, if it does not nest too deep. -/
theorem Content.decode_of_readsBack {p : Pool} {t : Nat} {c : Content} (h : Content.Typed p t c)
    (hread : ∀ x ∈ c, ∀ f, (p.message t).field? x.1 = some f → x.2.ReadsBack p f.kind)
    (hlen : (Content.encode p t c).Addressable) : ∀ budget,
    Decode.content p budget t (Content.encode p t c) =
      if Content.depth c < budget then .ok c else .error .recursionLimit
  | 0 => by rw [Decode.content, if_neg (Nat.not_lt_zero _)]
  | budget + 1 => by
    let give (x : Nat × Element) : Except WireFault Content :=
      if x.2.depth ≤ budget then .ok [x] else .error .recursionLimit
    have hne : ∀ x ∈ c, record p t x ≠ [] := by
      intro x hx
      obtain ⟨f, hf, htyped⟩ := h.belongs x hx
      rw [record_eq hf]
      exact htyped.encode_ne_nil
    have hrecord : ∀ x ∈ c, ∀ rest, (Decode.record p t (Decode.content p budget)).read
        (record p t x ++ rest) = (give x).map (·, rest) := by
      intro x hx rest
      obtain ⟨f, hf, -⟩ := h.belongs x hx
      have hx' := addressable_record hlen hx
      have hnumber := MessageDef.number_of_field? hf
      rw [record_eq hf] at hx' ⊢
      rw [hread x hx f hf t budget f (MessageDef.mem_of_field? hf) rfl hx' rest, hnumber]
    rw [Decode.content, encode_eq_flatMap, all_flatMap hne hrecord]
    by_cases hdepth : depth c ≤ budget
    · -- Every value is read back, and they are merged in order.
      have hgive : ∀ x ∈ c, give x = .ok [x] := by
        intro x hx
        exact if_pos (depth_le_iff.1 hdepth x hx)
      rw [Traverse.mapM_eq_map hgive, if_pos (Nat.lt_succ_of_le hdepth)]
      have hmerge : (c.map fun x => [x]).foldl (merge p t) [] = [] ++ c := by
        refine foldl_merge ?_
        rwa [List.nil_append]
      exact congrArg Except.ok hmerge
    · -- A value that nests too deep is refused, and no other is refused for anything else.
      obtain ⟨x, hx, hdeep⟩ : ∃ x ∈ c, ¬ x.2.depth ≤ budget := by
        by_contra hall
        exact hdepth (depth_le_iff.2 fun x hx => by_contra fun hdeep => hall ⟨x, hx, hdeep⟩)
      have hgive : ∀ x ∈ c, give x = .ok [x] ∨ give x = .error .recursionLimit := by
        intro x _
        by_cases hx : x.2.depth ≤ budget
        · exact Or.inl (if_pos hx)
        · exact Or.inr (if_neg hx)
      rw [Traverse.mapM_eq_error hgive hx (if_neg hdeep), if_neg (by omega)]
      rfl

theorem Element.readsBack_message {p : Pool} (hp : p.Sound) {t : Nat} {c : Content}
    (h : Content.Typed p t c)
    (hread : ∀ x ∈ c, ∀ f, (p.message t).field? x.1 = some f → x.2.ReadsBack p f.kind) :
    ReadsBack p (.message t) (.message c) := by
  intro m budget f hf hkind hlen rest
  have hencode : (message c).encode p f =
      Wire.key f.number .delimited ++ Wire.delimited (Content.encode p t c) := by
    rw [encode, hkind]
  have hbody : (Content.encode p t c).Addressable := by
    rw [hencode] at hlen
    exact addressable_of_delimited (hlen.of_le (by rw [List.length_append]; omega))
  have helements : (Decode.elements p f .delimited (Decode.content p budget)).read
      (Wire.delimited (Content.encode p t c) ++ rest) =
        ((Decode.content p budget t (Content.encode p t c)).map fun c => [message c]).map
          (·, rest) := by
    rw [Decode.elements, hkind]
    simp only
    rw [ofType_self, read_check _ (read_delimited hbody)]
  rw [hencode, Decode.read_record hp hf helements, Content.decode_of_readsBack h hread hbody, depth]
  by_cases hdepth : Content.depth c < budget
  · rw [if_pos hdepth, if_pos (Nat.succ_le_of_lt hdepth)]
    rfl
  · rw [if_neg hdepth, if_neg (fun hle => hdepth (Nat.lt_of_succ_le hle))]
    rfl

/-- **Every value that a field takes is read back.** -/
theorem Element.Typed.readsBack {p : Pool} (hp : p.Sound) {kind : FieldKind} {e : Element}
    (h : e.Typed p kind) : e.ReadsBack p kind := by
  induction h with
  | scalar fits => exact readsBack_scalar hp fits
  | enum lt => exact readsBack_enum hp lt
  | message known typed ordered ih =>
    exact readsBack_message hp (Content.typed_message_iff.1 (.message known typed ordered)) ih

/-- **A typed content is read back from what it is written as**, if it does not nest too deep. -/
theorem Content.Typed.readsBack {p : Pool} {t : Nat} {c : Content} (h : Content.Typed p t c)
    (hp : p.Sound) (hlen : (Content.encode p t c).Addressable) (budget : Nat) :
    Decode.content p budget t (Content.encode p t c) =
      if Content.depth c < budget then .ok c else .error .recursionLimit := by
  refine decode_of_readsBack h ?_ hlen budget
  intro x hx f hf
  exact ((h.belongs x hx).typed hf).readsBack hp

/-! ## Messages -/

/-- How many messages nest below the message. -/
def Message.depth (m : Message) : Nat := Content.depth m.content

/-- **A message that can be made is decoded from its own bytes as the same message, if no more than a
hundred messages nest below it; else it is refused for its nesting.** In particular, whatever was
decoded is decoded from its own bytes again. Bytes in memory are always addressable. -/
theorem Message.Made.decode_encode {m : Message} (h : m.Made) (hlen : m.encode.Addressable) :
    (m.depth ≤ 100 → decode m.type m.encode = .ok m) ∧
      (100 < m.depth → decode m.type m.encode = .error .recursionLimit) ∧
        ∀ bs, decode m.type bs = .ok m → decode m.type m.encode = .ok m := by
  have hread : Decode.content m.type.schema.pool 101 m.type.index m.encode =
      if m.depth < 101 then .ok m.content else .error .recursionLimit :=
    h.sound.typed.readsBack h.sound.reachable.sound hlen 101
  have hok : m.depth ≤ 100 → decode m.type m.encode = .ok m := by
    intro hdepth
    rw [if_pos (Nat.lt_succ_of_le hdepth)] at hread
    rw [decode, Decode.nestingBudget, hread]
    rfl
  refine ⟨hok, ?_, fun bs hbs => hok ?_⟩
  · intro hdepth
    rw [if_neg (Nat.not_lt_of_le hdepth)] at hread
    rw [decode, Decode.nestingBudget, hread]
    rfl
  · -- What was decoded nests no deeper than it could be read.
    obtain ⟨c, hc, hm⟩ := Traverse.map_eq_ok.1 hbs
    have hlt := (Decode.content_typed hc).2
    rw [← hm]
    exact Nat.le_of_lt_succ hlt

/-- A tree has trees for branches and a leaf of its own enum. -/
theorem Draft.tree_types : ∃ p, tree.build = .ok p ∧ p.Reachable ∧
    (p.message 0).field? 1 = some ⟨"branches", 1, .repeated, .message 0, none, .emptyList⟩ ∧
      (p.message 0).field? 2 = some ⟨"leaf", 2, .optional, .enum 0, some "NEEDLE", .enum 1⟩ ∧
        (p.enum 0).values = [⟨"BROAD", 0⟩, ⟨"NEEDLE", 1⟩] := by
  obtain ⟨p, hp, hreach⟩ := exists_tree
  have htypes : (tree.build.map fun p =>
      ((p.message 0).field? 1, (p.message 0).field? 2, (p.enum 0).values)) =
        .ok (some ⟨"branches", 1, .repeated, .message 0, none, .emptyList⟩,
          some ⟨"leaf", 2, .optional, .enum 0, some "NEEDLE", .enum 1⟩,
          [⟨"BROAD", 0⟩, ⟨"NEEDLE", 1⟩]) := rfl
  rw [hp] at htypes
  obtain ⟨hbranches, htypes⟩ := Prod.mk.inj (Except.ok.inj htypes)
  obtain ⟨hleaf, hvalues⟩ := Prod.mk.inj htypes
  exact ⟨p, hp, hreach, hbranches, hleaf, hvalues⟩

/-- A tree whose only branch has a needle for a leaf is read back. -/
theorem Message.decode_encode_tree : ∃ p, Draft.tree.build = .ok p ∧ ∃ m : Message,
    m.type = ⟨⟨0, p⟩, 0⟩ ∧ m.content = [(1, .message [(2, .enum 1)])] ∧
      m.encode = [10, 2, 16, 1] ∧ decode m.type m.encode = .ok m := by
  obtain ⟨p, hp, hreach, hbranches, hleaf, hvalues⟩ := Draft.tree_types
  let t : MessageType := ⟨⟨0, p⟩, 0⟩
  let branch : Message := ⟨t, [(2, .enum 1)]⟩
  let m : Message := ⟨t, [(1, .message [(2, .enum 1)])]⟩
  have hneedle : Value.Made (.enum ⟨⟨⟨0, p⟩, 0⟩, 1⟩) := by
    refine .enum ?_
    show 1 < (p.enum 0).values.length
    rw [hvalues]
    decide
  have hset : (Message.empty t).set (.number 2) (.enum ⟨⟨⟨0, p⟩, 0⟩, 1⟩) = .ok branch :=
    set_eq_ok_iff.2 ⟨_, .enum 1, MessageType.select_number hleaf, rfl, if_pos rfl, rfl⟩
  have hbranch : branch.Made := .set (s := .number 2) (.empty hreach) trivial hneedle hset
  have hadd : (Message.empty t).add (.number 1) (.message branch) = .ok m :=
    add_eq_ok_iff.2 ⟨_, .message branch.content, MessageType.select_number hbranches, rfl,
      if_pos rfl, rfl⟩
  have hmade : m.Made := .add (s := .number 1) (.empty hreach) trivial hbranch hadd
  have hencode : m.encode = [10, 2, 16, 1] := by
    have hvalue : (p.enum 0).value 1 = ⟨"NEEDLE", 1⟩ := by
      rw [EnumDef.value, hvalues]
      rfl
    have hinner : Content.encode p 0 [(2, .enum 1)] = [16, 1] := by
      rw [Content.encode, Content.encode, List.append_nil]
      simp only [hleaf, Element.encode, hvalue]
      rw [Wire.key, Wire.signed, Wire.varint_of_lt (by decide), Wire.varint_of_lt (by decide)]
      decide
    show Content.encode p 0 [(1, .message [(2, .enum 1)])] = _
    rw [Content.encode, Content.encode, List.append_nil]
    simp only [hbranches, Element.encode]
    rw [hinner, Wire.key, Wire.delimited, Wire.varint_of_lt (by decide),
      Wire.varint_of_lt (by decide)]
    decide
  have hlen : m.encode.Addressable := by
    rw [hencode]
    show 4 < Numeral.span 64
    decide
  have hdepth : m.depth ≤ 100 := by
    simp [depth, Content.depth, Element.depth, m]
  exact ⟨p, hp, m, rfl, rfl, hencode, (Made.decode_encode hmade hlen).1 hdepth⟩

end ProtoSchema
