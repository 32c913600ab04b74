import ProtoSchema.Proofs.Message.Record
import ProtoSchema.Proofs.Message.Sequence

/-!
# Packed and unpacked elements

The elements of a repeated field may be written in chunks: several packed in one record, or a record
for each, with records of other fields in between (`Wire.Chunk`). **A field comes to hold the elements
of all chunks in order, whichever way each chunk is written** (`Message.decode_chunks`); numbers that an
enum does not declare stand for no element in either way.

The numbers of an enum are packed as values of `int32` (`FieldKind.packedType?`).
-/

namespace ProtoSchema

open Reader Wire

/-! ## What is packed -/

/-- The scalar type as which the elements of a repeated field are packed. Texts, byte strings and
messages are not packed. -/
def FieldKind.packedType? : FieldKind → Option ScalarType
  | .scalar t => if t.isPackable then some t else none
  | .enum _ => some .int32
  | .message _ => none

theorem FieldKind.isPackable_of_packedType? {kind : FieldKind} {t : ScalarType}
    (h : kind.packedType? = some t) : t.isPackable = true := by
  cases kind with
  | scalar u =>
    simp only [packedType?, Option.ite_none_right_eq_some, Option.some.injEq] at h
    exact h.2 ▸ h.1
  | message i => simp [packedType?] at h
  | enum k => exact Option.some.inj h ▸ rfl

/-- What a field reports for a value that it was given packed or unpacked: numbers that its enum does
not declare are dropped. -/
def Value.ofPacked? (s : Schema) : FieldKind → Scalar → Option Value
  | .enum k, .int32 n => ((EnumType.mk s k).numbered? n).map .enum
  | .scalar _, v => some (.scalar v)
  | _, _ => none

/-- The element that a field holds for a value that it was given packed or unpacked. -/
def Element.ofPacked? (p : Pool) : FieldKind → Scalar → Option Element
  | .enum k, .int32 n => ((p.enum k).numbered? n).map .enum
  | .scalar _, v => some (.scalar v)
  | _, _ => none

theorem Value.ofPacked?_eq (s : Schema) (kind : FieldKind) (v : Scalar) :
    ofPacked? s kind v = (Element.ofPacked? s.pool kind v).map (ofElement s kind) := by
  cases kind with
  | scalar t => rfl
  | message i => rfl
  | enum k =>
    cases v
    case int32 n =>
      show (((s.pool.enum k).numbered? n).map (EnumValue.mk ⟨s, k⟩)).map Value.enum = _
      rw [Element.ofPacked?, Option.map_map, Option.map_map]
      rfl
    all_goals rfl

namespace Wire

/-- A value of a scalar type with bytes that are read as it. A value may be spelled in several ways:
varints may be longer than they have to, and their high bits may be lost. -/
structure Spelling (t : ScalarType) where
  value : Scalar
  bytes : Bytes
  reads : (Reader.scalar t).read bytes = .ok (value, [])

/-- Some elements of a repeated field, or something else in between. -/
inductive Chunk (t : ScalarType)
  /-- Elements in one record. -/
  | packed (xs : List (Spelling t))
  /-- Elements in a record for each. -/
  | unpacked (xs : List (Spelling t))
  /-- A record of another field. -/
  | other (record : Bytes)

namespace Chunk

variable {t : ScalarType}

/-- The bytes of the chunk for the field with the number. -/
def bytes (number : Nat) : Chunk t → Bytes
  | packed xs => Wire.key number .delimited ++ Wire.delimited (xs.flatMap (·.bytes))
  | unpacked xs => xs.flatMap fun x => Wire.key number t.wireType ++ x.bytes
  | other record => record

/-- The values of the field that the chunk holds. -/
def values : Chunk t → List Scalar
  | packed xs => xs.map (·.value)
  | unpacked xs => xs.map (·.value)
  | other _ => []

/-- What is left of the bytes without the field. -/
def rest : Chunk t → Bytes
  | packed _ => []
  | unpacked _ => []
  | other record => record

end Chunk

end Wire

/-! ## Spelling -/

theorem Wire.addressable_varint {n : Nat} (h : n < Numeral.span 64) :
    (Wire.varint n).Addressable := by
  have hle : (Wire.varint n).length ≤ 10 :=
    length_varint_le 9 n (Nat.lt_of_lt_of_le h (by decide))
  exact Nat.lt_of_le_of_lt hle (by decide)

theorem Wire.addressable_fixed {count : Nat} (n : Nat) (h : count ≤ 8) :
    (Wire.fixed count n).Addressable := by
  rw [Bytes.Addressable, length_fixed]
  exact Nat.lt_of_le_of_lt h (by decide)

/-- Values that may be packed are short. -/
theorem Scalar.addressable_payload {t : ScalarType} {v : Scalar} (hpack : t.isPackable = true)
    (hfits : v.fits t = true) : (v.payload t).Addressable := by
  have hspan : Numeral.span 64 = 18446744073709551616 := by decide
  cases t <;> cases v <;> simp only [Scalar.fits, Bool.false_eq_true] at hfits
  case double.double => exact addressable_fixed _ (by decide)
  case float.float => exact addressable_fixed _ (by decide)
  case fixed32.uint32 => exact addressable_fixed _ (by decide)
  case fixed64.uint64 => exact addressable_fixed _ (by decide)
  case sfixed32.int32 => exact addressable_fixed _ (by decide)
  case sfixed64.int64 => exact addressable_fixed _ (by decide)
  case int32.int32 n => exact addressable_varint (toNat_emod_lt _)
  case int64.int64 n => exact addressable_varint (toNat_emod_lt _)
  case uint32.uint32 n =>
    have hlt := n.toNat_lt
    exact addressable_varint (by omega)
  case uint64.uint64 n =>
    have hlt := n.toNat_lt
    exact addressable_varint (by omega)
  case sint32.int32 n =>
    have hlt : zigzag n.toInt < 2 ^ 32 := zigzag_lt n.le_toInt n.toInt_lt
    exact addressable_varint (by omega)
  case sint64.int64 n =>
    have hlt : zigzag n.toInt < 2 ^ 64 := zigzag_lt n.le_toInt n.toInt_lt
    exact addressable_varint (by omega)
  case bool.bool b => exact addressable_varint (by cases b <;> decide)
  all_goals simp [ScalarType.isPackable] at hpack

/-- What a value is written as spells it. -/
def Wire.Spelling.ofValue {t : ScalarType} (v : Scalar) (hpack : t.isPackable = true)
    (hfits : v.fits t = true) : Spelling t where
  value := v
  bytes := v.payload t
  reads := by
    have hread : (scalar t).read (v.payload t ++ []) = .ok (v, []) :=
      read_payload hfits (Scalar.addressable_payload hpack hfits)
    rwa [List.append_nil] at hread

/-- The number that a value of `int32` is. -/
def Wire.Spelling.number (x : Spelling .int32) : Int32 :=
  match x.value with
  | .int32 n => n
  | _ => 0

theorem Wire.Spelling.read_number (x : Spelling .int32) :
    int32.read x.bytes = .ok (x.number, []) ∧ x.value = .int32 x.number := by
  obtain ⟨n, hn, hvalue⟩ := map_eq_ok_iff.1 x.reads
  have hnumber : x.number = n := by rw [number, ← hvalue]
  rw [hnumber]
  exact ⟨hn, hvalue.symm⟩

/-! ## Reading chunks -/

/-- Things that are each read alone are read one after the other until they are used up. -/
theorem Reader.within_flatMap {ε α γ : Type} {r : Reader ε α} (h : r.SelfDelimiting)
    {write : γ → Bytes} {give : γ → α} {xs : List γ}
    (hread : ∀ x ∈ xs, r.read (write x) = .ok (give x, [])) (exceeded : ε) (rest : Bytes) :
    r.within exceeded (xs.flatMap write).length (xs.flatMap write ++ rest) =
      .ok (xs.map give, rest) := by
  induction xs with
  | nil => rw [within, if_pos (by rfl)]; rfl
  | cons x xs ih =>
    rw [List.forall_mem_cons] at hread
    have hpos := List.length_pos_of_ne_nil (read_ne_nil hread.1)
    have hused : (write x ++ (xs.flatMap write ++ rest)).length - (xs.flatMap write ++ rest).length =
        (write x).length := by
      rw [List.length_append]
      omega
    have hleft : (write x ++ xs.flatMap write).length - (write x).length =
        (xs.flatMap write).length := by
      rw [List.length_append]
      omega
    rw [List.flatMap_cons, List.append_assoc,
      within_ok (by rw [List.length_append]; omega) (h.append hread.1 _), List.nil_append, hused,
      if_neg (by rw [List.length_append]; omega), hleft, ih hread.2]
    rfl

namespace Decode

variable {p : Pool} {t budget : Nat} {body : Nat → Bytes → Except WireFault Content} {f : FieldDef}
  {type : ScalarType}

theorem read_values_packed {α γ : Type} {r : Reader WireFault α} (h : r.SelfDelimiting)
    {write : γ → Bytes} {give : γ → α} {xs : List γ}
    (hread : ∀ x ∈ xs, r.read (write x) = .ok (give x, []))
    (hlen : Bytes.Addressable (xs.flatMap write)) (expected : WireType) (rest : Bytes) :
    (values true .delimited expected r).read (Wire.delimited (xs.flatMap write) ++ rest) =
      .ok (xs.map give, rest) := by
  rw [values, if_pos ⟨rfl, rfl⟩, read_packed hlen]
  exact within_flatMap h hread _ rest

/-- **Elements are read from one record as the values that they stand for.** -/
theorem read_elements_packed (hrep : f.isRepeated = true) (ht : f.kind.packedType? = some type)
    (xs : List (Spelling type)) (hlen : Bytes.Addressable (xs.flatMap (·.bytes))) (rest : Bytes) :
    (elements p f .delimited body).read (Wire.delimited (xs.flatMap (·.bytes)) ++ rest) =
      .ok ((xs.map (·.value)).filterMap (Element.ofPacked? p f.kind), rest) := by
  unfold elements
  rw [hrep]
  generalize f.kind = kind at ht
  cases kind with
  | message u => simp [FieldKind.packedType?] at ht
  | scalar u =>
    simp only [FieldKind.packedType?, Option.ite_none_right_eq_some, Option.some.injEq] at ht
    obtain ⟨hpack, rfl⟩ := ht
    simp only [hpack, Bool.and_self]
    rw [read_map _ (read_values_packed (selfDelimiting_scalar u) (fun x _ => x.reads) hlen _ rest)]
    rw [← List.filterMap_eq_map]
    rfl
  | enum k =>
    obtain rfl := Option.some.inj ht
    have hread := read_values_packed (r := int32) (selfDelimiting_varint.map _)
      (fun x _ => (Spelling.read_number x).1) hlen .varint rest
    simp only
    rw [read_map _ hread, List.filterMap_map, List.filterMap_map]
    congr 2
    refine List.filterMap_congr fun x _ => ?_
    rw [Function.comp_apply, Function.comp_apply, x.read_number.2, Element.ofPacked?]

/-- **An element is read from a record of its own as the value that it stands for.** -/
theorem read_elements_unpacked (ht : f.kind.packedType? = some type) (x : Spelling type)
    (rest : Bytes) : (elements p f type.wireType body).read (x.bytes ++ rest) =
      .ok ([x.value].filterMap (Element.ofPacked? p f.kind), rest) := by
  unfold elements
  generalize f.kind = kind at ht
  cases kind with
  | message u => simp [FieldKind.packedType?] at ht
  | scalar u =>
    simp only [FieldKind.packedType?, Option.ite_none_right_eq_some, Option.some.injEq] at ht
    obtain ⟨hpack, rfl⟩ := ht
    have hpacks : ¬((f.isRepeated && u.isPackable) = true ∧ u.wireType = .delimited) := by
      rintro ⟨-, hwire⟩
      cases u <;> simp [ScalarType.isPackable, ScalarType.wireType] at hpack hwire
    exact read_map _ (read_values ((selfDelimiting_scalar u).append x.reads rest) hpacks)
  | enum k =>
    obtain rfl := Option.some.inj ht
    obtain ⟨hread, hvalue⟩ := x.read_number
    have hread := (selfDelimiting_varint.map _).append hread rest
    rw [hvalue]
    exact read_map _ (read_values hread (by simp [ScalarType.wireType]))

/-- What a record with the key of a field gives. -/
theorem content_key (hp : p.Sound) (hf : f ∈ (p.message t).fields) {wireType : WireType}
    {payload : Bytes} {es : List Element}
    (h : ∀ rest, (elements p f wireType (content p budget)).read (payload ++ rest) =
      .ok (es, rest)) : content p (budget + 1) t (Wire.key f.number wireType ++ payload) =
        .ok (Content.merge p t [] (es.map (f.number, ·))) := by
  refine content_of_record ?_
  have hread := read_record (x := .ok es) hp hf (h [])
  rwa [List.append_nil] at hread

end Decode

/-! ## What chunks give -/

namespace Content

variable {p : Pool} {t n : Nat} {f : FieldDef}

/-- A repeated field comes to hold the values that it is given. -/
theorem values_merge_nil_of_repeated (hf : (p.message t).field? n = some f)
    (hrep : f.isRepeated = true) (c : Content) : values n (merge p t [] c) = values n c := by
  rw [values_merge typed_nil.ordered hf, FieldDef.foldl_receive_repeated hrep, values_nil,
    List.nil_append]

/-- What values of one field are merged to has no others. -/
theorem values_merge_map_of_ne {es : List Element} (h : Typed p t (merge p t [] (es.map (n, ·))))
    {m : Nat} (hm : m ≠ n) : values m (merge p t [] (es.map (n, ·))) = [] := by
  cases hg : (p.message t).field? m with
  | none => exact h.values_of_none hg
  | some g => rw [values_merge typed_nil.ordered hg, values_map, if_neg hm, List.foldl_nil, values_nil]

end Content

namespace Decode

variable {p : Pool} {t budget n : Nat} {f : FieldDef} {type : ScalarType}

/-- The bytes give the elements for the field with the number, and for other fields what the rest of
them gives alone. -/
def Splits (p : Pool) (t budget n : Nat) (bs rest : Bytes) (es : List Element) : Prop :=
  ∃ c o, content p (budget + 1) t bs = .ok c ∧ content p (budget + 1) t rest = .ok o ∧
    Content.values n c = es ∧ Content.values n o = [] ∧
      ∀ m ≠ n, Content.values m c = Content.values m o

theorem content_nil : content p (budget + 1) t [] = .ok [] := by
  rw [content_eq, all_nil]
  rfl

/-- A record of the field has nothing for other fields. -/
theorem splits_key (hp : p.Sound) (hf : f ∈ (p.message t).fields) (hrep : f.isRepeated = true)
    {wireType : WireType} {payload : Bytes} {es : List Element}
    (h : ∀ rest, (elements p f wireType (content p budget)).read (payload ++ rest) =
      .ok (es, rest)) :
    Splits p t budget f.number (Wire.key f.number wireType ++ payload) [] es := by
  have hcontent := content_key hp hf h
  have hfield := MessageDef.field?_of_mem (hp.numbers t) hf
  refine ⟨_, [], hcontent, content_nil, ?_, rfl, fun m hm => ?_⟩
  · rw [Content.values_merge_nil_of_repeated hfield hrep, Content.values_map, if_pos rfl]
  · exact Content.values_merge_map_of_ne (content_typed hcontent).1 hm

/-- A record of another field has nothing for the field. -/
theorem splits_other {m : Nat} {record : Bytes} {c : Content} (h : IsRecord m record) (hm : m ≠ n)
    (hc : content p (budget + 1) t record = .ok c) : Splits p t budget n record record [] := by
  have hnone := values_of_isRecord h hc hm.symm
  exact ⟨c, c, hc, hc, hnone, hnone, fun _ _ => rfl⟩

/-- **Bytes one behind the other give the elements of all of them in order.** -/
theorem Splits.flatMap (hf : (p.message t).field? n = some f) (hrep : f.isRepeated = true)
    {ι : Type} {is : List ι} {bytes rest : ι → Bytes} {es : ι → List Element}
    (h : ∀ i ∈ is, Splits p t budget n (bytes i) (rest i) (es i)) :
    Splits p t budget n (is.flatMap bytes) (is.flatMap rest) (is.flatMap es) := by
  choose! c o hc ho hes hnone hsame using h
  refine ⟨_, _, content_flatMap hc, content_flatMap ho, ?_, ?_, fun m hm => ?_⟩
  · rw [Content.values_merge_nil_of_repeated hf hrep, Content.values_flatMap_eq]
    exact List.flatMap_congr hes
  · rw [Content.values_merge_nil_of_repeated hf hrep, Content.values_flatMap_eq,
      List.flatMap_eq_nil_iff]
    exact hnone
  · refine Content.values_merge_nil_congr (belongs_flatMap hc) (belongs_flatMap ho) ?_
    rw [Content.values_flatMap_eq, Content.values_flatMap_eq]
    exact List.flatMap_congr fun i hi => hsame i hi m hm

/-- **A chunk gives the elements that its values stand for,** packed or not. -/
theorem splits_chunk (hp : p.Sound) (hf : f ∈ (p.message t).fields) (hrep : f.isRepeated = true)
    (ht : f.kind.packedType? = some type) {c : Chunk type}
    (hlen : Bytes.Addressable (c.bytes f.number))
    (hother : ∀ record, c = .other record →
      (∃ m, m ≠ f.number ∧ IsRecord m record) ∧ ∃ o, content p (budget + 1) t record = .ok o) :
    Splits p t budget f.number (c.bytes f.number) c.rest
      (c.values.filterMap (Element.ofPacked? p f.kind)) := by
  cases c with
  | packed xs =>
    have hbody : Bytes.Addressable (xs.flatMap (·.bytes)) := by
      refine addressable_of_delimited (hlen.of_le ?_)
      rw [Chunk.bytes, List.length_append]
      omega
    exact splits_key hp hf hrep fun rest => read_elements_packed hrep ht xs hbody rest
  | unpacked xs =>
    have hfield := MessageDef.field?_of_mem (hp.numbers t) hf
    have hsplits : Splits p t budget f.number
        (xs.flatMap fun x => Wire.key f.number type.wireType ++ x.bytes) (xs.flatMap fun _ => [])
        (xs.flatMap fun x => [x.value].filterMap (Element.ofPacked? p f.kind)) :=
      Splits.flatMap hfield hrep fun x _ => splits_key hp hf hrep (read_elements_unpacked ht x)
    have hrest : xs.flatMap (fun _ => ([] : Bytes)) = [] := List.flatMap_eq_nil_iff.2 fun _ _ => rfl
    rwa [hrest, ← List.filterMap_flatMap, ← List.map_eq_flatMap] at hsplits
  | other record =>
    obtain ⟨⟨m, hm, hrecord⟩, o, ho⟩ := hother record rfl
    exact splits_other hrecord hm ho

end Decode

/-- **Packed and unpacked elements are interchangeable.** However the values of a repeated field are cut
into chunks, packed or not, with records of other fields in between, the field comes to hold the values
that they stand for in order, and is set if there are any. The other fields hold what the records in
between give alone. -/
theorem Message.decode_chunks {type : MessageType} (hp : type.schema.pool.Reachable) {f : FieldDef}
    (hf : f ∈ type.define.fields) (hrep : f.isRepeated = true) {t : ScalarType}
    (ht : f.kind.packedType? = some t) {chunks : List (Chunk t)}
    (hlen : ∀ c ∈ chunks, Bytes.Addressable (c.bytes f.number))
    (hother : ∀ record, .other record ∈ chunks →
      (∃ n, n ≠ f.number ∧ IsRecord n record) ∧ ∃ m, decode type record = .ok m) :
    (∀ v : Scalar, v.fits t = true → ∃ x : Spelling t, x.value = v ∧ x.bytes = v.payload t) ∧
      ∃ m o, decode type (chunks.flatMap (·.bytes f.number)) = .ok m ∧
        decode type (chunks.flatMap Chunk.rest) = .ok o ∧
        m.get (.number f.number) = .ok (.list ((chunks.flatMap Chunk.values).filterMap
          (Value.ofPacked? type.schema f.kind))) ∧
        m.has (.number f.number) = .ok !((chunks.flatMap Chunk.values).filterMap
          (Value.ofPacked? type.schema f.kind)).isEmpty ∧
        ∀ n ≠ f.number, Content.values n m.content = Content.values n o.content := by
  refine ⟨fun v hfits => ⟨.ofValue v (FieldKind.isPackable_of_packedType? ht) hfits, rfl, rfl⟩, ?_⟩
  have hfield := MessageDef.field?_of_mem (hp.sound.numbers type.index) hf
  have hsplits : Decode.Splits type.schema.pool type.index 100 f.number
      (chunks.flatMap (·.bytes f.number)) (chunks.flatMap Chunk.rest)
      (chunks.flatMap fun c => c.values.filterMap (Element.ofPacked? type.schema.pool f.kind)) := by
    refine Decode.Splits.flatMap hfield hrep fun c hc =>
      Decode.splits_chunk hp.sound hf hrep ht (hlen c hc) fun record heq => ?_
    obtain ⟨hrecord, m, hm⟩ := hother record (heq ▸ hc)
    obtain ⟨o, ho, -⟩ := Traverse.map_eq_ok.1 hm
    exact ⟨hrecord, o, ho⟩
  rw [← List.filterMap_flatMap] at hsplits
  obtain ⟨c, o, hc, ho, hes, -, hsame⟩ := hsplits
  have hreport : report ⟨type, c⟩ f =
      (chunks.flatMap Chunk.values).filterMap (Value.ofPacked? type.schema f.kind) := by
    rw [report, hes, List.map_filterMap]
    exact List.filterMap_congr fun v _ => (Value.ofPacked?_eq _ _ v).symm
  refine ⟨⟨type, c⟩, ⟨type, o⟩, ?_, ?_, ?_, ?_, hsame⟩
  · rw [decode, Decode.nestingBudget, hc]
    rfl
  · rw [decode, Decode.nestingBudget, ho]
    rfl
  · rw [get, Traverse.bind_eq_ok]
    refine ⟨f, MessageType.select_number hfield, ?_⟩
    rw [if_pos hrep, hreport]
    rfl
  · rw [has, Traverse.bind_eq_ok]
    refine ⟨f, MessageType.select_number hfield, ?_⟩
    rw [← hreport, report, List.isEmpty_map, Content.has_eq_isEmpty]
    rfl

namespace Message

/-- A packed mark, the link that comes next, another mark in a byte more than it needs, and no marks at
all. -/
def linkChunks : List (Chunk .int32) :=
  [.packed [⟨.int32 1, [1], rfl⟩], .other [10, 2, 16, 1], .unpacked [⟨.int32 7, [135, 0], rfl⟩],
    .packed []]

theorem bytes_linkChunks :
    linkChunks.map (·.bytes 2) = [[18, 1, 1], [10, 2, 16, 1], [16, 135, 0], [18, 0]] := by
  simp [linkChunks, Chunk.bytes, Wire.key, Wire.delimited, varint_of_lt, WireType.number,
    ScalarType.wireType]

/-- The marks are read in order, whatever their spelling. -/
theorem decode_chunks_chain : ∃ m,
    decode ⟨⟨0, Pool.chain⟩, 0⟩ [18, 1, 1, 10, 2, 16, 1, 16, 135, 0, 18, 0] = .ok m ∧
      m.get (.number 2) = .ok (.list [.scalar (.int32 1), .scalar (.int32 7)]) := by
  have hbytes : linkChunks.flatMap (·.bytes 2) = [18, 1, 1, 10, 2, 16, 1, 16, 135, 0, 18, 0] := by
    rw [List.flatMap, bytes_linkChunks]
    rfl
  have hlen : ∀ c ∈ linkChunks, Bytes.Addressable (c.bytes 2) := by
    intro c hc
    have hmem := bytes_linkChunks ▸ List.mem_map_of_mem (f := Chunk.bytes 2) hc
    have hshort : ∀ bs ∈ ([[18, 1, 1], [10, 2, 16, 1], [16, 135, 0], [18, 0]] : List Bytes),
        bs.Addressable := by
      simp only [Bytes.Addressable]
      decide
    exact hshort _ hmem
  let type : MessageType := ⟨⟨0, Pool.chain⟩, 0⟩
  let marks : FieldDef := ⟨"marks", 2, .repeated, .scalar .int32, none, .emptyList⟩
  have hmarks : marks ∈ type.define.fields := List.mem_cons_of_mem _ (List.mem_singleton_self _)
  have hother : ∀ record, .other record ∈ linkChunks →
      (∃ n, n ≠ marks.number ∧ IsRecord n record) ∧ ∃ m, decode type record = .ok m := by
    intro record hrecord
    obtain rfl : record = [10, 2, 16, 1] := by simpa [linkChunks] using hrecord
    exact ⟨⟨1, by decide, .delimited, [10], [2, 16, 1], rfl, @IsPayload.delimited 1 [2] [16, 1] rfl,
      rfl⟩, _, decode_marked (n := 1) (by decide)⟩
  obtain ⟨-, m, o, hm, -, hget, -⟩ := decode_chunks Pool.reachable_chain hmarks rfl rfl hlen hother
  exact ⟨m, hbytes ▸ hm, hget⟩

end Message

end ProtoSchema
