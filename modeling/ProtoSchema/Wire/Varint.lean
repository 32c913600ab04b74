import ProtoSchema.Numeral
import ProtoSchema.Wire.Reader

/-!
# Numbers, keys and lengths on the wire

A varint is a number in groups of seven bits, lowest first, each byte but the last with its high bit
set; it holds 64 bits at most. Numbers of fixed width stand lowest byte first. A key is a varint of a
field number and a wire type, and a delimited value is a length and as many bytes.
-/

namespace ProtoSchema

namespace Wire

/-! ## Writing -/

/-- The varint of a number. -/
def varint (n : Nat) : Bytes :=
  if n < 128 then [UInt8.ofNat n] else UInt8.ofNat (n % 128 + 128) :: varint (n / 128)
termination_by n
decreasing_by omega

/-- The `count` low bytes of a number, lowest first. -/
def fixed : (count : Nat) → Nat → Bytes
  | 0, _ => []
  | count + 1, n => UInt8.ofNat (n % 256) :: fixed count (n / 256)

/-- The key of a field's record. -/
def key (tag : Nat) (type : WireType) : Bytes := varint (tag * 8 + type.number)

/-- The bytes behind their length. -/
def delimited (bs : Bytes) : Bytes := varint bs.length ++ bs

/-! ## Reading -/

/-- Reads a varint of at most `most` bytes, of which the tenth holds one bit. -/
def readVarint : (most : Nat) → Bytes → Option (Nat × Bytes)
  | 0, _ => none
  | _ + 1, [] => none
  | most + 1, b :: rest =>
    if b < 128 then if most = 0 ∧ 1 < b then none else some (b.toNat, rest)
    else (readVarint most rest).map fun (n, rest) => (b.toNat - 128 + 128 * n, rest)

theorem length_readVarint {most n : Nat} {bs rest : Bytes}
    (h : readVarint most bs = some (n, rest)) : rest.length < bs.length := by
  induction most generalizing bs n rest with
  | zero => simp [readVarint] at h
  | succ most ih =>
    cases bs with
    | nil => simp [readVarint] at h
    | cons b tail =>
      simp only [readVarint] at h
      split at h
      · split at h
        · simp at h
        · simp only [Option.some.injEq, Prod.mk.injEq] at h
          simp [h.2]
      · obtain ⟨⟨m, tail'⟩, hm, he⟩ := Option.map_eq_some_iff.1 h
        simp only [Prod.mk.injEq] at he
        have := ih hm
        simp only [List.length_cons, ← he.2]
        omega

/-- The number that the bytes stand for, lowest first. -/
def ofFixed : Bytes → Nat
  | [] => 0
  | b :: rest => b.toNat + 256 * ofFixed rest

end Wire

namespace Reader

/-- Reads a varint. -/
def varint : Reader WireFault Nat where
  read bs :=
    match Wire.readVarint 10 bs with
    | none => .error .invalidVarint
    | some r => .ok r
  shorter {bs n rest} h := by
    split at h
    · simp at h
    · rename_i r hr
      obtain rfl := Except.ok.inj h
      exact Wire.length_readVarint hr

/-- Reads a number of `count` bytes, which are not none. -/
def fixed (count : Nat) (pos : 0 < count) : Reader WireFault Nat where
  read bs :=
    if bs.length < count then .error .underflow
    else .ok (Wire.ofFixed (bs.take count), bs.drop count)
  shorter {bs n rest} h := by
    split at h
    · simp at h
    · simp only [Except.ok.injEq, Prod.mk.injEq] at h
      rw [← h.2, List.length_drop]
      omega

/-- Reads a key. -/
def key : Reader WireFault Key :=
  varint.check fun n =>
    if Numeral.span 32 ≤ n then .error (.invalidKey n)
    else
      match WireType.ofNumber? (n % 8) with
      | none => .error (.invalidWireType (n % 8))
      | some type => if n / 8 = 0 then .error .zeroTag else .ok ⟨n / 8, type⟩

/-- Reads a length and as many bytes. -/
def delimited : Reader WireFault Bytes :=
  varint.andThen
    (fun n bs => if bs.length < n then .error .underflow else .ok (bs.take n, bs.drop n))
    (by
      intro n bs b rest h
      split at h
      · simp at h
      · simp only [Except.ok.injEq, Prod.mk.injEq] at h
        rw [← h.2, List.length_drop]
        omega)

/-- Reads a length, and things until as many bytes are used up. -/
def packed {ε α : Type} (fault : WireFault → ε) (r : Reader ε α) : Reader ε (List α) :=
  (varint.mapError fault).andThen
    (fun n bs =>
      if bs.length < n then .error (fault .underflow) else r.within (fault .lengthExceeded) n bs)
    (by
      intro n bs as rest h
      split at h
      · simp at h
      · exact length_within h)

/-- Reads only if the record has the wire type. -/
def ofType {α : Type} (actual expected : WireType) (r : Reader WireFault α) :
    Reader WireFault α :=
  if actual = expected then r else fail (.wrongWireType actual expected)

end Reader

end ProtoSchema
