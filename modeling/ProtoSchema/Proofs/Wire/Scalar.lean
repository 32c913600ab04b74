import Mathlib.Algebra.Ring.Int.Defs
import ProtoSchema.Proofs.Wire.Varint
import ProtoSchema.Wire.Scalar

/-!
# Reading scalars back

The payload of a scalar is read back by the reader of its type (`read_payload`), and whatever that
reader reads fits the type (`yields_scalar`). Integers pass through 64 bits of two's complement, of
which the narrower ones keep the low half.
-/

namespace ProtoSchema

namespace Wire

/-! ## Integers -/

theorem toNat_emod (n : Int) : ((n % Numeral.span 64).toNat : Int) = n % Numeral.span 64 :=
  Int.toNat_of_nonneg (Int.emod_nonneg _ (by decide))

theorem toNat_emod_lt (n : Int) : (n % Numeral.span 64).toNat < Numeral.span 64 := by
  have hlt : n % Numeral.span 64 < Numeral.span 64 := Int.emod_lt_of_pos _ (by decide)
  have heq := toNat_emod n
  omega

/-- The low 32 bits of the 64 that an integer is written in are the integer. -/
theorem ofInt_emod (n : Int32) : Int32.ofInt (n.toInt % Numeral.span 64) = n := by
  have hspan : (Numeral.span 64 : Int) = 18446744073709551616 := by decide
  have hmod : n.toInt % 18446744073709551616 % 4294967296 = n.toInt % 4294967296 :=
    Int.emod_emod_of_dvd _ (by decide)
  -- The remainders by 2 ^ 64 and by 2 ^ 32 are the same to the balanced one by 2 ^ 32.
  rw [← Int32.toInt_inj, Int32.toInt_ofInt, hspan]
  show Int.bmod _ 4294967296 = _
  rw [← Int.emod_bmod]
  show Int.bmod (n.toInt % 18446744073709551616 % 4294967296) 4294967296 = _
  rw [hmod]
  exact (Int.emod_bmod _ _).trans n.toInt_bmod

theorem ofInt_emod_long (n : Int64) : Int64.ofInt (n.toInt % Numeral.span 64) = n := by
  have hspan : (Numeral.span 64 : Int) = 18446744073709551616 := by decide
  rw [← Int64.toInt_inj, Int64.toInt_ofInt, hspan]
  exact (Int.emod_bmod _ _).trans n.toInt_bmod

theorem zigzag_lt {n : Int} {bits : Nat} (hle : -2 ^ bits ≤ n) (hlt : n < 2 ^ bits) :
    zigzag n < 2 ^ (bits + 1) := by
  have hpow : (2 : Int) ^ bits = (2 ^ bits : Nat) := by norm_cast
  rw [hpow] at hle hlt
  unfold zigzag
  rw [Nat.pow_succ]
  split <;> omega

end Wire

namespace Reader

open Traverse

variable {rest : Bytes}

/-! ## What is written is read back -/

theorem read_signed (n : Int) :
    varint.read (Wire.signed n ++ rest) = .ok ((n % Numeral.span 64).toNat, rest) :=
  read_varint (Wire.toNat_emod_lt n)

theorem read_int32 (n : Int32) : int32.read (Wire.signed n.toInt ++ rest) = .ok (n, rest) := by
  rw [int32, read_map _ (read_signed _), Wire.toNat_emod, Wire.ofInt_emod]

theorem addressable_of_delimited {bs : Bytes} (h : (Wire.delimited bs).Addressable) :
    bs.Addressable := by
  refine h.of_le ?_
  rw [Wire.delimited, List.length_append]
  omega

theorem read_text {s : String} (h : (Wire.delimited (utf8 s)).Addressable) :
    text.read (Wire.delimited (utf8 s) ++ rest) = .ok (s, rest) := by
  rw [text, read_check _ (read_delimited (addressable_of_delimited h)), text?_utf8]
  rfl

/-- **The payload of a scalar is read back.** -/
theorem read_payload {t : ScalarType} {v : Scalar} (hfits : v.fits t = true)
    (hlen : (v.payload t).Addressable) :
    (scalar t).read (v.payload t ++ rest) = .ok (v, rest) := by
  have hspan : Numeral.span 64 = 18446744073709551616 := by decide
  have hspan' : Numeral.span 32 = 4294967296 := by decide
  -- What does not fit drops out, and one case is left for each type.
  cases t <;> cases v <;> simp only [Scalar.fits, Bool.false_eq_true] at hfits
  case double.double bits =>
    rw [scalar, Scalar.payload, read_map _ (read_fixed _ bits.toNat_lt), UInt64.ofNat_toNat]
  case float.float bits =>
    rw [scalar, Scalar.payload, read_map _ (read_fixed _ bits.toNat_lt), UInt32.ofNat_toNat]
  case int32.int32 n => rw [scalar, Scalar.payload, read_map _ (read_int32 n)]
  case int64.int64 n =>
    rw [scalar, Scalar.payload, read_map _ (read_signed _), Wire.toNat_emod, Wire.ofInt_emod_long]
  case uint32.uint32 n =>
    have hlt := n.toNat_lt
    rw [scalar, Scalar.payload, read_map _ (read_varint (by omega)), UInt32.ofNat_toNat]
  case uint64.uint64 n =>
    have hlt := n.toNat_lt
    rw [scalar, Scalar.payload, read_map _ (read_varint (by omega)), UInt64.ofNat_toNat]
  case sint32.int32 n =>
    have hlt : Wire.zigzag n.toInt < 2 ^ 32 := Wire.zigzag_lt n.le_toInt n.toInt_lt
    rw [scalar, Scalar.payload, read_map _ (read_varint (by omega)), Nat.mod_eq_of_lt (by omega),
      Wire.unzigzag_zigzag, Int32.ofInt_toInt]
  case sint64.int64 n =>
    have hlt : Wire.zigzag n.toInt < 2 ^ 64 := Wire.zigzag_lt n.le_toInt n.toInt_lt
    rw [scalar, Scalar.payload, read_map _ (read_varint (by omega)), Wire.unzigzag_zigzag,
      Int64.ofInt_toInt]
  case fixed32.uint32 n =>
    rw [scalar, Scalar.payload, read_map _ (read_fixed _ n.toNat_lt), UInt32.ofNat_toNat]
  case fixed64.uint64 n =>
    rw [scalar, Scalar.payload, read_map _ (read_fixed _ n.toNat_lt), UInt64.ofNat_toNat]
  case sfixed32.int32 n =>
    rw [scalar, Scalar.payload, read_map _ (read_fixed _ n.toUInt32.toNat_lt), UInt32.ofNat_toNat,
      Int32.toInt32_toUInt32]
  case sfixed64.int64 n =>
    rw [scalar, Scalar.payload, read_map _ (read_fixed _ n.toUInt64.toNat_lt), UInt64.ofNat_toNat,
      Int64.toInt64_toUInt64]
  case bool.bool b =>
    have hread : varint.read (Wire.varint (if b then 1 else 0) ++ rest) =
        .ok (if b then 1 else 0, rest) := read_varint (by cases b <;> decide)
    rw [scalar, Scalar.payload, read_map _ hread]
    cases b <;> rfl
  case string.string s => rw [scalar, Scalar.payload, read_map _ (read_text hlen)]
  case bytes.bytes bs =>
    rw [scalar, Scalar.payload, read_map _ (read_delimited (addressable_of_delimited hlen))]

/-! ## What is read fits -/

/-- **Whatever is read for a scalar type fits it.** -/
theorem yields_scalar (t : ScalarType) : (scalar t).Yields fun v => v.fits t = true := by
  cases t <;> exact yields_map (yields_true _) fun _ _ => rfl

end Reader

end ProtoSchema
