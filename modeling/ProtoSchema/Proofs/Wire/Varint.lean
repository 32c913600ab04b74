import Mathlib.Algebra.Ring.Nat
import ProtoSchema.Proofs.Wire.Reader

/-!
# Reading numbers, keys and lengths back

What is written for a number, a key or a byte string is read back, whatever follows it: varints of up
to 64 bits (`readVarint_varint`), numbers of fixed width (`ofFixed_fixed`), keys of the numbers that a
field can have (`read_key`), and byte strings whose length is a number of 64 bits (`read_delimited`).
-/

namespace ProtoSchema

/-- The length is a number of 64 bits, which is all that the format and the memory have room for. -/
def Bytes.Addressable (bs : Bytes) : Prop := bs.length < Numeral.span 64

theorem Bytes.Addressable.of_le {as bs : Bytes} (h : bs.Addressable) (hle : as.length ≤ bs.length) :
    as.Addressable := Nat.lt_of_le_of_lt hle h

namespace Wire

/-! ## Varints -/

theorem toNat_ofNat {n : Nat} (h : n < 256) : (UInt8.ofNat n).toNat = n := by
  rw [UInt8.toNat_ofNat', Nat.mod_eq_of_lt h]

theorem varint_ne_nil (n : Nat) : varint n ≠ [] := by
  unfold varint
  split <;> exact List.cons_ne_nil _ _

theorem varint_of_lt {n : Nat} (h : n < 128) : varint n = [UInt8.ofNat n] := by
  rw [varint, if_pos h]

/-- A varint of seven bits in each byte but the last, which has room for one. -/
theorem length_varint_le (k : Nat) : ∀ n, n < 128 ^ (k + 1) → (varint n).length ≤ k + 1 := by
  induction k with
  | zero =>
    intro n hn
    rw [varint_of_lt (by simpa using hn)]
    exact Nat.le_refl 1
  | succ k ih =>
    intro n hn
    rw [varint]
    split
    · rw [List.length_singleton]
      omega
    · have hdiv : n / 128 < 128 ^ (k + 1) := by
        rw [Nat.div_lt_iff_lt_mul (by decide), ← Nat.pow_succ]
        exact hn
      exact Nat.succ_le_succ (ih _ hdiv)

theorem readVarint_varint_of_lt (rest : Bytes) : ∀ (most n : Nat), n < 2 ^ (7 * most + 1) →
    readVarint (most + 1) (varint n ++ rest) = some (n, rest) := by
  intro most
  induction most with
  | zero =>
    intro n h
    have hn : n < 2 := h
    have hb : (UInt8.ofNat n).toNat = n := toNat_ofNat (by omega)
    rw [varint_of_lt (by omega), List.singleton_append, readVarint]
    rw [if_pos (by rw [UInt8.lt_iff_toNat_lt, hb]; exact Nat.lt_trans hn (by decide))]
    rw [if_neg (by rw [UInt8.lt_iff_toNat_lt, hb]; simp only [UInt8.toNat_one]; omega), hb]
  | succ most ih =>
    intro n h
    -- A byte takes seven bits off the number, and off what may be left of it.
    by_cases hn : n < 128
    · have hb : (UInt8.ofNat n).toNat = n := toNat_ofNat (by omega)
      rw [varint_of_lt hn, List.singleton_append, readVarint]
      rw [if_pos (by rw [UInt8.lt_iff_toNat_lt, hb]; exact hn), if_neg (by omega), hb]
    · have hb : (UInt8.ofNat (n % 128 + 128)).toNat = n % 128 + 128 := toNat_ofNat (by omega)
      have hlt : n / 128 < 2 ^ (7 * most + 1) := by
        rw [Nat.div_lt_iff_lt_mul (by decide)]
        calc n < 2 ^ (7 * (most + 1) + 1) := h
          _ = 2 ^ (7 * most + 1) * 128 := by rw [Nat.mul_add, Nat.add_right_comm, Nat.pow_add]
      rw [varint, if_neg hn, List.cons_append, readVarint]
      rw [if_neg (by rw [UInt8.lt_iff_toNat_lt, hb]; simp), ih _ hlt, hb]
      simp only [Option.map_some, Option.some.injEq, Prod.mk.injEq, and_true]
      omega

/-- **A varint of 64 bits is read back.** -/
theorem readVarint_varint {n : Nat} (h : n < Numeral.span 64) (rest : Bytes) :
    readVarint 10 (varint n ++ rest) = some (n, rest) := readVarint_varint_of_lt rest 9 n h

/-! ## Numbers of fixed width -/

theorem length_fixed (count : Nat) : ∀ n, (fixed count n).length = count := by
  induction count with
  | zero => exact fun _ => rfl
  | succ count ih =>
    intro n
    rw [fixed, List.length_cons, ih]

theorem ofFixed_fixed : ∀ (count n : Nat), n < 256 ^ count → ofFixed (fixed count n) = n := by
  intro count
  induction count with
  | zero =>
    intro n h
    have hn : n = 0 := Nat.lt_one_iff.1 h
    rw [fixed, ofFixed, hn]
  | succ count ih =>
    intro n h
    have hlt : n / 256 < 256 ^ count := by
      rw [Nat.div_lt_iff_lt_mul (by decide), ← Nat.pow_succ]
      exact h
    rw [fixed, ofFixed, ih _ hlt, toNat_ofNat (Nat.mod_lt _ (by decide))]
    omega

end Wire

namespace Reader

open Traverse

variable {rest : Bytes}

theorem read_varint {n : Nat} (h : n < Numeral.span 64) :
    varint.read (Wire.varint n ++ rest) = .ok (n, rest) := by
  unfold varint
  simp only [Wire.readVarint_varint h]

theorem read_fixed {count n : Nat} (pos : 0 < count) (h : n < 256 ^ count) :
    (fixed count pos).read (Wire.fixed count n ++ rest) = .ok (n, rest) := by
  have hlen := Wire.length_fixed count n
  have htake : (Wire.fixed count n ++ rest).take count = Wire.fixed count n := by
    rw [List.take_append_of_le_length (by omega), List.take_of_length_le (by omega)]
  have hdrop : (Wire.fixed count n ++ rest).drop count = rest := by
    rw [List.drop_append_of_le_length (by omega), List.drop_of_length_le (by omega), List.nil_append]
  unfold fixed
  simp only
  rw [if_neg (by rw [List.length_append]; omega), htake, hdrop, Wire.ofFixed_fixed count n h]

/-- **The key of a field is read back.** -/
theorem read_key {tag : Nat} (type : WireType) (hpos : 1 ≤ tag) (hle : tag ≤ 536870911) :
    key.read (Wire.key tag type ++ rest) = .ok (⟨tag, type⟩, rest) := by
  have htype : type.number < 8 := by cases type <;> decide
  have h32 : Numeral.span 32 = 4294967296 := by decide
  have h64 : Numeral.span 64 = 18446744073709551616 := by decide
  have hread : varint.read (Wire.key tag type ++ rest) = .ok (tag * 8 + type.number, rest) :=
    read_varint (by omega)
  have hmod : (tag * 8 + type.number) % 8 = type.number := by omega
  have hdiv : (tag * 8 + type.number) / 8 = tag := by omega
  rw [key, read_check _ hread, if_neg (by omega), hmod, WireType.ofNumber?_number]
  simp only
  rw [hdiv, if_neg (by omega)]
  rfl

/-- **Bytes behind their length are read back.** -/
theorem read_delimited {bs : Bytes} (h : bs.Addressable) :
    delimited.read (Wire.delimited bs ++ rest) = .ok (bs, rest) := by
  have htake : (bs ++ rest).take bs.length = bs := by
    rw [List.take_append_of_le_length (Nat.le_refl _), List.take_length]
  have hdrop : (bs ++ rest).drop bs.length = rest := by
    rw [List.drop_append_of_le_length (Nat.le_refl _), List.drop_length, List.nil_append]
  rw [Wire.delimited, List.append_assoc]
  unfold delimited andThen
  simp only [read_varint h]
  rw [if_neg (by rw [List.length_append]; omega), htake, hdrop]

/-- Behind their length, bytes are read until they are used up. -/
theorem read_packed {ε α : Type} {fault : WireFault → ε} {r : Reader ε α} {bs : Bytes}
    (h : bs.Addressable) : (packed fault r).read (Wire.delimited bs ++ rest) =
      r.within (fault .lengthExceeded) bs.length (bs ++ rest) := by
  have hlen : (varint.mapError fault).read (Wire.varint bs.length ++ (bs ++ rest)) =
      .ok (bs.length, bs ++ rest) := mapError_eq_ok_iff.2 (read_varint h)
  rw [Wire.delimited, List.append_assoc]
  unfold packed andThen
  simp only [hlen]
  rw [if_neg (by rw [List.length_append]; omega)]

end Reader

end ProtoSchema
