import Mathlib.Data.Int.Log
import Mathlib.Data.Rat.Floor
import Mathlib.Tactic.Linarith
import ProtoSchema.Binary

/-!
# Rounding to binary floating-point numbers

What a quotient is rounded to depends on its value only, whatever its two parts are
(`nearest_congr`), and **every finite number is the one nearest to itself** (`nearest_value`).

Values are rational numbers (`Quotient.toRat`): the whole part of a quotient is that of its value, and
the exponent of the largest power of two below it is its binary logarithm.
-/

namespace ProtoSchema.Binary

/-- A number between a power and the next one has the exponent for its logarithm. -/
theorem log_eq {base : Nat} (hbase : 1 < base) {r : ℚ} (hr : 0 < r) {e : ℤ}
    (hle : (base : ℚ) ^ e ≤ r) (hlt : r < (base : ℚ) ^ (e + 1)) : Int.log base r = e := by
  have hlower := (Int.zpow_le_iff_le_log hbase hr).1 hle
  have hupper := (Int.lt_zpow_iff_log_lt hbase hr).1 hlt
  omega

namespace Quotient

/-- The number that the quotient is. -/
def toRat (x : Quotient) : ℚ := x.num / x.den

variable {x y : Quotient}

theorem den_mulPow {base : Nat} (hx : 0 < x.den) (hbase : 0 < base) (e : ℤ) :
    0 < (x.mulPow base e).den := by
  rw [mulPow]
  split
  · exact hx
  · exact Nat.mul_pos hx (Nat.pow_pos hbase)

theorem toRat_mulPow (x : Quotient) (base : Nat) (e : ℤ) :
    (x.mulPow base e).toRat = x.toRat * (base : ℚ) ^ e := by
  rw [mulPow]
  split
  · next he =>
    obtain ⟨n, rfl⟩ := Int.eq_ofNat_of_zero_le he
    simp only [toRat, Int.toNat_natCast, Nat.pow_eq, Nat.cast_mul, Nat.cast_pow, zpow_natCast]
    exact mul_div_right_comm _ _ _
  · next he =>
    obtain ⟨n, hn⟩ := Int.eq_ofNat_of_zero_le (Int.neg_nonneg.2 (Int.le_of_lt (Int.not_le.1 he)))
    obtain rfl : e = -(n : ℤ) := by omega
    simp only [toRat, Int.neg_neg, Int.toNat_natCast, Nat.pow_eq, Nat.cast_mul, Nat.cast_pow,
      zpow_neg, zpow_natCast]
    exact (div_div _ _ _).symm

/-- Quotients with the same value have the same products of numerator and denominator crosswise. -/
theorem toRat_eq_iff (hx : 0 < x.den) (hy : 0 < y.den) :
    x.toRat = y.toRat ↔ x.num * y.den = y.num * x.den := by
  have hx' : (x.den : ℚ) ≠ 0 := Nat.cast_ne_zero.2 hx.ne'
  have hy' : (y.den : ℚ) ≠ 0 := Nat.cast_ne_zero.2 hy.ne'
  rw [toRat, toRat, div_eq_div_iff hx' hy']
  exact_mod_cast Iff.rfl

theorem num_eq_zero_iff (hx : 0 < x.den) : x.num = 0 ↔ x.toRat = 0 := by
  rw [toRat, div_eq_zero_iff, Nat.cast_eq_zero, Nat.cast_eq_zero]
  omega

theorem toRat_pos (hx : 0 < x.den) (hnum : x.num ≠ 0) : 0 < x.toRat :=
  div_pos (Nat.cast_pos.2 (Nat.pos_of_ne_zero hnum)) (Nat.cast_pos.2 hx)

/-- What a quotient is rounded to depends on its value. -/
theorem round_congr (hx : 0 < x.den) (hy : 0 < y.den) (h : x.toRat = y.toRat) :
    x.round = y.round := by
  have hcross := (toRat_eq_iff hx hy).1 h
  have hfloor : x.floor = y.floor := by
    rw [floor, floor, ← Nat.mul_div_mul_right x.num x.den hy, hcross, Nat.mul_comm x.den y.den,
      Nat.mul_div_mul_right _ _ hx]
  have hrest : x.num % x.den * y.den = y.num % y.den * x.den := by
    rw [← Nat.mul_mod_mul_right, hcross, Nat.mul_comm x.den y.den, Nat.mul_mod_mul_right]
  -- Both rests are compared with one half of their denominators.
  have hlt : 2 * (x.num % x.den) < x.den ↔ 2 * (y.num % y.den) < y.den := by
    rw [← Nat.mul_lt_mul_right hy, ← Nat.mul_lt_mul_right (b := 2 * (y.num % y.den)) hx,
      Nat.mul_assoc, Nat.mul_assoc, hrest, Nat.mul_comm x.den y.den]
  have hgt : x.den < 2 * (x.num % x.den) ↔ y.den < 2 * (y.num % y.den) := by
    rw [← Nat.mul_lt_mul_right hy, ← Nat.mul_lt_mul_right (b := y.den) hx,
      Nat.mul_assoc, Nat.mul_assoc, hrest, Nat.mul_comm x.den y.den]
  simp only [round, hlt, hgt, hfloor]

/-- A natural number is rounded to itself. -/
theorem round_of_toRat {n : Nat} (hx : 0 < x.den) (h : x.toRat = n) : x.round = n := by
  have hn : (⟨n, 1⟩ : Quotient).round = n := by
    simp [round, floor, Nat.mod_one]
  rw [← hn]
  refine round_congr hx Nat.one_pos (h.trans ?_)
  rw [toRat, Nat.cast_one, div_one]

/-- The exponent that is found is the binary logarithm of the value. -/
theorem log2_eq (hx : 0 < x.den) (hnum : x.num ≠ 0) : x.log2 = Int.log 2 x.toRat := by
  have hpos := toRat_pos hx hnum
  have htwo : (0 : ℚ) < 2 := by norm_num
  have hden : (0 : ℚ) < x.den := Nat.cast_pos.2 hx
  -- The logarithms of numerator and denominator give the exponent, or the next one.
  have hnum_le : (2 : ℚ) ^ x.num.log2 ≤ x.num := by exact_mod_cast Nat.log2_self_le hnum
  have hnum_lt : (x.num : ℚ) < 2 ^ (x.num.log2 + 1) := by exact_mod_cast Nat.lt_log2_self
  have hden_le : (2 : ℚ) ^ x.den.log2 ≤ x.den := by exact_mod_cast Nat.log2_self_le hx.ne'
  have hden_lt : (x.den : ℚ) < 2 ^ (x.den.log2 + 1) := by exact_mod_cast Nat.lt_log2_self
  have hbelow : (2 : ℚ) ^ ((x.num.log2 : ℤ) - x.den.log2 - 1) ≤ x.toRat := by
    rw [toRat, le_div_iff₀ hden, zpow_sub₀ htwo.ne', zpow_sub₀ htwo.ne', zpow_natCast, zpow_natCast,
      zpow_one, div_div, ← pow_succ, div_mul_eq_mul_div, div_le_iff₀ (by positivity)]
    exact mul_le_mul hnum_le hden_lt.le hden.le (Nat.cast_nonneg _)
  have habove : x.toRat < (2 : ℚ) ^ ((x.num.log2 : ℤ) - x.den.log2 + 1) := by
    have hsplit : (x.num.log2 : ℤ) - x.den.log2 + 1 = ((x.num.log2 + 1 : ℕ) : ℤ) - x.den.log2 := by
      push_cast
      ring
    rw [toRat, div_lt_iff₀ hden, hsplit, zpow_sub₀ htwo.ne', zpow_natCast, zpow_natCast,
      div_mul_eq_mul_div, lt_div_iff₀ (by positivity)]
    exact mul_lt_mul hnum_lt hden_le (by positivity) (by positivity)
  rw [log2]
  generalize (x.num.log2 : ℤ) - x.den.log2 = e at hbelow habove
  have hone : (x.mulPow 2 (-e)).den ≤ (x.mulPow 2 (-e)).num ↔ (2 : ℚ) ^ e ≤ x.toRat := by
    have hden' : (0 : ℚ) < (x.mulPow 2 (-e)).den := Nat.cast_pos.2 (den_mulPow hx Nat.two_pos _)
    rw [← Nat.cast_le (α := ℚ), ← one_le_div hden', ← toRat, toRat_mulPow, Nat.cast_ofNat, zpow_neg,
      ← div_eq_mul_inv, one_le_div (zpow_pos htwo _)]
  split
  · next h => exact (log_eq one_lt_two hpos (hone.1 h) habove).symm
  · next h =>
    refine (log_eq one_lt_two hpos hbelow ?_).symm
    rw [sub_add_cancel]
    exact lt_of_not_ge fun hle => h (hone.2 hle)

end Quotient

/-- **What a quotient is rounded to depends on its value only.** -/
theorem nearest_congr (f : Format) {x y : Quotient} (hx : 0 < x.den) (hy : 0 < y.den)
    (h : x.toRat = y.toRat) : nearest f x = nearest f y := by
  have hzero : x.num = 0 ↔ y.num = 0 := by
    rw [Quotient.num_eq_zero_iff hx, Quotient.num_eq_zero_iff hy, h]
  by_cases hnum : x.num = 0
  · rw [nearest, nearest, if_pos hnum, if_pos (hzero.1 hnum)]
  · rw [nearest, nearest, if_neg hnum, if_neg fun hy => hnum (hzero.2 hy)]
    rw [Quotient.log2_eq hx hnum, Quotient.log2_eq hy fun hy => hnum (hzero.2 hy), h]
    simp only
    rw [Quotient.round_congr (Quotient.den_mulPow hx Nat.two_pos _)
      (Quotient.den_mulPow hy Nat.two_pos _)]
    rw [Quotient.toRat_mulPow, Quotient.toRat_mulPow, h]

namespace Format

variable (f : Format) {m : Nat}

/-- A pattern is its magnitude, and the sign bit if it is negative. -/
theorem bits_eq {f : Format} {bits : Nat} (h : bits < 2 * f.signBit) :
    bits = if f.isNegative bits then f.signBit + f.magnitude bits else f.magnitude bits := by
  rw [isNegative, magnitude]
  by_cases hneg : f.signBit ≤ bits
  · rw [if_pos (decide_eq_true hneg), Nat.mod_eq_sub_mod hneg, Nat.mod_eq_of_lt (by omega)]
    omega
  · rw [if_neg (by simpa using hneg), Nat.mod_eq_of_lt (Nat.not_le.1 hneg)]

theorem den_value (m : Nat) : 0 < (f.value m).den := Quotient.den_mulPow Nat.one_pos Nat.two_pos _

/-- A magnitude is a number of units, each a power of two. -/
theorem toRat_value (m : Nat) :
    (f.value m).toRat = (f.significand m : ℚ) * (2 : ℚ) ^ f.scale m := by
  rw [value, Quotient.toRat_mulPow, Quotient.toRat, Nat.cast_one, div_one, Nat.cast_ofNat]

theorem span_pos (n : Nat) : 0 < Numeral.span n := Nat.pow_pos Nat.two_pos

/-- The units of a magnitude behind those of all smaller scales. -/
theorem magnitude_eq (m : Nat) :
    (f.scale m - f.leastScale).toNat * Numeral.span f.fraction + f.significand m = m := by
  have hscale : (f.scale m - f.leastScale).toNat = m / Numeral.span f.fraction - 1 := by
    rw [scale]
    omega
  rw [hscale, significand]
  split
  · next hlt => rw [Nat.div_eq_of_lt hlt, Nat.zero_sub, Nat.zero_mul, Nat.zero_add]
  · next hge =>
    have hone : 1 ≤ m / Numeral.span f.fraction :=
      (Nat.one_le_div_iff (span_pos _)).2 (Nat.not_lt.1 hge)
    obtain ⟨q, hq⟩ := Nat.exists_eq_add_of_le hone
    have hdiv := Nat.div_add_mod m (Numeral.span f.fraction)
    rw [hq] at hdiv ⊢
    rw [Nat.add_sub_cancel_left]
    linarith

theorem significand_ne_zero (hm : m ≠ 0) : f.significand m ≠ 0 := by
  rw [significand]
  split
  · exact hm
  · exact Nat.ne_of_gt (Nat.add_pos_right _ (span_pos _))

theorem significand_lt (m : Nat) : f.significand m < Numeral.span (f.fraction + 1) := by
  have hdouble : Numeral.span (f.fraction + 1) = 2 * Numeral.span f.fraction := Nat.pow_succ'
  rw [significand, hdouble]
  split
  · omega
  · have := Nat.mod_lt m (span_pos f.fraction)
    omega

/-- Above the smallest scale, the first digit of the significand is not zero. -/
theorem le_significand (h : f.leastScale < f.scale m) :
    Numeral.span f.fraction ≤ f.significand m := by
  rw [significand]
  split
  · next hlt =>
    rw [scale, Nat.div_eq_of_lt hlt] at h
    exact absurd h (by simp)
  · exact Nat.le_add_left _ _

end Format

/-- **Every finite number is the one nearest to itself.** -/
theorem nearest_value (f : Format) {m : Nat} (hm : m < f.infinity) : nearest f (f.value m) = m := by
  have hden := f.den_value m
  by_cases hzero : m = 0
  · have hnum : (f.value m).num = 0 := by
      rw [Quotient.num_eq_zero_iff hden, f.toRat_value, hzero]
      simp [Format.significand, Format.span_pos]
    rw [nearest, if_pos hnum, hzero]
  · have hsignificand := f.significand_ne_zero hzero
    have hnum : (f.value m).num ≠ 0 := by
      rw [Ne, Quotient.num_eq_zero_iff hden, f.toRat_value]
      exact mul_ne_zero (Nat.cast_ne_zero.2 hsignificand) (zpow_ne_zero _ two_ne_zero)
    have hlog : max ((f.value m).log2 - f.fraction) f.leastScale = f.scale m := by
      have hpos := Quotient.toRat_pos hden hnum
      have hle : f.leastScale ≤ f.scale m := by
        rw [Format.scale]
        omega
      rw [Quotient.log2_eq hden hnum]
      -- The significand is too small for a larger scale, and large enough for its own.
      have hupper : Int.log 2 (f.value m).toRat < f.scale m + f.fraction + 1 := by
        refine (Int.lt_zpow_iff_log_lt one_lt_two hpos).1 ?_
        rw [f.toRat_value, Nat.cast_ofNat, add_assoc, add_comm, zpow_add₀ two_ne_zero]
        refine mul_lt_mul_of_pos_right ?_ (zpow_pos two_pos _)
        exact_mod_cast f.significand_lt m
      have hlower : f.leastScale < f.scale m →
          f.scale m + f.fraction ≤ Int.log 2 (f.value m).toRat := by
        intro hlt
        refine (Int.zpow_le_iff_le_log one_lt_two hpos).1 ?_
        rw [f.toRat_value, Nat.cast_ofNat, add_comm, zpow_add₀ two_ne_zero]
        refine mul_le_mul_of_nonneg_right ?_ (zpow_pos two_pos _).le
        exact_mod_cast f.le_significand hlt
      omega
    have hunits : ((f.value m).mulPow 2 (-f.scale m)).round = f.significand m := by
      refine Quotient.round_of_toRat (Quotient.den_mulPow hden Nat.two_pos _) ?_
      rw [Quotient.toRat_mulPow, f.toRat_value, Nat.cast_ofNat, mul_assoc,
        ← zpow_add₀ two_ne_zero, add_neg_cancel, zpow_zero, mul_one]
    rw [nearest, if_neg hnum]
    simp only [hlog, hunits, f.magnitude_eq]
    exact Nat.min_eq_left hm.le

end ProtoSchema.Binary
