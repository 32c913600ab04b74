import ProtoSchema.Decimal.Shortest
import ProtoSchema.Proofs.Binary

/-!
# Decimals and the numbers nearest to them

Which binary number is nearest to a decimal depends on its value only (`nearest_congr`), so a decimal
may lose its trailing zeros. The digits of a finite binary number, all of them or the shortest that are
found, are nearest to the number that they were taken from: **every finite number is read back from its
shortest decimal** (`nearest_shortest`).
-/

namespace ProtoSchema.Decimal

open Binary

/-- The number that the decimal is. -/
def toRat (d : Decimal) : ℚ := d.digits * (10 : ℚ) ^ d.exponent

variable {d d' : Decimal}

theorem den_value (d : Decimal) : 0 < d.value.den := Quotient.den_mulPow Nat.one_pos (by decide) _

theorem toRat_value (d : Decimal) : d.value.toRat = d.toRat := by
  rw [value, Quotient.toRat_mulPow, Quotient.toRat, Nat.cast_one, div_one, Nat.cast_ofNat, toRat]

theorem toRat_eq_zero_iff : d.toRat = 0 ↔ d.digits = 0 := by
  rw [toRat, mul_eq_zero_iff_right (zpow_ne_zero _ (by norm_num)), Nat.cast_eq_zero]

theorem toRat_pos (h : d.digits ≠ 0) : 0 < d.toRat :=
  mul_pos (Nat.cast_pos.2 (Nat.pos_of_ne_zero h)) (zpow_pos (by norm_num) _)

/-! ## The position of the first digit -/

theorem digitCount_eq {n : Nat} (h : n ≠ 0) : digitCount n = Nat.log 10 n + 1 := by
  induction n using digitCount.induct with
  | case1 => exact absurd rfl h
  | case2 n _ ih =>
    rw [digitCount, if_neg h]
    by_cases hlt : n < 10
    · rw [Nat.div_eq_of_lt hlt, digitCount, if_pos rfl, Nat.log_of_lt hlt]
    · have hge : 10 ≤ n := Nat.not_lt.1 hlt
      rw [ih (Nat.ne_of_gt (Nat.div_pos hge (by decide))), Nat.log_div_base,
        Nat.sub_add_cancel (Nat.log_pos (by decide) hge)]

/-- The position is the decimal logarithm of the value, from one on. -/
theorem position_eq (h : d.digits ≠ 0) : d.position = Int.log 10 d.toRat + 1 := by
  have hpos := toRat_pos h
  have hten : (0 : ℚ) < 10 := by norm_num
  have hle : ((10 : ℕ) : ℚ) ^ (d.position - 1) ≤ d.toRat := by
    have hdigits : (10 : ℚ) ^ Nat.log 10 d.digits ≤ d.digits := by
      exact_mod_cast Nat.pow_log_le_self 10 h
    have hexponent : d.position - 1 = (Nat.log 10 d.digits : ℤ) + d.exponent := by
      rw [position, digitCount_eq h]
      push_cast
      ring
    rw [hexponent, Nat.cast_ofNat, zpow_add₀ hten.ne', zpow_natCast, toRat]
    exact mul_le_mul_of_nonneg_right hdigits (zpow_pos hten _).le
  have hlt : d.toRat < ((10 : ℕ) : ℚ) ^ (d.position - 1 + 1) := by
    have hdigits : (d.digits : ℚ) < (10 : ℚ) ^ (Nat.log 10 d.digits + 1) := by
      exact_mod_cast Nat.lt_pow_succ_log_self (by decide) d.digits
    rw [sub_add_cancel, position, digitCount_eq h, Nat.cast_ofNat, zpow_add₀ hten.ne', zpow_natCast,
      toRat]
    exact mul_lt_mul_of_pos_right hdigits (zpow_pos hten _)
  rw [log_eq (by decide) hpos hle hlt, sub_add_cancel]

/-! ## The nearest number -/

/-- **Which number is nearest to a decimal depends on its value only.** -/
theorem nearest_congr (f : Format) (h : d.toRat = d'.toRat) : d.nearest f = d'.nearest f := by
  have hzero : d.digits = 0 ↔ d'.digits = 0 := by
    rw [← toRat_eq_zero_iff, h, toRat_eq_zero_iff]
  have hvalue : Binary.nearest f d.value = Binary.nearest f d'.value := by
    refine Binary.nearest_congr f d.den_value d'.den_value ?_
    rw [toRat_value, toRat_value, h]
  by_cases hdigits : d.digits = 0
  · rw [nearest, nearest, if_pos hdigits, if_pos (hzero.1 hdigits)]
  · have hposition : d.position = d'.position := by
      rw [position_eq hdigits, position_eq fun hd => hdigits (hzero.2 hd), h]
    simp only [nearest, hzero, hposition, hvalue]

/-- Dropping trailing zeros keeps the value. -/
theorem toRat_normalize (d : Decimal) : d.normalize.toRat = d.toRat := by
  induction d using normalize.induct with
  | case1 d h => rw [normalize, if_pos h]
  | case2 d h ih =>
    rw [normalize, if_neg h, ih, toRat, toRat]
    have hdigits : d.digits = d.digits / 10 * 10 := by omega
    have hten : (10 : ℚ) ≠ 0 := by norm_num
    conv_rhs => rw [hdigits]
    rw [zpow_add₀ hten, zpow_one]
    push_cast
    ring

/-! ## All digits -/

/-- All digits of a magnitude make its value. -/
theorem toRat_exact (f : Format) (m : Nat) : (exact f m).toRat = (f.value m).toRat := by
  have hten : (10 : ℚ) = 5 * 2 := by norm_num
  rw [f.toRat_value, exact]
  split
  · next he =>
    obtain ⟨n, hn⟩ := Int.eq_ofNat_of_zero_le he
    rw [hn, toRat, zpow_zero, mul_one, Int.toNat_natCast, zpow_natCast]
    exact_mod_cast rfl
  · next he =>
    obtain ⟨n, hn⟩ := Int.eq_ofNat_of_zero_le (Int.neg_nonneg.2 (Int.le_of_lt (Int.not_le.1 he)))
    obtain hn' : f.scale m = -(n : ℤ) := by omega
    have hfive : (5 : ℚ) ^ n * (5 : ℚ) ^ (-(n : ℤ)) = 1 := by
      rw [zpow_neg, zpow_natCast, mul_inv_cancel₀ (pow_ne_zero _ (by norm_num))]
    rw [hn, hn', toRat, Int.toNat_natCast, hten, mul_zpow, Nat.pow_eq]
    push_cast
    rw [mul_assoc, ← mul_assoc (5 ^ n : ℚ), hfive, one_mul]

/-- The units of both formats are neither very small nor very large. -/
theorem scale_bounds {f : Format} (hf : f = single ∨ f = double) {m : Nat} (hm : m < f.infinity) :
    -1203 ≤ f.scale m ∧ f.scale m + f.fraction + 1 ≤ 1200 := by
  rcases hf with rfl | rfl
  · simp [Format.infinity, Format.scale, Format.leastScale, Numeral.span, single] at hm ⊢
    omega
  · simp [Format.infinity, Format.scale, Format.leastScale, Numeral.span, double] at hm ⊢
    omega

/-- Three binary digits make no more than one decimal digit. -/
theorem two_zpow_le (n : Nat) : (2 : ℚ) ^ (3 * (n : ℤ)) ≤ 10 ^ (n : ℤ) := by
  rw [zpow_mul, zpow_natCast, zpow_natCast]
  exact pow_le_pow_left₀ (by norm_num) (by norm_num) n

theorem ten_zpow_neg_le (n : Nat) : (10 : ℚ) ^ (-(n : ℤ)) ≤ 2 ^ (-(3 * (n : ℤ))) := by
  rw [zpow_neg, zpow_neg]
  exact inv_anti₀ (zpow_pos two_pos _) (two_zpow_le n)

/-- All digits of a finite number begin at a position that is not settled without rounding. -/
theorem position_exact {f : Format} (hf : f = single ∨ f = double) {m : Nat} (hm : m < f.infinity)
    (hzero : (exact f m).digits ≠ 0) :
    -reach ≤ (exact f m).position ∧ (exact f m).position ≤ reach := by
  obtain ⟨hlow, hhigh⟩ := scale_bounds hf hm
  have hpos := toRat_pos hzero
  have hscale : (0 : ℚ) < 2 ^ f.scale m := zpow_pos two_pos _
  have hsignificand : f.significand m ≠ 0 := by
    intro h
    rw [toRat_exact, f.toRat_value, h, Nat.cast_zero, zero_mul] at hpos
    exact lt_irrefl _ hpos
  have hlower : ((10 : ℕ) : ℚ) ^ (-((401 : ℕ) : ℤ)) ≤ (exact f m).toRat := by
    calc ((10 : ℕ) : ℚ) ^ (-((401 : ℕ) : ℤ))
        ≤ (2 : ℚ) ^ (-(3 * ((401 : ℕ) : ℤ))) := by
          rw [Nat.cast_ofNat]
          exact ten_zpow_neg_le 401
      _ ≤ (2 : ℚ) ^ f.scale m := zpow_le_zpow_right₀ one_le_two hlow
      _ ≤ f.significand m * (2 : ℚ) ^ f.scale m := by
          refine le_mul_of_one_le_left hscale.le ?_
          exact_mod_cast Nat.one_le_iff_ne_zero.2 hsignificand
      _ = (exact f m).toRat := by rw [toRat_exact, f.toRat_value]
  have hupper : (exact f m).toRat < ((10 : ℕ) : ℚ) ^ ((400 : ℕ) : ℤ) := by
    calc (exact f m).toRat
        = f.significand m * (2 : ℚ) ^ f.scale m := by rw [toRat_exact, f.toRat_value]
      _ < (2 : ℚ) ^ (f.fraction + 1) * (2 : ℚ) ^ f.scale m := by
          refine mul_lt_mul_of_pos_right ?_ hscale
          exact_mod_cast f.significand_lt m
      _ = (2 : ℚ) ^ (f.scale m + f.fraction + 1) := by
          rw [add_assoc, zpow_add₀ two_ne_zero, mul_comm, ← zpow_natCast]
          rfl
      _ ≤ (2 : ℚ) ^ (3 * ((400 : ℕ) : ℤ)) := zpow_le_zpow_right₀ one_le_two hhigh
      _ ≤ ((10 : ℕ) : ℚ) ^ ((400 : ℕ) : ℤ) := by
          rw [Nat.cast_ofNat]
          exact two_zpow_le 400
  have hle := (Int.zpow_le_iff_le_log (by decide) hpos).1 hlower
  have hlt := (Int.lt_zpow_iff_log_lt (by decide) hpos).1 hupper
  rw [position_eq hzero, reach]
  omega

/-- **All digits of a finite number are nearest to it.** -/
theorem nearest_exact {f : Format} (hf : f = single ∨ f = double) {m : Nat} (hm : m < f.infinity) :
    (exact f m).nearest f = m := by
  have hvalue : Binary.nearest f (exact f m).value = m := by
    rw [Binary.nearest_congr f (den_value _) (f.den_value m), nearest_value f hm]
    rw [toRat_value, toRat_exact]
  by_cases hzero : (exact f m).digits = 0
  · have hnum : (exact f m).value.num = 0 := by
      rw [Quotient.num_eq_zero_iff (den_value _), toRat_value, toRat_eq_zero_iff, hzero]
    rw [nearest, if_pos hzero, ← hvalue, Binary.nearest, if_pos hnum]
  · obtain ⟨hlow, hhigh⟩ := position_exact hf hm hzero
    rw [nearest, if_neg hzero, if_neg (not_lt.2 hhigh), if_neg (not_lt.2 hlow), hvalue]

/-! ## The shortest digits -/

theorem nearest_of_neighbour {f : Format} {tie : Tie} {m : Nat} {e : ℤ}
    (h : neighbour? f tie m e = some d) : d.nearest f = m := by
  simp only [neighbour?] at h
  split at h
  · next hbelow =>
    split at h
    · next habove => exact Option.some.inj h ▸ habove.1
    · exact Option.some.inj h ▸ hbelow
  · split at h
    · next habove => exact Option.some.inj h ▸ habove
    · cases h

theorem nearest_search {f : Format} (hf : f = single ∨ f = double) (tie : Tie) {m : Nat}
    (hm : m < f.infinity) (fuel : Nat) (e : ℤ) : (search f tie m fuel e).nearest f = m := by
  induction fuel generalizing e with
  | zero => exact nearest_exact hf hm
  | succ fuel ih =>
    rw [search]
    cases h : neighbour? f tie m (e - 1) with
    | some d => exact nearest_of_neighbour h
    | none => exact ih (e - 1)

/-- **Every finite number is read back from its shortest decimal.** -/
theorem nearest_shortest {f : Format} (hf : f = single ∨ f = double) (tie : Tie) {m : Nat}
    (hm : m < f.infinity) : (shortest f tie m).nearest f = m := by
  rw [shortest, nearest_congr f (toRat_normalize _), nearest_search hf tie hm]

end ProtoSchema.Decimal
