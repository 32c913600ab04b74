import ProtoSchema.Proofs.Decimal.Nearest

/-!
# The closest floating-point number

`IsClosest` says, without any algorithm, that a floating-point number is the one nearest to a rational
number: no other is nearer, and of two that are equally near it is the even one. Infinity takes part as
the number that would come behind the largest.

**Rounding a quotient, and so a decimal, gives the closest number** (`Binary.isClosest_nearest`,
`Decimal.isClosest_nearest`). Numbers grow with their patterns, so only two of them have to be looked
at: the last that is not above the quotient, and the one behind it (`isClosest_of_between`).
-/

namespace ProtoSchema.Binary

/-- No magnitude up to infinity is nearer to the number, and when another one is as near, the magnitude
is even. -/
structure IsClosest (f : Format) (r : ℚ) (m : Nat) : Prop where
  le : m ≤ f.infinity
  least : ∀ k ≤ f.infinity, |(f.value m).toRat - r| ≤ |(f.value k).toRat - r|
  even : ∀ k ≤ f.infinity, k ≠ m → |(f.value k).toRat - r| = |(f.value m).toRat - r| → m % 2 = 0

/-- The pattern is a closest number with its sign; zero may have either. -/
inductive IsClosestPattern (f : Format) : ℚ → Nat → Prop
  | positive {r : ℚ} {m : Nat} (hr : 0 ≤ r) (h : IsClosest f r m) : IsClosestPattern f r m
  | negative {r : ℚ} {m : Nat} (hr : 0 ≤ r) (h : IsClosest f r m) :
    IsClosestPattern f (-r) (f.signBit + m)

namespace Format

variable (f : Format) {m n t : Nat}

/-- The magnitude that is `n` units of one of the scales behind all smaller ones. The last of them is
the first of the next scale. -/
theorem toRat_value_units (hlow : t ≠ 0 → Numeral.span f.fraction ≤ n)
    (hn : n ≤ 2 * Numeral.span f.fraction) :
    (f.value (t * Numeral.span f.fraction + n)).toRat = n * (2 : ℚ) ^ (f.leastScale + t) := by
  have hpos := span_pos f.fraction
  rw [toRat_value, significand, scale]
  generalize Numeral.span f.fraction = u at *
  by_cases hlt : n < u
  · obtain rfl : t = 0 := by
      by_contra ht
      exact absurd (hlow ht) (not_le.2 hlt)
    rw [Nat.zero_mul, Nat.zero_add, if_pos hlt, Nat.div_eq_of_lt hlt]
  · obtain ⟨k, rfl⟩ := Nat.exists_eq_add_of_le (not_lt.1 hlt)
    have hsplit : t * u + (u + k) = k + u * (t + 1) := by ring
    rw [if_neg (by omega), hsplit, Nat.add_mul_mod_self_left, Nat.add_mul_div_left _ _ hpos]
    rcases Nat.lt_or_eq_of_le (show k ≤ u by omega) with hk | rfl
    · rw [Nat.mod_eq_of_lt hk, Nat.div_eq_of_lt hk, Nat.zero_add, Nat.add_sub_cancel, Nat.add_comm k]
    · rw [Nat.mod_self, Nat.div_self hpos, Nat.zero_add, Nat.add_sub_cancel_left]
      push_cast
      rw [← add_assoc, zpow_add_one₀ two_ne_zero]
      ring

theorem toRat_value_zero : (f.value 0).toRat = 0 := by
  rw [toRat_value, significand, if_pos (span_pos _), Nat.cast_zero, zero_mul]

/-- **Numbers grow with their patterns.** -/
theorem strictMono_value : StrictMono fun m => (f.value m).toRat := by
  refine strictMono_nat_of_lt_succ fun m => ?_
  have hscale : f.scale m = f.leastScale + (f.scale m - f.leastScale).toNat := by
    rw [scale]
    omega
  have hlt := f.significand_lt m
  have hdouble : Numeral.span (f.fraction + 1) = 2 * Numeral.span f.fraction := Nat.pow_succ'
  have hnext : (f.value (m + 1)).toRat = ((f.significand m + 1 : ℕ) : ℚ) * (2 : ℚ) ^ f.scale m := by
    rw [hscale, ← f.toRat_value_units ?_ (by omega), ← Nat.add_assoc, f.magnitude_eq]
    intro ht
    have := f.le_significand (m := m) (by omega)
    omega
  rw [hnext, f.toRat_value]
  refine mul_lt_mul_of_pos_right ?_ (zpow_pos two_pos _)
  exact_mod_cast Nat.lt_succ_self _

end Format

variable {f : Format} {r : ℚ} {a m : Nat}

/-- What reaches infinity is closest to it. -/
theorem isClosest_infinity (h : (f.value f.infinity).toRat ≤ r) : IsClosest f r f.infinity where
  le := Nat.le_refl _
  least k hk := by
    have hmono := f.strictMono_value.monotone hk
    rw [abs_of_nonpos (by linarith), abs_of_nonpos (by linarith)]
    linarith
  even k hk hne heq := by
    have hmono := f.strictMono_value (lt_of_le_of_ne hk hne)
    rw [abs_of_nonpos (by linarith), abs_of_nonpos (by linarith)] at heq
    linarith

/-- Of the numbers other than the two around a number, each is farther away than the one of the two that
lies on its side. -/
theorem farther_of_between (ha : (f.value a).toRat ≤ r) (hr : r < (f.value (a + 1)).toRat) (k : Nat) :
    k = a ∨ k = a + 1 ∨ r - (f.value a).toRat < |(f.value k).toRat - r| ∨
      (f.value (a + 1)).toRat - r < |(f.value k).toRat - r| := by
  rcases Nat.lt_trichotomy k a with hk | hk | hk
  · have hmono := f.strictMono_value hk
    refine Or.inr (Or.inr (Or.inl ?_))
    rw [abs_sub_comm, abs_of_nonneg (by linarith)]
    linarith
  · exact Or.inl hk
  · rcases Nat.eq_or_lt_of_le (Nat.succ_le_of_lt hk) with hk | hk
    · exact Or.inr (Or.inl hk.symm)
    · have hmono := f.strictMono_value hk
      refine Or.inr (Or.inr (Or.inr ?_))
      rw [abs_of_nonneg (by linarith)]
      linarith

/-- **The nearer of the two numbers around a number is the closest of all.** -/
theorem isClosest_of_between (ha : (f.value a).toRat ≤ r) (hr : r < (f.value (a + 1)).toRat)
    (hm : (m = a ∧ (r - (f.value a).toRat < (f.value (a + 1)).toRat - r ∨
        r - (f.value a).toRat = (f.value (a + 1)).toRat - r ∧ a % 2 = 0)) ∨
      (m = a + 1 ∧ ((f.value (a + 1)).toRat - r < r - (f.value a).toRat ∨
        r - (f.value a).toRat = (f.value (a + 1)).toRat - r ∧ (a + 1) % 2 = 0))) :
    IsClosest f r (min m f.infinity) := by
  rcases Nat.lt_or_ge a f.infinity with hlt | hge
  · have hnext : |(f.value (a + 1)).toRat - r| = (f.value (a + 1)).toRat - r := abs_of_pos (sub_pos.2 hr)
    have hlast : |(f.value a).toRat - r| = r - (f.value a).toRat := by
      rw [abs_sub_comm, abs_of_nonneg (sub_nonneg.2 ha)]
    have hnear : |(f.value m).toRat - r| ≤ r - (f.value a).toRat ∧
        |(f.value m).toRat - r| ≤ (f.value (a + 1)).toRat - r := by
      rcases hm with ⟨rfl, h | ⟨h, -⟩⟩ | ⟨rfl, h | ⟨h, -⟩⟩
      · exact ⟨hlast.le, hlast.trans_le h.le⟩
      · exact ⟨hlast.le, hlast.trans_le h.le⟩
      · exact ⟨hnext.trans_le h.le, hnext.le⟩
      · exact ⟨hnext.trans_le h.ge, hnext.le⟩
    have hfar : ∀ k, k = a ∨ k = a + 1 ∨ |(f.value m).toRat - r| < |(f.value k).toRat - r| := fun k =>
      (farther_of_between ha hr k).imp_right (Or.imp_right fun h =>
        h.elim hnear.1.trans_lt hnear.2.trans_lt)
    rw [Nat.min_eq_left (by omega : m ≤ f.infinity)]
    refine ⟨by omega, fun k _ => ?_, fun k _ hne heq => ?_⟩
    · rcases hfar k with rfl | rfl | hk
      · exact hnear.1.trans_eq hlast.symm
      · exact hnear.2.trans_eq hnext.symm
      · exact hk.le
    · rcases hfar k with rfl | rfl | hk
      · rcases hm with ⟨rfl, -⟩ | ⟨rfl, h | ⟨-, heven⟩⟩
        · exact absurd rfl hne
        · linarith
        · exact heven
      · rcases hm with ⟨rfl, h | ⟨-, heven⟩⟩ | ⟨rfl, -⟩
        · linarith
        · exact heven
        · exact absurd rfl hne
      · exact absurd heq hk.ne'
  · -- Both numbers are infinity or lie above it.
    rw [Nat.min_eq_right (by omega)]
    exact isClosest_infinity (le_trans (f.strictMono_value.monotone hge) ha)

/-! ## Quotients -/

/-- The whole number nearest to a quotient is the one below it or the one behind that. -/
theorem Quotient.round_cases {x : Quotient} (hx : 0 < x.den) :
    (x.floor : ℚ) ≤ x.toRat ∧ x.toRat < x.floor + 1 ∧
      ((x.round = x.floor ∧ (x.toRat - x.floor < x.floor + 1 - x.toRat ∨
          x.toRat - x.floor = x.floor + 1 - x.toRat ∧ x.floor % 2 = 0)) ∨
        (x.round = x.floor + 1 ∧ (x.floor + 1 - x.toRat < x.toRat - x.floor ∨
          x.toRat - x.floor = x.floor + 1 - x.toRat ∧ (x.floor + 1) % 2 = 0))) := by
  have hden : (0 : ℚ) < x.den := Nat.cast_pos.2 hx
  have hrest : x.toRat = x.floor + (x.num % x.den : ℕ) / x.den := by
    rw [toRat, div_eq_iff hden.ne', add_mul, div_mul_cancel₀ _ hden.ne', floor, mul_comm]
    exact_mod_cast (Nat.div_add_mod x.num x.den).symm
  have hlt := Nat.mod_lt x.num hx
  have hlow : 2 * (x.num % x.den) < x.den ↔ (x.num % x.den : ℕ) / x.den < (1 / 2 : ℚ) := by
    rw [div_lt_div_iff₀ hden two_pos, one_mul, mul_comm]
    exact_mod_cast Iff.rfl
  have hhigh : x.den < 2 * (x.num % x.den) ↔ (1 / 2 : ℚ) < (x.num % x.den : ℕ) / x.den := by
    rw [div_lt_div_iff₀ two_pos hden, one_mul, mul_comm]
    exact_mod_cast Iff.rfl
  have hnonneg : (0 : ℚ) ≤ (x.num % x.den : ℕ) / x.den := div_nonneg (Nat.cast_nonneg _) hden.le
  have hone : ((x.num % x.den : ℕ) : ℚ) / x.den < 1 := (div_lt_one hden).2 (Nat.cast_lt.2 hlt)
  simp only [round, hlow, hhigh, hrest]
  generalize ((x.num % x.den : ℕ) : ℚ) / x.den = q at *
  refine ⟨by linarith, by linarith, ?_⟩
  split_ifs with hbelow habove
  · exact Or.inl ⟨rfl, Or.inl (by linarith)⟩
  · exact Or.inr ⟨rfl, Or.inl (by linarith)⟩
  · obtain rfl : q = 1 / 2 := le_antisymm (not_lt.1 habove) (not_lt.1 hbelow)
    have htie : (x.floor : ℚ) + 1 / 2 - x.floor = x.floor + 1 - (x.floor + 1 / 2) := by ring
    rcases Nat.mod_two_eq_zero_or_one x.floor with heven | hodd
    · exact Or.inl ⟨by omega, Or.inr ⟨htie, heven⟩⟩
    · exact Or.inr ⟨by omega, Or.inr ⟨htie, by omega⟩⟩

/-- The scale that a quotient is rounded on: between one and two spans of units of it make the quotient,
or fewer on the smallest one. -/
theorem scale_spec (f : Format) {x : Quotient} (hx : 0 < x.den) (hnum : x.num ≠ 0) :
    ∃ t : ℕ, max (x.log2 - f.fraction) f.leastScale = f.leastScale + t ∧
      (t ≠ 0 → (Numeral.span f.fraction : ℚ) * 2 ^ (f.leastScale + t) ≤ x.toRat) ∧
        x.toRat < (2 * Numeral.span f.fraction : ℕ) * 2 ^ (f.leastScale + t) := by
  have hpos := Quotient.toRat_pos hx hnum
  obtain ⟨t, ht⟩ : ∃ t : ℕ, max (x.log2 - f.fraction) f.leastScale = f.leastScale + t :=
    ⟨(max (x.log2 - f.fraction) f.leastScale - f.leastScale).toNat, by omega⟩
  have hspan : ((Numeral.span f.fraction : ℕ) : ℚ) = 2 ^ (f.fraction : ℤ) := by
    rw [Numeral.span, Nat.pow_eq, Nat.cast_pow, Nat.cast_ofNat, zpow_natCast]
  have hle := Int.zpow_log_le_self one_lt_two hpos
  have hlt := Int.lt_zpow_succ_log_self one_lt_two x.toRat
  rw [← Quotient.log2_eq hx hnum, Nat.cast_ofNat] at hle hlt
  refine ⟨t, ht, fun h => ?_, ?_⟩
  · rw [hspan, ← zpow_add₀ two_ne_zero]
    exact (zpow_le_zpow_right₀ one_le_two (by omega)).trans hle
  · rw [Nat.cast_mul, hspan, Nat.cast_ofNat, mul_assoc, ← zpow_add₀ two_ne_zero,
      ← zpow_one_add₀ two_ne_zero]
    exact hlt.trans_le (zpow_le_zpow_right₀ one_le_two (by omega))

/-- A number between `n` and `n + 1` units of its scale is closest to the nearer of the two, since both
are numbers of the format. -/
theorem isClosest_of_units (hf : f.fraction ≠ 0) {t n : ℕ} {q : ℚ}
    (hlow : t ≠ 0 → Numeral.span f.fraction ≤ n) (hhigh : n < 2 * Numeral.span f.fraction)
    (hfloor : n ≤ q) (hceil : q < n + 1)
    (hm : (m = n ∧ (q - n < n + 1 - q ∨ q - n = n + 1 - q ∧ n % 2 = 0)) ∨
      (m = n + 1 ∧ (n + 1 - q < q - n ∨ q - n = n + 1 - q ∧ (n + 1) % 2 = 0))) :
    IsClosest f (q * 2 ^ (f.leastScale + t)) (min (t * Numeral.span f.fraction + m) f.infinity) := by
  have hvalue := f.toRat_value_units hlow hhigh.le
  have hvalue' := f.toRat_value_units (n := n + 1) (fun h => (hlow h).trans (Nat.le_succ n)) hhigh
  rw [← Nat.add_assoc, Nat.cast_succ] at hvalue'
  have hunit : (0 : ℚ) < 2 ^ (f.leastScale + t) := zpow_pos two_pos _
  have heven : (t * Numeral.span f.fraction + n) % 2 = n % 2 := by
    have hspan : Numeral.span f.fraction = 2 * Numeral.span (f.fraction - 1) := by
      rw [Numeral.span, Numeral.span, Nat.pow_eq, Nat.pow_eq, ← pow_succ', Nat.sub_add_cancel (by omega)]
    rw [hspan, Nat.mul_left_comm, Nat.mul_add_mod]
  refine isClosest_of_between (a := t * Numeral.span f.fraction + n) ?_ ?_ ?_
  · rw [hvalue]
    exact mul_le_mul_of_nonneg_right hfloor hunit.le
  · rw [hvalue']
    exact mul_lt_mul_of_pos_right hceil hunit
  · rw [hvalue, hvalue', ← sub_mul, ← sub_mul, mul_lt_mul_iff_left₀ hunit, mul_lt_mul_iff_left₀ hunit,
      mul_left_inj' hunit.ne', heven, Nat.add_mod _ 1, heven, ← Nat.add_mod]
    exact hm.imp (fun h => ⟨by rw [h.1], h.2⟩) fun h => ⟨by rw [h.1, Nat.add_assoc], h.2⟩

/-- **A quotient is rounded to the closest number.** -/
theorem isClosest_nearest {x : Quotient} (hf : f.fraction ≠ 0) (hx : 0 < x.den) :
    IsClosest f x.toRat (nearest f x) := by
  rw [nearest]
  by_cases hnum : x.num = 0
  · rw [if_pos hnum, (Quotient.num_eq_zero_iff hx).1 hnum]
    refine ⟨Nat.zero_le _, fun k _ => ?_, fun _ _ _ _ => rfl⟩
    rw [f.toRat_value_zero, sub_zero, abs_zero]
    exact abs_nonneg _
  · obtain ⟨t, ht, hlow, hhigh⟩ := scale_spec f hx hnum
    have hunit : (0 : ℚ) < 2 ^ (f.leastScale + t) := zpow_pos two_pos _
    obtain ⟨hfloor, hceil, hround⟩ := Quotient.round_cases
      (Quotient.den_mulPow hx Nat.two_pos (-(f.leastScale + t)))
    rw [Quotient.toRat_mulPow, Nat.cast_ofNat, zpow_neg, ← div_eq_mul_inv] at hfloor hceil hround
    simp only [if_neg hnum, ht, add_sub_cancel_left, Int.toNat_natCast]
    generalize x.mulPow 2 (-(f.leastScale + t)) = y at hfloor hceil hround ⊢
    have hn : t ≠ 0 → Numeral.span f.fraction ≤ y.floor := by
      intro h
      have hspan := ((le_div_iff₀ hunit).2 (hlow h)).trans_lt hceil
      exact Nat.lt_succ_iff.1 (by exact_mod_cast hspan)
    have hn' : y.floor < 2 * Numeral.span f.fraction := by
      have hspan := hfloor.trans_lt ((div_lt_iff₀ hunit).2 hhigh)
      exact_mod_cast hspan
    have hclosest := isClosest_of_units hf hn hn' hfloor hceil hround
    rwa [div_mul_cancel₀ _ hunit.ne'] at hclosest

end ProtoSchema.Binary

/-! ## Decimals -/

namespace ProtoSchema.Decimal

open Binary

variable {f : Format} {r : ℚ}

/-- Numbers beyond the reach are closest to infinity. -/
theorem isClosest_infinity_of_reach (hf : f = single ∨ f = double) (hr : (10 : ℚ) ^ (400 : ℤ) ≤ r) :
    IsClosest f r f.infinity := by
  have hlarge : f.scale f.infinity + (f.fraction + 1) ≤ 3 * (400 : ℕ) := by
    rcases hf with rfl | rfl <;> decide
  have hsignificand : (f.significand f.infinity : ℚ) ≤ 2 ^ ((f.fraction + 1 : ℕ) : ℤ) := by
    rw [zpow_natCast]
    exact_mod_cast (f.significand_lt f.infinity).le
  refine isClosest_infinity (le_trans ?_ hr)
  calc (f.value f.infinity).toRat
      = f.significand f.infinity * 2 ^ f.scale f.infinity := f.toRat_value _
    _ ≤ 2 ^ ((f.fraction + 1 : ℕ) : ℤ) * 2 ^ f.scale f.infinity :=
        mul_le_mul_of_nonneg_right hsignificand (zpow_pos two_pos _).le
    _ = 2 ^ (f.scale f.infinity + (f.fraction + 1)) := by
        rw [← zpow_add₀ two_ne_zero, add_comm, Nat.cast_succ]
    _ ≤ 2 ^ (3 * ((400 : ℕ) : ℤ)) := zpow_le_zpow_right₀ one_le_two hlarge
    _ ≤ 10 ^ ((400 : ℕ) : ℤ) := two_zpow_le 400

/-- Numbers below the reach are closest to zero. -/
theorem isClosest_zero_of_reach (hf : f = single ∨ f = double) (hr : 0 ≤ r)
    (hlt : r < (10 : ℚ) ^ (-400 : ℤ)) : IsClosest f r 0 := by
  have hsmall : -(3 * (400 : ℕ)) ≤ f.leastScale - 1 := by
    rcases hf with rfl | rfl <;> decide
  have hone := f.toRat_value_units (t := 0) (n := 1) (fun h => absurd rfl h)
    (Nat.mul_pos Nat.two_pos (Format.span_pos _))
  rw [Nat.zero_mul, Nat.zero_add, Nat.cast_one, one_mul, Nat.cast_zero, add_zero] at hone
  have hhalf : (10 : ℚ) ^ (-400 : ℤ) ≤ 2 ^ (f.leastScale - 1) :=
    (ten_zpow_neg_le 400).trans (zpow_le_zpow_right₀ one_le_two hsmall)
  rw [zpow_sub_one₀ two_ne_zero] at hhalf
  have hclosest : IsClosest f r (min 0 f.infinity) := by
    refine isClosest_of_between (a := 0) ?_ ?_ (Or.inl ⟨rfl, Or.inl ?_⟩)
    · rwa [f.toRat_value_zero]
    · rw [hone]
      linarith
    · rw [hone, f.toRat_value_zero]
      linarith
  rwa [Nat.zero_min] at hclosest

/-- **The number nearest to a decimal is the closest to its value.** -/
theorem isClosest_nearest (hf : f = single ∨ f = double) (d : Decimal) :
    IsClosest f d.toRat (d.nearest f) := by
  have hfraction : f.fraction ≠ 0 := by rcases hf with rfl | rfl <;> decide
  have hnearest : IsClosest f d.toRat (Binary.nearest f d.value) := by
    rw [← toRat_value]
    exact Binary.isClosest_nearest hfraction d.den_value
  rw [nearest]
  by_cases hzero : d.digits = 0
  · have hnum : d.value.num = 0 := by
      rw [Quotient.num_eq_zero_iff d.den_value, toRat_value, toRat_eq_zero_iff, hzero]
    rw [Binary.nearest, if_pos hnum] at hnearest
    rwa [if_pos hzero]
  · have hpos := toRat_pos hzero
    have hlow := Int.zpow_log_le_self (b := 10) (by decide) hpos
    have hhigh := Int.lt_zpow_succ_log_self (b := 10) (by decide) d.toRat
    rw [Nat.cast_ofNat] at hlow hhigh
    rw [if_neg hzero, position_eq hzero, reach]
    split_ifs with hlarge hsmall
    · refine isClosest_infinity_of_reach hf (le_trans ?_ hlow)
      exact zpow_le_zpow_right₀ (by norm_num) (by omega)
    · refine isClosest_zero_of_reach hf hpos.le (hhigh.trans_le ?_)
      exact zpow_le_zpow_right₀ (by norm_num) (by omega)
    · exact hnearest

end ProtoSchema.Decimal
