import Mathlib.Data.List.TakeWhile
import ProtoSchema.Proofs.Decimal.Closest
import ProtoSchema.Proofs.Decimal.Text
import ProtoSchema.Proofs.Numeral

/-!
# What a decimal number writes

`Decimal.Writes` says which rational number digits with a point and an exponent write, and
`Numeral.Signed` what a sign in front adds to it. **A text that writes a number is read as the
floating-point number closest to it**, and whatever else is read is not finite (`toBits?_of_writes`,
`writes_of_toBits?`).
-/

namespace ProtoSchema

/-- The characters write a value with a sign in front, or without one. -/
inductive Numeral.Signed {α : Type} [Neg α] (W : List Char → α → Prop) : List Char → α → Prop
  | plain {cs : List Char} {v : α} (h : W cs v) : Signed W cs v
  | plus {cs : List Char} {v : α} (h : W cs v) : Signed W ('+' :: cs) v
  | minus {cs : List Char} {v : α} (h : W cs v) : Signed W ('-' :: cs) (-v)

namespace Decimal

open Binary Numeral

/-- The characters are decimal digits and write the number. -/
def WritesDigits (cs : List Char) (v : ℤ) : Prop := ∃ n : ℕ, Numeral.Writes 10 cs n ∧ v = n

/-- The characters write an exponent, which may be missing. -/
inductive Exponent : List Char → ℤ → Prop
  | missing : Exponent [] 0
  | marked {c : Char} {cs : List Char} {e : ℤ} (mark : c = 'e' ∨ c = 'E')
    (h : Signed WritesDigits cs e) : Exponent (c :: cs) e

/-- The characters write the number: digits, or digits with a point in front of, between or behind them,
and an exponent. -/
inductive Writes : List Char → ℚ → Prop
  | whole {whole rest : List Char} {n : ℕ} {e : ℤ} (digits : Numeral.Writes 10 whole n)
    (exponent : Exponent rest e) : Writes (whole ++ rest) (n * 10 ^ e)
  | point {whole part rest : List Char} {n : ℕ} {e : ℤ} (digits : Numeral.Writes 10 (whole ++ part) n)
    (exponent : Exponent rest e) :
    Writes (whole ++ '.' :: (part ++ rest)) (n * 10 ^ (e - part.length))

variable {cs : List Char} {e : ℤ} {q : ℚ}

/-! ## Exponents -/

theorem integer?_eq_some_iff : integer? cs = some e ↔ Signed WritesDigits cs e := by
  constructor
  · intro h
    unfold integer? at h
    split at h
    · obtain ⟨v, hv, rfl⟩ := Option.map_eq_some_iff.1 h
      obtain ⟨n, hn, hv⟩ := Option.bind_eq_some_iff.1 hv
      obtain rfl := Option.some.inj hv
      exact .minus ⟨n, (natural?_eq_some_iff (by decide)).1 hn, rfl⟩
    · obtain ⟨n, hn, rfl⟩ := Option.map_eq_some_iff.1 h
      exact .plus ⟨n, (natural?_eq_some_iff (by decide)).1 hn, rfl⟩
    · obtain ⟨n, hn, rfl⟩ := Option.map_eq_some_iff.1 h
      exact .plain ⟨n, (natural?_eq_some_iff (by decide)).1 hn, rfl⟩
  · intro h
    cases h with
    | plain h =>
      obtain ⟨n, hn, rfl⟩ := h
      obtain ⟨hne, hdigits, rfl⟩ := (writes_iff (by decide)).1 hn
      exact integer?_of_digits hne hdigits
    | plus h =>
      obtain ⟨n, hn, rfl⟩ := h
      rw [integer?, (natural?_eq_some_iff (by decide)).2 hn]
      rfl
    | minus h =>
      obtain ⟨n, hn, rfl⟩ := h
      rw [integer?, (natural?_eq_some_iff (by decide)).2 hn]
      rfl

theorem exponent?_eq_some_iff : exponent? cs = some e ↔ Exponent cs e := by
  constructor
  · intro h
    cases cs with
    | nil =>
      obtain rfl := Option.some.inj h
      exact .missing
    | cons c cs =>
      rw [exponent?, Option.ite_none_right_eq_some] at h
      exact .marked h.1 (integer?_eq_some_iff.1 h.2)
  · intro h
    cases h with
    | missing => rfl
    | marked mark h => rw [exponent?, if_pos mark, integer?_eq_some_iff.2 h]

/-! ## Decimals -/

/-- What stands behind the whole digits is a point, digits and a rest, or the rest alone. -/
theorem fraction_cases {part rest : List Char} (h : fraction cs = (part, rest)) :
    (∀ c ∈ part, isDigit 10 c = true) ∧
      (cs = '.' :: (part ++ rest) ∨ part = [] ∧ cs = rest) := by
  unfold fraction at h
  split at h
  · obtain ⟨rfl, rfl⟩ := Prod.mk.inj h
    rw [List.takeWhile_append_dropWhile]
    exact ⟨fun c hc => List.mem_takeWhile_imp hc, Or.inl rfl⟩
  · obtain ⟨rfl, rfl⟩ := Prod.mk.inj h
    exact ⟨fun c hc => absurd hc List.not_mem_nil, Or.inr ⟨rfl, rfl⟩⟩

theorem writes_of_decimal? {d : Decimal} (h : decimal? cs = some d) : Writes cs d.toRat := by
  simp only [decimal?] at h
  have hsplit := List.takeWhile_append_dropWhile (p := isDigit 10) (l := cs)
  have hwhole : ∀ c ∈ cs.takeWhile (isDigit 10), isDigit 10 c = true :=
    fun c hc => List.mem_takeWhile_imp hc
  -- From here on only what is known of the three parts counts, not how they were cut out.
  generalize cs.takeWhile (isDigit 10) = whole at h hsplit hwhole
  generalize hbehind : cs.dropWhile (isDigit 10) = behind at h hsplit
  obtain ⟨hpart, hcases⟩ := fraction_cases (Prod.mk.eta (p := fraction behind)).symm
  generalize (fraction behind).1 = part at h hpart hcases
  generalize (fraction behind).2 = rest at h hcases
  obtain ⟨hne, h⟩ := Option.ite_none_left_eq_some.1 h
  obtain ⟨e, he, rfl⟩ := Option.map_eq_some_iff.1 h
  have hdigits : Numeral.Writes 10 (whole ++ part) (Numeral.value 10 (whole ++ part)) := by
    refine (writes_iff (by decide)).2 ⟨fun hnil => hne (List.append_eq_nil_iff.1 hnil), ?_, rfl⟩
    intro c hc
    exact (List.mem_append.1 hc).elim (hwhole c) (hpart c)
  have hexponent := exponent?_eq_some_iff.1 he
  rw [← hsplit]
  rcases hcases with rfl | ⟨rfl, rfl⟩
  · exact .point hdigits hexponent
  · rw [List.append_nil] at hdigits ⊢
    have hwrites := Writes.whole hdigits hexponent
    rwa [toRat, List.length_nil, Nat.cast_zero, sub_zero]

/-- **A decimal is read with the value that it writes.** -/
theorem decimal?_of_writes (h : Writes cs q) : ∃ d, decimal? cs = some d ∧ d.toRat = q := by
  cases h with
  | whole digits exponent =>
    obtain ⟨hne, hwhole, rfl⟩ := (writes_iff (by decide)).1 digits
    exact ⟨_, decimal?_whole hne hwhole (exponent?_eq_some_iff.2 exponent), rfl⟩
  | point digits exponent =>
    obtain ⟨hne, hdigits, rfl⟩ := (writes_iff (by decide)).1 digits
    have hread := decimal?_point hne (fun c hc => hdigits c (List.mem_append_left _ hc))
      (fun c hc => hdigits c (List.mem_append_right _ hc)) (exponent?_eq_some_iff.2 exponent)
    exact ⟨_, hread, rfl⟩

/-! ## Floating-point numbers -/

theorem toRat_nonneg (d : Decimal) : 0 ≤ d.toRat :=
  mul_nonneg (Nat.cast_nonneg _) (zpow_nonneg (by norm_num) _)

variable {f : Format} {s : String} {bits : Nat}

/-- **A text that writes a number is read as the closest floating-point number.** -/
theorem toBits?_of_writes (hf : f = single ∨ f = double) (h : Signed Writes s.toList q) :
    ∃ bits, toBits? f s = some bits ∧ IsClosestPattern f q bits := by
  obtain ⟨cs, rfl⟩ : ∃ cs, s = String.ofList cs := ⟨s.toList, (String.ofList_toList).symm⟩
  rw [String.toList_ofList] at h
  cases h with
  | plain h =>
    obtain ⟨d, hread, rfl⟩ := decimal?_of_writes h
    exact ⟨_, (toBits?_of_decimal? f hread).1, .positive d.toRat_nonneg (isClosest_nearest hf d)⟩
  | plus h =>
    obtain ⟨d, hread, rfl⟩ := decimal?_of_writes h
    refine ⟨_, ?_, .positive d.toRat_nonneg (isClosest_nearest hf d)⟩
    rw [toBits?, String.toList_ofList]
    exact magnitude?_of_decimal? f hread
  | minus h =>
    obtain ⟨d, hread, rfl⟩ := decimal?_of_writes h
    exact ⟨_, (toBits?_of_decimal? f hread).2, .negative d.toRat_nonneg (isClosest_nearest hf d)⟩

/-- What is read without a sign is a decimal, or a word for what is not finite. -/
theorem magnitude?_cases {cs : List Char} {m : Nat} (h : magnitude? f cs = some m) :
    (∃ d, decimal? cs = some d ∧ m = d.nearest f) ∨ m = f.infinity ∨ m = f.quietNaN := by
  simp only [magnitude?] at h
  split at h
  · exact Or.inr (Or.inl (Option.some.inj h).symm)
  · split at h
    · exact Or.inr (Or.inr (Option.some.inj h).symm)
    · obtain ⟨d, hd, rfl⟩ := Option.map_eq_some_iff.1 h
      exact Or.inl ⟨d, hd, rfl⟩

/-- **A finite number is read from a text that writes one,** and is the closest to it. -/
theorem writes_of_toBits? (hf : f = single ∨ f = double) (h : toBits? f s = some bits)
    (hfinite : f.isFinite bits = true) :
    ∃ q, Signed Writes s.toList q ∧ IsClosestPattern f q bits := by
  have hwords : f.isFinite f.infinity = false ∧ f.isFinite f.quietNaN = false ∧
      f.isFinite (f.signBit + f.infinity) = false ∧ f.isFinite (f.signBit + f.quietNaN) = false := by
    rcases hf with rfl | rfl <;> decide
  obtain ⟨hinfinity, hnan, hminus, hminusNaN⟩ := hwords
  -- With a plus and without a sign the same is read; behind a minus the words have the sign bit too.
  have hunsigned : ∀ {cs}, magnitude? f cs = some bits →
      ∃ q, Writes cs q ∧ IsClosestPattern f q bits := by
    intro cs hm
    rcases magnitude?_cases hm with ⟨d, hd, rfl⟩ | rfl | rfl
    · exact ⟨_, writes_of_decimal? hd, .positive d.toRat_nonneg (isClosest_nearest hf d)⟩
    · simp [hinfinity] at hfinite
    · simp [hnan] at hfinite
  unfold toBits? at h
  split at h
  · next cs hcs =>
    obtain ⟨m, hm, rfl⟩ := Option.map_eq_some_iff.1 h
    rcases magnitude?_cases hm with ⟨d, hd, rfl⟩ | rfl | rfl
    · exact ⟨_, hcs ▸ .minus (writes_of_decimal? hd), .negative d.toRat_nonneg (isClosest_nearest hf d)⟩
    · simp [hminus] at hfinite
    · simp [hminusNaN] at hfinite
  · next cs hcs =>
    obtain ⟨q, hq, hclosest⟩ := hunsigned h
    exact ⟨q, hcs ▸ .plus hq, hclosest⟩
  · obtain ⟨q, hq, hclosest⟩ := hunsigned h
    exact ⟨q, .plain hq, hclosest⟩

end Decimal

end ProtoSchema
