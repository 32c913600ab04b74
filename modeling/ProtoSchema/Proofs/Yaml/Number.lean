import ProtoSchema.Default
import ProtoSchema.Proofs.Decimal.Written
import ProtoSchema.Yaml.Reader

/-!
# Numbers of YAML

A scalar that is read as a number writes a rational number (`Number.Writes`), or is one of the words for
what is not finite (`Number.Special`). An integer is held as it is, and any other number as the closest
of 64 bits (`Number.Denotes`).

A number is set out as text again where it is taken for a declared default. **As a default of type double
the text has the value that is closest to the number that was written,** if it is finite
(`Number.Denotes.ofDefault_text`). The words for the other numbers are not the ones that defaults are
written with, so these are refused (`Number.Special.ofDefault_text`).
-/

namespace ProtoSchema.Yaml

open Binary

namespace Number

/-- The characters write the natural number, in decimal or behind the mark of radix 16, 8 or 2. -/
inductive Natural : List Char → ℤ → Prop
  | decimal {cs : List Char} {n : ℕ} (h : Numeral.Writes 10 cs n) : Natural cs n
  | hexadecimal {cs : List Char} {n : ℕ} (h : Numeral.Writes 16 cs n) : Natural ('0' :: 'x' :: cs) n
  | octal {cs : List Char} {n : ℕ} (h : Numeral.Writes 8 cs n) : Natural ('0' :: 'o' :: cs) n
  | binary {cs : List Char} {n : ℕ} (h : Numeral.Writes 2 cs n) : Natural ('0' :: 'b' :: cs) n

/-- The word writes the number, as an integer or as a decimal. -/
inductive Writes (word : String) : ℚ → Prop
  | integer {n : ℤ} (h : Numeral.Signed Natural word.toList n) : Writes word n
  | decimal {q : ℚ} (h : Numeral.Signed Decimal.Writes word.toList q) : Writes word q

/-- The word stands for a number that is not finite. -/
inductive Special (word : String) : Number → Prop
  | infinity (h : word ∈ [".inf", ".Inf", ".INF", "+.inf", "+.Inf", "+.INF"]) :
    Special word (.float (UInt64.ofNat double.infinity))
  | minusInfinity (h : word ∈ ["-.inf", "-.Inf", "-.INF"]) :
    Special word (.float (UInt64.ofNat (double.signBit + double.infinity)))
  | notANumber (h : word ∈ [".nan", ".NaN", ".NAN"]) :
    Special word (.float (UInt64.ofNat double.quietNaN))

/-- The number is this integer of 64 bits, or the finite number of 64 bits closest to this one. -/
inductive Denotes : Number → ℚ → Prop
  | int {n : ℤ} (word : isWord 64 n = true) : Denotes (.int n) n
  | float {bits : UInt64} {q : ℚ} (finite : double.isFinite bits.toNat = true)
    (closest : IsClosestPattern double q bits.toNat) : Denotes (.float bits) q

variable {cs : List Char} {n : ℤ} {word : String} {number : Number} {q : ℚ}

/-! ## Reading -/

theorem natural_of_natural? {n : ℕ} (h : natural? cs = some n) : Natural cs n := by
  unfold natural? at h
  split at h
  · exact .hexadecimal ((Numeral.natural?_eq_some_iff (by decide)).1 h)
  · exact .octal ((Numeral.natural?_eq_some_iff (by decide)).1 h)
  · exact .binary ((Numeral.natural?_eq_some_iff (by decide)).1 h)
  · exact .decimal ((Numeral.natural?_eq_some_iff (by decide)).1 (Option.ite_none_left_eq_some.1 h).2)

theorem signed_of_integer? (h : integer? cs = some n) : Numeral.Signed Natural cs n := by
  unfold integer? at h
  split at h
  · obtain ⟨m, hm, rfl⟩ := Option.map_eq_some_iff.1 h
    exact .plus (natural_of_natural? hm)
  · obtain ⟨v, hv, rfl⟩ := Option.map_eq_some_iff.1 h
    obtain ⟨m, hm, hv⟩ := Option.bind_eq_some_iff.1 hv
    obtain rfl := Option.some.inj hv
    exact .minus (natural_of_natural? hm)
  · obtain ⟨m, hm, rfl⟩ := Option.map_eq_some_iff.1 h
    exact .plain (natural_of_natural? hm)

/-- The patterns closest to a number have no more than 64 bits. -/
theorem lt_of_isClosestPattern {bits : ℕ} (h : IsClosestPattern double q bits) :
    bits < 2 * double.signBit := by
  have hinfinity : double.infinity < double.signBit := by decide
  cases h with
  | positive _ h =>
    have := h.le
    omega
  | negative _ h =>
    have := h.le
    omega

/-- **A word that is read as a floating-point number writes it, or stands for one that is not finite.** -/
theorem of_float? {bits : ℕ} (h : float? word = some bits) :
    (∃ q, Writes word q ∧ Denotes (.float (UInt64.ofNat bits)) q) ∨
      Special word (.float (UInt64.ofNat bits)) := by
  simp only [float?, List.contains_iff_mem] at h
  split_ifs at h with hinfinity hminus hnan
  · exact Or.inr (Option.some.inj h ▸ .infinity hinfinity)
  · exact Or.inr (Option.some.inj h ▸ .minusInfinity hminus)
  · exact Or.inr (Option.some.inj h ▸ .notANumber hnan)
  · obtain ⟨hread, hfinite⟩ := Option.filter_eq_some_iff.1 h
    obtain ⟨q, hwrites, hclosest⟩ := Decimal.writes_of_toBits? (Or.inr rfl) hread hfinite
    have hbits : (UInt64.ofNat bits).toNat = bits :=
      UInt64.toNat_ofNat_of_lt' (lt_of_isClosestPattern hclosest)
    refine Or.inl ⟨q, .decimal hwrites, .float ?_ ?_⟩
    · rwa [hbits]
    · rwa [hbits]

/-- What is read from the word is a number that the word writes, or stands for. -/
def ReadFrom (word : String) (number : Number) : Prop :=
  (∃ q, Writes word q ∧ Denotes number q) ∨ Special word number

theorem readFrom_of_integer? (h : integer? word.toList = some n) (hn : isWord 64 n = true) :
    ReadFrom word (.int n) :=
  Or.inl ⟨n, .integer (signed_of_integer? h), .int hn⟩

theorem readFrom_of_ofFloat (h : Value.ofFloat word = .number number) : ReadFrom word number := by
  unfold Value.ofFloat at h
  split at h
  · cases h
  · split at h
    · next bits hbits =>
      cases h
      exact of_float? hbits
    · cases h

theorem readFrom_of_ofPlain (h : Value.ofPlain word = some (.number number)) :
    ReadFrom word number := by
  unfold Value.ofPlain at h
  split at h
  · cases h
  · split at h
    · cases h
    · split at h
      · next n hn =>
        unfold Value.ofInteger at h
        split at h
        · next hword =>
          cases h
          exact readFrom_of_integer? hn hword
        · split at h
          · cases h
          · exact readFrom_of_ofFloat (Option.some.inj h)
      · exact readFrom_of_ofFloat (Option.some.inj h)

theorem readFrom_of_ofTagged {tag : Bytes} (h : Value.ofTagged tag word = some (.number number)) :
    ReadFrom word number := by
  unfold Value.ofTagged at h
  split at h
  · simp at h
  · split at h
    · obtain ⟨n, hn, h⟩ := Option.bind_eq_some_iff.1 h
      split at h
      · next hword =>
        cases h
        exact readFrom_of_integer? hn hword
      · cases h
    · split at h
      · obtain ⟨bits, hbits, h⟩ := Option.map_eq_some_iff.1 h
        cases h
        exact of_float? hbits
      · split at h
        · split at h <;> cases h
        · cases h

/-- **A scalar that is read as a number writes it,** or stands for one that is not finite. -/
theorem readFrom_of_scalar {p : Properties} {style : Style}
    (h : NodeReader.scalar p word style = some (.number number)) : ReadFrom word number := by
  have huntagged : ∀ {v : Value}, NodeReader.untagged word style = some v → v = .number number →
      ReadFrom word number := by
    rintro v h rfl
    unfold NodeReader.untagged at h
    split at h
    · exact readFrom_of_ofPlain h
    · cases h
  unfold NodeReader.scalar at h
  split at h
  · simp at h
  · split at h
    · exact readFrom_of_ofTagged h
    · exact huntagged h rfl

/-! ## As a default of type double -/

/-- An integer is written by its text. -/
theorem signed_toString (n : ℤ) : Numeral.Signed Decimal.Writes (toString n).toList n := by
  have hdigits : ∀ {cs : List Char} {v : ℤ}, Decimal.WritesDigits cs v → Decimal.Writes cs v := by
    rintro cs _ ⟨m, hm, rfl⟩
    have hwhole := Decimal.Writes.whole hm .missing
    rwa [List.append_nil, zpow_zero, mul_one] at hwhole
  have hsigned := Decimal.integer?_eq_some_iff.1 (Decimal.integer?_toString n)
  generalize (toString n).toList = cs at hsigned
  cases hsigned with
  | plain h => exact .plain (hdigits h)
  | plus h => exact .plus (hdigits h)
  | minus h =>
    rw [Int.cast_neg]
    exact .minus (hdigits h)

theorem ofDefault_double {text : String} {bits : ℕ} (h : Decimal.toBits? double text = some bits) :
    Scalar.ofDefault .double text = .ok (.double (UInt64.ofNat bits)) := by
  rw [Scalar.ofDefault, Default.float, h]
  rfl

/-- **As a default of type double, the text of a number has the value closest to it.** -/
theorem Denotes.ofDefault_text (h : Denotes number q) : ∃ bits : UInt64,
    Scalar.ofDefault .double number.text = .ok (.double bits) ∧
      IsClosestPattern double q bits.toNat := by
  cases h with
  | @int n _ =>
    obtain ⟨bits, hread, hclosest⟩ := Decimal.toBits?_of_writes (Or.inr rfl) (signed_toString n)
    refine ⟨_, ofDefault_double hread, ?_⟩
    rwa [UInt64.toNat_ofNat_of_lt' (lt_of_isClosestPattern hclosest)]
  | @float bits _ finite closest =>
    have hread := Decimal.toBits?_ofBits (Or.inr rfl) style (lt_of_isClosestPattern closest) finite
    refine ⟨bits, ?_, closest⟩
    rw [text, ofDefault_double hread, UInt64.ofNat_toNat]

/-- **As a default of type double, the text of a number that is not finite is refused.** -/
theorem Special.ofDefault_text (h : Special word number) :
    Scalar.ofDefault .double number.text = .error .notFloat := by
  have hwords : ∀ text ∈ [".inf", "-.inf", ".nan"],
      Scalar.ofDefault .double text = .error .notFloat := by decide
  cases h with
  | infinity => exact hwords ".inf" (by decide)
  | minusInfinity => exact hwords "-.inf" (by decide)
  | notANumber => exact hwords ".nan" (by decide)

end Number

end ProtoSchema.Yaml
