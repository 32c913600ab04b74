import ProtoSchema.Proofs.Yaml.Number

/-!
# Plain scalars and their text

A number or a truth value that has been read from a scalar is set out as text in one way, whatever way
it was written in. **This text is a plain scalar that means the value again** (`Value.ofPlain_text`,
`Value.ofPlain_ofBool`), so of all the spellings of a value it is the one that is kept as it is.
-/

namespace ProtoSchema

/-- The digits of a number do not begin with a zero. -/
theorem Decimal.head_digitsOf {n : ℕ} (h : n ≠ 0) : ∃ c rest, digitsOf n = c :: rest ∧ c ≠ '0' := by
  induction n using digitsOf.induct with
  | case1 => exact absurd rfl h
  | case2 n _ ih =>
    rw [digitsOf, if_neg h]
    by_cases hlt : n < 10
    · have hdigit : ∀ m < 10, m ≠ 0 → Numeral.digit m ≠ '0' := by decide
      rw [Nat.div_eq_of_lt hlt, Nat.mod_eq_of_lt hlt, digitsOf, if_pos rfl]
      exact ⟨_, _, rfl, hdigit n hlt h⟩
    · obtain ⟨c, rest, hdigits, hc⟩ := ih (by omega)
      rw [hdigits]
      exact ⟨c, _, rfl, hc⟩

namespace Yaml

open Binary Numeral

namespace Number

variable {cs : List Char} {n : ℤ} {word : String} {number : Number} {q : ℚ}

/-- The signs of numbers hold no mark of another radix. -/
theorem natural?_of_signs (h : ∀ c ∈ cs, c ∈ Decimal.signs) :
    natural? cs = if hasLeadingZero cs then none else Numeral.natural? 10 cs := by
  unfold natural?
  split
  · exact absurd (h 'x' (by simp)) (by decide)
  · exact absurd (h 'o' (by simp)) (by decide)
  · exact absurd (h 'b' (by simp)) (by decide)
  · rfl

theorem natural?_toString (n : ℕ) : natural? (toString n).toList = some n := by
  have hzero : hasLeadingZero (toString n).toList = false := by
    by_cases hn : n = 0
    · subst hn
      rfl
    · obtain ⟨c, rest, hdigits, hc⟩ := Decimal.head_digitsOf hn
      rw [Decimal.toList_toString hn, hdigits]
      unfold hasLeadingZero
      split
      · next heq => exact absurd (List.cons.inj heq).1 hc
      · rfl
  rw [natural?_of_signs fun c hc => Decimal.mem_signs_of_isDigit (Decimal.isDigit_toString n c hc), hzero]
  exact Decimal.natural?_toString n

/-- **The text of an integer is read as the integer.** -/
theorem integer?_toString (n : ℤ) : integer? (toString n).toList = some n := by
  cases n with
  | ofNat n =>
    have hdigits := Decimal.isDigit_toString n
    have hnatural := natural?_toString n
    show integer? (toString n).toList = _
    generalize (toString n).toList = cs at hdigits hnatural
    unfold integer?
    split
    · exact absurd (hdigits _ List.mem_cons_self) (by decide)
    · exact absurd (hdigits _ List.mem_cons_self) (by decide)
    · rw [hnatural]
      rfl
  | negSucc n =>
    have htext : (toString (Int.negSucc n)).toList = '-' :: (toString (n + 1)).toList := by
      show ("-" ++ (n + 1).repr).toList = _
      rw [String.toList_append]
      rfl
    rw [htext, integer?, natural?_toString]
    rfl

/-- Neither an integer nor digits behind a zero have anything but digits in them. -/
theorem not_digits (h : ∃ c ∈ cs, isDigit 10 c = false) (hsigns : ∀ c ∈ cs, c ∈ Decimal.signs) :
    natural? cs = none ∧ hasLeadingZero cs = false := by
  obtain ⟨c, hc, hdigit⟩ := h
  have hzero : hasLeadingZero cs = false := by
    unfold hasLeadingZero
    split
    · next d rest =>
      rw [List.all_eq_false]
      rcases List.mem_cons.1 hc with rfl | hc
      · exact absurd hdigit (by decide)
      · exact ⟨c, hc, by simp [hdigit]⟩
    · rfl
  refine ⟨?_, hzero⟩
  rw [natural?_of_signs hsigns, hzero, if_neg (by decide), Numeral.natural?, if_neg]
  rintro ⟨-, hall⟩
  simp [List.all_eq_true.1 hall c hc] at hdigit

end Number

namespace Value

open Number

variable {word : String} {number : Number}

/-- A word of the signs of numbers is none of the words that have other characters in them. -/
theorem contains_of_signs {words : List String} (h : ∀ c ∈ word.toList, c ∈ Decimal.signs)
    (hwords : ∀ w ∈ words, w.toList.all (Decimal.signs.contains ·) = false) :
    words.contains word = false := by
  rw [Bool.eq_false_iff, Ne, List.contains_iff_mem]
  intro hmem
  obtain ⟨c, hc, hsign⟩ := List.all_eq_false.1 (hwords word hmem)
  exact hsign (List.contains_iff_mem.2 (h c hc))

/-- What a word of the signs of numbers means is a number or a text. -/
theorem ofPlain_of_signs (hne : word ≠ "") (h : ∀ c ∈ word.toList, c ∈ Decimal.signs) :
    ofPlain word = match Number.integer? word.toList with
      | some n => ofInteger word n
      | none => some (ofFloat word) := by
  have hnull : isNull word = false := contains_of_signs h (by decide)
  have hbool : bool? word = none := by
    rw [bool?, contains_of_signs h (by decide), contains_of_signs h (by decide)]
    rfl
  have hplain : ofPlain word = _ := if_neg (by simp [hne, hnull])
  rw [hbool] at hplain
  exact hplain

theorem float?_of_signs (h : ∀ c ∈ word.toList, c ∈ Decimal.signs) :
    float? word = (Decimal.toBits? double word).filter double.isFinite := by
  simp only [float?]
  rw [contains_of_signs h (by decide), contains_of_signs h (by decide), contains_of_signs h (by decide)]
  rfl

/-- Characters that are a decimal, and have more than digits in them, are no integer; nor are they behind
a minus. -/
theorem integer?_of_decimal {cs : List Char} {d : Decimal} (hread : Decimal.decimal? cs = some d)
    (hsigns : ∀ c ∈ cs, c ∈ Decimal.signs) (hdigit : ∃ c ∈ cs, isDigit 10 c = false) :
    integer? cs = none ∧ integer? ('-' :: cs) = none ∧ unsigned cs = cs := by
  obtain ⟨hnatural, -⟩ := not_digits hdigit hsigns
  obtain ⟨c, rest, rfl, hhead⟩ := Decimal.head_of_decimal? hread
  have hplus : c ≠ '+' := by
    rintro rfl
    exact absurd hhead (by decide)
  have hminus : c ≠ '-' := by
    rintro rfl
    exact absurd hhead (by decide)
  refine ⟨?_, ?_, ?_⟩
  · unfold integer?
    split
    · next heq => exact absurd (List.cons.inj heq).1 hplus
    · next heq => exact absurd (List.cons.inj heq).1 hminus
    · rw [hnatural]
      rfl
  · rw [integer?, hnatural]
    rfl
  · unfold unsigned
    split
    · next heq => exact absurd (List.cons.inj heq).1 hplus
    · next heq => exact absurd (List.cons.inj heq).1 hminus
    · rfl

/-- A word that is a decimal, and no integer, means the floating-point number that it is read as. -/
theorem ofPlain_of_decimal {cs : List Char} {d : Decimal} {bits : ℕ}
    (hread : Decimal.decimal? cs = some d) (hsigns : ∀ c ∈ cs, c ∈ Decimal.signs)
    (hdigit : ∃ c ∈ cs, isDigit 10 c = false)
    (hword : word = String.ofList ('-' :: cs) ∨ word = String.ofList cs)
    (hbits : Decimal.toBits? double word = some bits) (hfinite : double.isFinite bits = true) :
    ofPlain word = some (.number (.float (UInt64.ofNat bits))) := by
  obtain ⟨hplain, hminus, hunsigned⟩ := integer?_of_decimal hread hsigns hdigit
  -- With and without a minus, what is behind the sign is `cs`.
  have hinteger : integer? word.toList = none ∧ unsigned word.toList = cs ∧
      ∀ c ∈ word.toList, c ∈ Decimal.signs := by
    rcases hword with rfl | rfl
    · rw [String.toList_ofList]
      exact ⟨hminus, rfl, List.forall_mem_cons.2 ⟨by decide, hsigns⟩⟩
    · rw [String.toList_ofList]
      exact ⟨hplain, hunsigned, hsigns⟩
  obtain ⟨hinteger, hbehind, hall⟩ := hinteger
  have hne : word ≠ "" := by
    rintro rfl
    rw [← hbehind] at hread
    cases hread
  have hfloat : float? word = some bits := by
    rw [float?_of_signs hall, hbits, Option.filter_some, if_pos hfinite]
  rw [ofPlain_of_signs hne hall, hinteger]
  simp only [ofFloat, hbehind, (not_digits hdigit hsigns).2, hfloat]
  rfl

/-- **The text of a finite number is read as the number.** -/
theorem ofPlain_text_of_denotes {q : ℚ} (h : Denotes number q) :
    ofPlain number.text = some (.number number) := by
  cases h with
  | @int n hword =>
    have hread := integer?_toString n
    have hne : toString n ≠ "" := by
      intro hnil
      rw [hnil] at hread
      cases hread
    rw [Number.text, ofPlain_of_signs hne fun c hc => Decimal.mem_signs_of_toString hc, hread]
    exact if_pos hword
  | @float bits _ finite closest =>
    have hbits := Decimal.toBits?_ofBits (Or.inr rfl) style (lt_of_isClosestPattern closest) finite
    obtain ⟨cs, d, htext, hread, -, hsigns, hdigit⟩ :=
      Decimal.ofBits_of_finite (Or.inr rfl) style finite
    have hword : Number.text (.float bits) = String.ofList ('-' :: cs) ∨
        Number.text (.float bits) = String.ofList cs := by
      rw [Number.text, htext]
      split
      · exact Or.inl rfl
      · exact Or.inr rfl
    rw [ofPlain_of_decimal hread hsigns hdigit hword hbits finite, UInt64.ofNat_toNat]

/-- **The text of a number that has been read from a scalar is read as the number.** -/
theorem ofPlain_text {n : Number} (h : ReadFrom word n) : ofPlain n.text = some (.number n) := by
  rcases h with ⟨q, -, h⟩ | h
  · exact ofPlain_text_of_denotes h
  · cases h <;> rfl

theorem ofPlain_ofBool (b : Bool) : ofPlain (if b then "true" else "false") = some (.bool b) := by
  cases b <;> rfl

end Value

end Yaml

end ProtoSchema
