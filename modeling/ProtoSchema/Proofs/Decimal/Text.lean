import ProtoSchema.Decimal.Text
import ProtoSchema.Proofs.Decimal.Nearest
import ProtoSchema.Proofs.Text.Run

/-!
# Numbers and their text

A decimal is read with its value from both ways of setting it out (`decimal?_write`), and integers are
read from their text (`integer?_toString`). With the shortest digits nearest to the number that they
were taken from, **every finite number is read back from its text** (`toBits?_ofBits`).
-/

namespace ProtoSchema.Decimal

open Binary Numeral

/-! ## Integers -/

theorem integer?_of_digits {cs : List Char} (hne : cs ≠ [])
    (h : ∀ c ∈ cs, isDigit 10 c = true) : integer? cs = some (Numeral.value 10 cs : ℤ) := by
  unfold integer?
  split
  · exact absurd (h _ List.mem_cons_self) (by decide)
  · exact absurd (h _ List.mem_cons_self) (by decide)
  · rw [natural?_of_digits hne h]
    rfl

/-- **The text of an integer is read as the integer.** -/
theorem integer?_toString (z : ℤ) : integer? (toString z).toList = some z := by
  have hnatural : ∀ n : Nat, (toString n).toList ≠ [] := by
    intro n hnil
    have hread := natural?_toString n
    rw [hnil] at hread
    cases hread
  cases z with
  | ofNat n =>
    have hread := natural?_toString n
    rw [natural?_of_digits (hnatural n) (isDigit_toString n)] at hread
    show integer? (toString n).toList = _
    rw [integer?_of_digits (hnatural n) (isDigit_toString n), Option.some.inj hread]
    rfl
  | negSucc n =>
    have htext : (toString (Int.negSucc n)).toList = '-' :: (toString (n + 1)).toList := by
      show ("-" ++ (n + 1).repr).toList = _
      rw [String.toList_append]
      rfl
    rw [htext, integer?, natural?_toString]
    rfl

/-! ## Reading a decimal -/

/-- An exponent begins with neither a digit nor a point. -/
theorem head_of_exponent? {rest : List Char} {e : ℤ} (h : exponent? rest = some e) :
    ∀ c ∈ rest.head?, isDigit 10 c = false ∧ c ≠ '.' := by
  cases rest with
  | nil => exact fun c hc => absurd hc (by simp)
  | cons c rest =>
    rintro d ⟨⟩
    rw [exponent?] at h
    split at h
    · next hsign => rcases hsign with rfl | rfl <;> decide
    · cases h

/-- Digits and an exponent are a number. -/
theorem decimal?_whole {whole rest : List Char} {e : ℤ} (hne : whole ≠ [])
    (hwhole : ∀ c ∈ whole, isDigit 10 c = true) (he : exponent? rest = some e) :
    decimal? (whole ++ rest) = some ⟨Numeral.value 10 whole, e⟩ := by
  have hhead := head_of_exponent? he
  obtain ⟨htake, hdrop⟩ := Text.run_append hwhole fun c hc => (hhead c hc).1
  have hfraction : fraction rest = ([], rest) := by
    unfold fraction
    split
    · exact absurd rfl (hhead '.' rfl).2
    · rfl
  simp only [decimal?, htake, hdrop, hfraction]
  rw [if_neg fun h => hne h.1, he]
  simp

/-- Digits, a point, digits and an exponent are a number. -/
theorem decimal?_point {whole part rest : List Char} {e : ℤ} (hne : whole ++ part ≠ [])
    (hwhole : ∀ c ∈ whole, isDigit 10 c = true) (hpart : ∀ c ∈ part, isDigit 10 c = true)
    (he : exponent? rest = some e) : decimal? (whole ++ '.' :: (part ++ rest)) =
      some ⟨Numeral.value 10 (whole ++ part), e - part.length⟩ := by
  have hpoint : ∀ c ∈ ('.' :: (part ++ rest)).head?, isDigit 10 c = false := by
    rintro _ ⟨⟩
    decide
  obtain ⟨htake, hdrop⟩ := Text.run_append hwhole hpoint
  obtain ⟨htake', hdrop'⟩ := Text.run_append hpart fun c hc => (head_of_exponent? he c hc).1
  simp only [decimal?, htake, hdrop, fraction, htake', hdrop']
  rw [if_neg fun h => hne (List.append_eq_nil_iff.2 h), he]
  rfl

/-- Digits with a point behind the first ones and an exponent are a number. -/
theorem decimal?_split {digits rest : List Char} {k : Nat} {e : ℤ} (hne : digits ≠ [])
    (h : ∀ c ∈ digits, isDigit 10 c = true) (he : exponent? rest = some e) :
    decimal? (digits.take k ++ '.' :: (digits.drop k ++ rest)) =
      some ⟨Numeral.value 10 digits, e - (digits.length - k : ℕ)⟩ := by
  have hsplit : digits.take k ++ digits.drop k ≠ [] := by
    rwa [List.take_append_drop]
  rw [decimal?_point hsplit (fun c hc => h c (List.mem_of_mem_take hc))
    (fun c hc => h c (List.mem_of_mem_drop hc)) he, List.take_append_drop, List.length_drop]

/-! ## Both ways of setting out a decimal -/

/-- **Digits with a point in them are read with their value.** -/
theorem decimal?_positional {digits : List Char} (h : ∀ c ∈ digits, isDigit 10 c = true)
    (hne : digits ≠ []) (position : ℤ) : ∃ d, decimal? (positional digits position) = some d ∧
      d.toRat = toRat ⟨Numeral.value 10 digits, position - digits.length⟩ := by
  have hzeros : ∀ n, ∀ c ∈ List.replicate n '0', isDigit 10 c = true := by
    intro n c hc
    rw [List.eq_of_mem_replicate hc]
    rfl
  have happend : ∀ {as bs : List Char}, (∀ c ∈ as, isDigit 10 c = true) →
      (∀ c ∈ bs, isDigit 10 c = true) → ∀ c ∈ as ++ bs, isDigit 10 c = true := by
    intro as bs has hbs c hc
    exact (List.mem_append.1 hc).elim (has c) (hbs c)
  rw [positional]
  split
  · -- All digits stand behind the point.
    next hle =>
    have hread : decimal?
        (['0'] ++ '.' :: (List.replicate (-position).toNat '0' ++ digits ++ [])) = _ :=
      decimal?_point (List.cons_ne_nil _ _) (hzeros 1) (happend (hzeros _) h) rfl
    rw [List.append_nil] at hread
    refine ⟨_, hread, ?_⟩
    have hvalue : Numeral.value 10 (['0'] ++ (List.replicate (-position).toNat '0' ++ digits)) =
        Numeral.value 10 digits := by
      rw [← List.append_assoc, value_append, ← List.replicate_one, List.replicate_append_replicate,
        value_replicate_zero, Nat.zero_mul, Nat.zero_add]
    rw [hvalue, List.length_append, List.length_replicate]
    congr 2
    omega
  · split
    · -- All digits stand in front of the point.
      next hpos hle =>
      have hread : decimal? (digits ++ List.replicate (position.toNat - digits.length) '0' ++
          '.' :: (['0'] ++ [])) = _ :=
        decimal?_point (by simp [hne]) (happend h (hzeros _)) (hzeros 1) rfl
      refine ⟨_, hread, ?_⟩
      have hvalue : Numeral.value 10 (digits ++
          List.replicate (position.toNat - digits.length) '0' ++ ['0']) =
            Numeral.value 10 digits * 10 ^ (position.toNat - digits.length + 1) := by
        rw [List.append_assoc, ← List.replicate_one, List.replicate_append_replicate, value_append,
          value_replicate_zero, List.length_replicate, Nat.add_zero]
      have hexponent : position - digits.length = ((position.toNat - digits.length : ℕ) : ℤ) := by
        omega
      have hten : (10 : ℚ) ≠ 0 := by norm_num
      rw [hvalue, hexponent, toRat, toRat, zpow_natCast]
      simp only [List.length_singleton, Nat.cast_mul, Nat.cast_pow, Nat.cast_ofNat, Nat.cast_one,
        zero_sub, zpow_neg_one, pow_succ, mul_assoc]
      rw [mul_inv_cancel₀ hten, mul_one]
    · next hpos hlt =>
      have hread : decimal?
          (digits.take position.toNat ++ '.' :: (digits.drop position.toNat ++ [])) = _ :=
        decimal?_split hne h rfl
      rw [List.append_nil] at hread
      refine ⟨_, hread, ?_⟩
      congr 2
      omega

/-- **Digits with an exponent are read with their value.** -/
theorem decimal?_scientific {digits : List Char} (h : ∀ c ∈ digits, isDigit 10 c = true)
    (hne : digits ≠ []) (position : ℤ) : decimal? (scientific digits position) =
      some ⟨Numeral.value 10 digits, position - digits.length⟩ := by
  have hpos := List.length_pos_iff.2 hne
  have hexponent : exponent? ('e' :: (toString (position - 1)).toList) = some (position - 1) := by
    rw [exponent?, if_pos (Or.inl rfl), integer?_toString]
  rw [scientific]
  split
  · next hle =>
    rw [List.append_nil, List.take_of_length_le hle, decimal?_whole hne h hexponent]
    congr 2
    omega
  · next hlt =>
    have hlast : position - 1 - ((digits.length - 1 : ℕ) : ℤ) = position - digits.length := by
      omega
    rw [List.append_assoc, List.cons_append, decimal?_split hne h hexponent, hlast]

/-- **A decimal that is not zero is read with its value from what is written for it.** -/
theorem decimal?_write (style : Style) {d : Decimal} (hd : d.digits ≠ 0) :
    ∃ d', decimal? (write style d) = some d' ∧ d'.toRat = d.toRat := by
  have hdigits : ∀ c ∈ digitsOf d.digits, isDigit 10 c = true := isDigit_digitsOf
  have hsame : (⟨Numeral.value 10 (digitsOf d.digits), d.position - (digitsOf d.digits).length⟩ :
      Decimal) = d := by
    rw [value_digitsOf, length_digitsOf, position, add_sub_cancel_left]
  rw [write]
  split
  · obtain ⟨d', hread, hvalue⟩ := decimal?_positional hdigits (digitsOf_ne_nil hd) d.position
    rw [hsame] at hvalue
    exact ⟨d', hread, hvalue⟩
  · refine ⟨d, ?_, rfl⟩
    rw [decimal?_scientific hdigits (digitsOf_ne_nil hd), hsame]

/-! ## Floating-point numbers -/

/-- What is read as a decimal begins with a digit or a point, so it is no word and has no sign. -/
theorem head_of_decimal? {cs : List Char} {d : Decimal} (h : decimal? cs = some d) :
    ∃ c rest, cs = c :: rest ∧ c ∈ ".0123456789".toList := by
  cases cs with
  | nil => cases h
  | cons c rest =>
    refine ⟨c, rest, rfl, ?_⟩
    by_cases hc : isDigit 10 c = true
    · exact List.mem_cons_of_mem _ (mem_of_isDigit hc)
    · by_contra hmem
      have hpoint : c ≠ '.' := fun heq => hmem (heq ▸ by decide)
      have hfraction : fraction (c :: rest) = ([], c :: rest) := by
        unfold fraction
        split
        · next heq => exact absurd (List.cons.inj heq).1 hpoint
        · rfl
      simp only [decimal?, List.takeWhile_cons_of_neg hc, List.dropWhile_cons_of_neg hc,
        hfraction] at h
      simp at h

/-- What is read as a decimal is read as the magnitude nearest to it. -/
theorem magnitude?_of_decimal? (f : Format) {cs : List Char} {d : Decimal}
    (h : decimal? cs = some d) : magnitude? f cs = some (d.nearest f) := by
  obtain ⟨c, rest, rfl, hc⟩ := head_of_decimal? h
  have hhead : ∀ c ∈ ".0123456789".toList, c.toLower ≠ 'i' ∧ c.toLower ≠ 'n' :=
    List.forall_iff_forall_mem.1 (by decide)
  obtain ⟨hi, hn⟩ := hhead c hc
  have hword : ∀ (word : List Char), word.head? = some 'i' ∨ word.head? = some 'n' →
      (c :: rest).map Char.toLower ≠ word := by
    rintro _ (hw | hw) rfl
    · exact hi (Option.some.inj hw)
    · exact hn (Option.some.inj hw)
  rw [magnitude?, if_neg (not_or.2 ⟨hword _ (Or.inl rfl), hword _ (Or.inl rfl)⟩),
    if_neg (hword _ (Or.inr rfl)), h]
  rfl

/-- A number without a sign is read as its magnitude, and behind a minus with the sign bit. -/
theorem toBits?_of_decimal? (f : Format) {cs : List Char} {d : Decimal}
    (h : decimal? cs = some d) : toBits? f (String.ofList cs) = some (d.nearest f) ∧
      toBits? f (String.ofList ('-' :: cs)) = some (f.signBit + d.nearest f) := by
  have hread := magnitude?_of_decimal? f h
  constructor
  · obtain ⟨c, rest, rfl, hc⟩ := head_of_decimal? h
    rw [toBits?, String.toList_ofList]
    split
    · next heq =>
      rw [(List.cons.inj heq).1] at hc
      exact absurd hc (by decide)
    · next heq =>
      rw [(List.cons.inj heq).1] at hc
      exact absurd hc (by decide)
    · exact hread
  · rw [toBits?, String.toList_ofList]
    simp only
    rw [hread]
    rfl

/-! ## The signs of a number -/

/-- The signs that finite numbers are written with. -/
def signs : List Char := "0123456789.e-".toList

theorem mem_signs_of_isDigit {c : Char} (h : isDigit 10 c = true) : c ∈ signs :=
  List.mem_append_left ".e-".toList (mem_of_isDigit h)

theorem mem_signs_of_toString {z : ℤ} {c : Char} (h : c ∈ (toString z).toList) : c ∈ signs := by
  cases z with
  | ofNat n => exact mem_signs_of_isDigit (isDigit_toString n c h)
  | negSucc n =>
    have h' : c ∈ ("-" ++ toString (n + 1)).toList := h
    rw [String.toList_append] at h'
    rcases List.mem_append.1 h' with h' | h'
    · rw [List.mem_singleton.1 h']
      decide
    · exact mem_signs_of_isDigit (isDigit_toString _ c h')

theorem mem_signs_of_write {style : Style} {d : Decimal} {c : Char} (h : c ∈ write style d) :
    c ∈ signs := by
  have hdigits : ∀ c ∈ digitsOf d.digits, c ∈ signs := fun c hc =>
    mem_signs_of_isDigit (isDigit_digitsOf c hc)
  have hother : ∀ c ∈ ['0', '.', 'e'], c ∈ signs := List.forall_iff_forall_mem.1 (by decide)
  rw [write] at h
  split at h
  · rw [positional] at h
    split at h
    · simp only [List.mem_cons, List.mem_append, List.mem_replicate] at h
      grind
    · split at h
      · simp only [List.mem_cons, List.mem_append, List.mem_replicate] at h
        grind
      · simp only [List.mem_cons, List.mem_append] at h
        grind [List.mem_of_mem_take, List.mem_of_mem_drop]
  · rw [scientific] at h
    simp only [List.mem_cons, List.mem_append] at h
    grind [List.mem_of_mem_take, List.mem_of_mem_drop, mem_signs_of_toString]

/-- What is written for a decimal has a point or an exponent in it. -/
theorem exists_not_digit_of_write (style : Style) (d : Decimal) :
    ∃ c ∈ write style d, isDigit 10 c = false := by
  rw [write]
  split
  · refine ⟨'.', ?_, rfl⟩
    rw [positional]
    split
    · simp
    · split <;> simp
  · exact ⟨'e', by simp [scientific], rfl⟩

theorem mem_signs_of_finite {f : Format} {style : Style} {m : Nat} {c : Char}
    (h : c ∈ if m = 0 then ['0', '.', '0'] else write style (shortest f style.tie m)) : c ∈ signs := by
  split at h
  · have hzero : ['0', '.', '0'] ⊆ signs := by decide
    exact hzero h
  · exact mem_signs_of_write h

/-- What is written for a finite number is a decimal that is nearest to it, behind a minus or not. -/
theorem ofBits_of_finite {f : Format} (hf : f = single ∨ f = double) (style : Style) {bits : Nat}
    (hfinite : f.isFinite bits = true) :
    ∃ cs d, ofBits f style bits = String.ofList (if f.isNegative bits then '-' :: cs else cs) ∧
      decimal? cs = some d ∧ d.nearest f = f.magnitude bits ∧
        (∀ c ∈ cs, c ∈ signs) ∧ ∃ c ∈ cs, isDigit 10 c = false := by
  have hlt : f.magnitude bits < f.infinity := by simpa [Format.isFinite] using hfinite
  have hnan : ¬f.isNaN bits = true := by
    rw [Format.isNaN, decide_eq_true_eq]
    omega
  have hinfinite : ¬f.isInfinite bits = true := by
    rw [Format.isInfinite, decide_eq_true_eq]
    omega
  rw [ofBits, if_neg hnan, if_neg hinfinite]
  refine ⟨if f.magnitude bits = 0 then ['0', '.', '0']
    else write style (shortest f style.tie (f.magnitude bits)), ?_⟩
  by_cases hzero : f.magnitude bits = 0
  · refine ⟨⟨0, -1⟩, rfl, ?_, ?_, fun c hc => mem_signs_of_finite hc, '.', ?_, rfl⟩
    · rw [if_pos hzero]
      rfl
    · rw [hzero]
      rfl
    · rw [if_pos hzero]
      decide
  · have hshortest := nearest_shortest hf style.tie hlt
    have hdigits : (shortest f style.tie (f.magnitude bits)).digits ≠ 0 := by
      intro hd
      rw [nearest, if_pos hd] at hshortest
      exact hzero hshortest.symm
    obtain ⟨d, hread, hvalue⟩ := decimal?_write style hdigits
    refine ⟨d, rfl, ?_, (nearest_congr f hvalue).trans hshortest, fun c hc => mem_signs_of_finite hc, ?_⟩
    · rwa [if_neg hzero]
    · rw [if_neg hzero]
      exact exists_not_digit_of_write style _

/-- **Every finite number is read back from its text**, in whatever style it is written. -/
theorem toBits?_ofBits {f : Format} (hf : f = single ∨ f = double) (style : Style) {bits : Nat}
    (hbits : bits < 2 * f.signBit) (hfinite : f.isFinite bits = true) :
    toBits? f (ofBits f style bits) = some bits := by
  obtain ⟨cs, d, htext, hread, hnearest, -⟩ := ofBits_of_finite hf style hfinite
  obtain ⟨hplus, hminus⟩ := toBits?_of_decimal? f hread
  rw [htext]
  conv_rhs => rw [Format.bits_eq hbits]
  split
  · rw [hminus, hnearest]
  · rw [hplus, hnearest]

/-- Numbers are written on one line, if the words are that stand for what is not finite. -/
theorem newline_notMem_ofBits {f : Format} {style : Style} (bits : Nat)
    (hnan : '\n' ∉ style.nan.toList) (hinf : '\n' ∉ style.infinite.toList)
    (hinf' : '\n' ∉ style.minusInfinite.toList) : '\n' ∉ (ofBits f style bits).toList := by
  have hsigns : '\n' ∉ signs := by decide
  rw [ofBits]
  split
  · exact hnan
  · split
    · split
      · exact hinf'
      · exact hinf
    · -- What is left is finite, and written with the signs of numbers.
      rw [String.toList_ofList]
      intro hmem
      split at hmem
      · rcases List.mem_cons.1 hmem with hminus | hmem
        · exact absurd hminus (by decide)
        · exact hsigns (mem_signs_of_finite hmem)
      · exact hsigns (mem_signs_of_finite hmem)

end ProtoSchema.Decimal
