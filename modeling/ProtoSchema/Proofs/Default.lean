import ProtoSchema.Default
import ProtoSchema.Proofs.Numeral
import ProtoSchema.Proofs.Traverse

/-!
# Integers as declared defaults

An integer is written as a numeral with at most one minus sign in front of it (`Default.Literal`), of
any length. On the way to a value of a field it is first held in a word of 128 bits, and then in one of
the field's type. Neither of the two steps changes it: **the default is the integer that the text writes,
if the type has it, and any other text is refused** (`Scalar.ofDefault_integer`).
-/

namespace ProtoSchema

namespace Default

/-- The characters write the natural number, in decimal or, behind `0x`, in hexadecimal. -/
inductive Magnitude : List Char → Nat → Prop
  | decimal {cs : List Char} {n : Nat} (h : Numeral.Writes 10 cs n) : Magnitude cs n
  | hex {x : Char} {cs : List Char} {n : Nat} (mark : x = 'x' ∨ x = 'X')
    (h : Numeral.Writes 16 cs n) : Magnitude ('0' :: x :: cs) n

/-- The characters write the integer, with a minus sign or without a sign. -/
inductive Literal : List Char → Int → Prop
  | plain {cs : List Char} {n : Nat} (h : Magnitude cs n) : Literal cs n
  | minus {cs : List Char} {n : Nat} (h : Magnitude cs n) : Literal ('-' :: cs) (-n)

variable {cs : List Char} {n : Nat} {v : Int}

/-- No decimal numeral has a letter in it. -/
theorem not_writes_of_mem {c : Char} (hc : Numeral.isDigit 10 c = false) (hmem : c ∈ cs) :
    ¬Numeral.Writes 10 cs n := by
  intro h
  have hdigits := ((Numeral.writes_iff (by decide)).1 h).2.1
  simp [hdigits c hmem] at hc

/-- **The number without a sign is the one that is written.** -/
theorem natural?_eq_some_iff : natural? cs = some n ↔ Magnitude cs n := by
  constructor
  · intro h
    unfold natural? at h
    split at h
    · exact .hex (Or.inl rfl) ((Numeral.natural?_eq_some_iff (by decide)).1 h)
    · exact .hex (Or.inr rfl) ((Numeral.natural?_eq_some_iff (by decide)).1 h)
    · exact .decimal ((Numeral.natural?_eq_some_iff (by decide)).1 h)
  · intro h
    cases h with
    | decimal h =>
      unfold natural?
      split
      · exact absurd h (not_writes_of_mem (c := 'x') rfl (by simp))
      · exact absurd h (not_writes_of_mem (c := 'X') rfl (by simp))
      · exact (Numeral.natural?_eq_some_iff (by decide)).2 h
    | hex mark h =>
      have hnatural := (Numeral.natural?_eq_some_iff (by decide)).2 h
      rcases mark with rfl | rfl
      · exact hnatural
      · exact hnatural

/-- A numeral does not begin with a sign. -/
theorem not_magnitude_minus : ¬Magnitude ('-' :: cs) n := by
  intro h
  cases h with
  | decimal h => exact not_writes_of_mem (c := '-') rfl (by simp) h

/-- **What is written is what stands behind the sign, with the sign.** -/
theorem literal_iff : Literal cs v ↔
    ∃ negative n, signed? cs = some (negative, n) ∧ v = if negative then -(n : Int) else n := by
  unfold signed?
  constructor
  · intro h
    cases h with
    | @plain _ n h =>
      refine ⟨false, n, ?_, rfl⟩
      split
      · exact absurd h not_magnitude_minus
      · rw [natural?_eq_some_iff.2 h]
        rfl
    | @minus ds n h =>
      refine ⟨true, n, ?_, rfl⟩
      simp only [natural?_eq_some_iff.2 h, Option.map_some]
  · rintro ⟨negative, n, h, rfl⟩
    split at h
    · obtain ⟨m, hm, heq⟩ := Option.map_eq_some_iff.1 h
      obtain ⟨rfl, rfl⟩ := Prod.mk.inj heq
      exact .minus (natural?_eq_some_iff.1 hm)
    · obtain ⟨m, hm, heq⟩ := Option.map_eq_some_iff.1 h
      obtain ⟨rfl, rfl⟩ := Prod.mk.inj heq
      exact .plain (natural?_eq_some_iff.1 hm)

/-- **An integer that is read is the one that is written, in a word of 128 bits.** Those that such a
word does not have are refused. -/
theorem integer_eq_ok_iff {text : String} : integer text = .ok v ↔
    Literal text.toList v ∧ -2 ^ 127 ≤ v ∧ v < 2 ^ 127 := by
  have hunsigned : Numeral.span 128 = 2 ^ 128 := rfl
  have hsigned : Numeral.span 127 = 2 ^ 127 := rfl
  rw [literal_iff, integer]
  cases hread : signed? text.toList with
  | none => simp
  | some x =>
    obtain ⟨negative, n⟩ := x
    have hwritten : (∃ negative' n', some (negative, n) = some (negative', n') ∧
        v = if negative' then -(n' : Int) else n') ↔ v = if negative then -(n : Int) else n := by
      constructor
      · rintro ⟨_, _, heq, rfl⟩
        obtain ⟨rfl, rfl⟩ := Prod.mk.inj (Option.some.inj heq)
        rfl
      · intro h
        exact ⟨negative, n, rfl, h⟩
    rw [hwritten]
    simp only [hunsigned, hsigned]
    cases negative with
    | false =>
      simp only [Bool.false_eq_true, if_false]
      split_ifs <;> simp only [false_iff, Except.ok.injEq] <;> omega
    | true =>
      simp only [if_true]
      split_ifs <;> simp only [false_iff, Except.ok.injEq] <;> omega

/-- **An integer from a range is the one that is written, if it is in the range.** -/
theorem integerIn_eq_ok_iff {low high v : Int} {text : String} (hlow : -2 ^ 127 ≤ low)
    (hhigh : high ≤ 2 ^ 127) : integerIn low high text = .ok v ↔
      Literal text.toList v ∧ low ≤ v ∧ v < high := by
  constructor
  · intro h
    rw [integerIn] at h
    split at h
    · simp at h
    · next n hn =>
      split at h
      · next hin =>
        obtain rfl := Except.ok.inj h
        exact ⟨(integer_eq_ok_iff.1 hn).1, hin⟩
      · simp at h
  · rintro ⟨hwritten, hin⟩
    have hn : integer text = .ok v := integer_eq_ok_iff.2 ⟨hwritten, by omega, by omega⟩
    rw [integerIn, hn]
    exact if_pos hin

end Default

/-! ## Values of integer types -/

/-- The least and the greatest integer of a type, if its values are integers. -/
def ScalarType.bounds? : ScalarType → Option (Int × Int)
  | .int32 | .sint32 | .sfixed32 => some (-2 ^ 31, 2 ^ 31 - 1)
  | .int64 | .sint64 | .sfixed64 => some (-2 ^ 63, 2 ^ 63 - 1)
  | .uint32 | .fixed32 => some (0, 2 ^ 32 - 1)
  | .uint64 | .fixed64 => some (0, 2 ^ 64 - 1)
  | .double | .float | .bool | .string | .bytes => none

namespace Scalar

/-- The integer that the value is. -/
def toInt? : Scalar → Option Int
  | int32 n => some n.toInt
  | int64 n => some n.toInt
  | uint32 n => some n.toNat
  | uint64 n => some n.toNat
  | bool _ | float _ | double _ | string _ | bytes _ => none

/-- The value of an integer type that the word for the integer gives. -/
def ofInt (t : ScalarType) (n : Int) : Scalar :=
  match t with
  | .int32 | .sint32 | .sfixed32 => int32 (Int32.ofInt n)
  | .int64 | .sint64 | .sfixed64 => int64 (Int64.ofInt n)
  | .uint32 | .fixed32 => uint32 (UInt32.ofNat n.toNat)
  | .uint64 | .fixed64 => uint64 (UInt64.ofNat n.toNat)
  | .double | .float | .bool | .string | .bytes => zero t

variable {t : ScalarType} {low high n : Int} {text : String} {v : Scalar}

theorem fits_ofInt (t : ScalarType) (n : Int) : (ofInt t n).fits t = true := by cases t <;> rfl

/-- **An integer of the type is not changed by the word that holds it.** -/
theorem toInt?_ofInt (ht : t.bounds? = some (low, high)) (hlow : low ≤ n) (hhigh : n ≤ high) :
    (ofInt t n).toInt? = some n := by
  cases t <;> simp only [ScalarType.bounds?, Option.some.injEq, Prod.mk.injEq, reduceCtorEq] at ht <;>
    obtain ⟨rfl, rfl⟩ := ht
  case int32 | sint32 | sfixed32 =>
    exact congrArg some (Int32.toInt_ofInt_of_le hlow (by omega))
  case int64 | sint64 | sfixed64 =>
    exact congrArg some (Int64.toInt_ofInt_of_le hlow (by omega))
  case uint32 | fixed32 =>
    have hlt : n.toNat < UInt32.size := by
      show n.toNat < 2 ^ 32
      omega
    rw [ofInt, toInt?, UInt32.toNat_ofNat_of_lt' hlt, Int.toNat_of_nonneg hlow]
  case uint64 | fixed64 =>
    have hlt : n.toNat < UInt64.size := by
      show n.toNat < 2 ^ 64
      omega
    rw [ofInt, toInt?, UInt64.toNat_ofNat_of_lt' hlt, Int.toNat_of_nonneg hlow]

/-- A value of the type is the one for the integer that it is. -/
theorem eq_ofInt (hv : v.fits t = true) (hn : v.toInt? = some n) : v = ofInt t n := by
  cases v with
  | int32 x =>
    obtain rfl := Option.some.inj hn
    cases t <;> simp only [fits, Bool.false_eq_true] at hv <;>
      exact congrArg int32 (Int32.ofInt_toInt x).symm
  | int64 x =>
    obtain rfl := Option.some.inj hn
    cases t <;> simp only [fits, Bool.false_eq_true] at hv <;>
      exact congrArg int64 (Int64.ofInt_toInt x).symm
  | uint32 x =>
    obtain rfl := Option.some.inj hn
    cases t <;> simp only [fits, Bool.false_eq_true] at hv <;>
      exact congrArg uint32 UInt32.ofNat_toNat.symm
  | uint64 x =>
    obtain rfl := Option.some.inj hn
    cases t <;> simp only [fits, Bool.false_eq_true] at hv <;>
      exact congrArg uint64 UInt64.ofNat_toNat.symm
  | bool | float | double | string | bytes => simp [toInt?] at hn

theorem ofDefault_eq_map (ht : t.bounds? = some (low, high)) :
    ofDefault t text = (Default.integerIn low (high + 1) text).map (ofInt t) := by
  cases t <;> simp only [ScalarType.bounds?, Option.some.injEq, Prod.mk.injEq, reduceCtorEq] at ht <;>
    obtain ⟨rfl, rfl⟩ := ht <;> rfl

theorem range_of_bounds (ht : t.bounds? = some (low, high)) : -2 ^ 127 ≤ low ∧ high < 2 ^ 127 := by
  cases t <;> simp only [ScalarType.bounds?, Option.some.injEq, Prod.mk.injEq, reduceCtorEq] at ht <;>
    obtain ⟨rfl, rfl⟩ := ht <;> decide

/-- **A default of an integer type is the value for the integer that is written.** -/
theorem ofDefault_eq_ok_iff (ht : t.bounds? = some (low, high)) :
    ofDefault t text = .ok v ↔
      ∃ n, Default.Literal text.toList n ∧ (low ≤ n ∧ n ≤ high) ∧ v = ofInt t n := by
  obtain ⟨hlow, hhigh⟩ := range_of_bounds ht
  rw [ofDefault_eq_map ht, Traverse.map_eq_ok]
  refine exists_congr fun n => ?_
  rw [Default.integerIn_eq_ok_iff hlow (by omega), Int.lt_add_one_iff, and_assoc, @eq_comm _ v]

/-- **Integers as defaults are exact.** For a type with integers, a text gives a value when it is an
optional minus sign and a numeral in decimal, or in hexadecimal behind `0x`, and the integer that it
writes is one of the type. The value is this integer, and there is an error for any other text. On the
way the integer is held in a word of 128 bits, which is refused where the word does not have it. -/
theorem ofDefault_integer (ht : t.bounds? = some (low, high)) (text : String) :
    (∀ v, ofDefault t text = .ok v ↔ v.fits t = true ∧
      ∃ n, v.toInt? = some n ∧ Default.Literal text.toList n ∧ low ≤ n ∧ n ≤ high) ∧
    (∀ n, Default.Literal text.toList n → low ≤ n → n ≤ high →
      ∃ v, ofDefault t text = .ok v ∧ v.toInt? = some n) ∧
    ((¬∃ n, Default.Literal text.toList n ∧ low ≤ n ∧ n ≤ high) → ∃ e, ofDefault t text = .error e) ∧
    ∀ n, Default.integer text = .ok n ↔
      Default.Literal text.toList n ∧ -2 ^ 127 ≤ n ∧ n < 2 ^ 127 := by
  refine ⟨fun v => ?_, fun n hwritten hlow hhigh => ?_, fun hnone => ?_,
    fun n => Default.integer_eq_ok_iff⟩
  · rw [ofDefault_eq_ok_iff ht]
    constructor
    · rintro ⟨n, hwritten, hin, rfl⟩
      exact ⟨fits_ofInt t n, n, toInt?_ofInt ht hin.1 hin.2, hwritten, hin⟩
    · rintro ⟨hfits, n, hn, hwritten, hin⟩
      exact ⟨n, hwritten, hin, eq_ofInt hfits hn⟩
  · exact ⟨ofInt t n, (ofDefault_eq_ok_iff ht).2 ⟨n, hwritten, ⟨hlow, hhigh⟩, rfl⟩,
      toInt?_ofInt ht hlow hhigh⟩
  · cases h : ofDefault t text with
    | error e => exact ⟨e, rfl⟩
    | ok v =>
      obtain ⟨n, hwritten, hin, -⟩ := (ofDefault_eq_ok_iff ht).1 h
      exact absurd ⟨n, hwritten, hin⟩ hnone

/-- The least integer of 32 bits is read in hexadecimal, and the one below it is refused. -/
theorem ofDefault_integer_least : ScalarType.bounds? .int32 = some (-2 ^ 31, 2 ^ 31 - 1) ∧
    ofDefault .int32 "-0x80000000" = .ok (int32 (-2147483648)) ∧
      ∃ e, ofDefault .int32 "-2147483649" = .error e := by
  have hbounds : ScalarType.bounds? .int32 = some (-2 ^ 31, 2 ^ 31 - 1) := rfl
  obtain ⟨hread, -, -, -⟩ := ofDefault_integer hbounds "-0x80000000"
  obtain ⟨-, -, hrefused, -⟩ := ofDefault_integer hbounds "-2147483649"
  have hdigits : Numeral.Writes 16 "80000000".toList 2147483648 :=
    (Numeral.writes_iff (by decide)).2 ⟨by decide, List.all_eq_true.1 (by decide), by decide⟩
  have hsigned : Default.signed? "-2147483649".toList = some (true, 2147483649) := by decide
  refine ⟨hbounds, (hread _).2 ⟨rfl, -2147483648, by decide, ?_, by decide, by decide⟩, hrefused ?_⟩
  · exact .minus (.hex (Or.inl rfl) hdigits)
  · rintro ⟨n, hwritten, hlow, -⟩
    obtain ⟨negative, m, hm, rfl⟩ := Default.literal_iff.1 hwritten
    obtain ⟨rfl, rfl⟩ := Prod.mk.inj (Option.some.inj (hsigned.symm.trans hm))
    exact absurd hlow (by decide)

end Scalar

end ProtoSchema
