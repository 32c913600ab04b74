import Mathlib.Algebra.Group.Nat.Defs
import Mathlib.Data.List.Induction
import ProtoSchema.Decimal.Basic

/-!
# Runs of characters

A run of characters of one kind ends where another one stands, so it can be told apart from what stands
behind it (`run_append_inj`). The decimal digits of a number are a run that writes the number
(`value_digitsOf`), and so are the characters of its text (`natural?_toString`).
-/

namespace ProtoSchema.Text

variable {α : Type} {p : α → Bool} {as bs rest rest' : List α}

/-- A run ends where something else begins. -/
theorem run_append (h : ∀ a ∈ as, p a = true) (hrest : ∀ a ∈ rest.head?, p a = false) :
    (as ++ rest).takeWhile p = as ∧ (as ++ rest).dropWhile p = rest := by
  rw [List.takeWhile_append_of_pos h, List.dropWhile_append_of_pos h]
  cases rest with
  | nil => exact ⟨List.append_nil _, rfl⟩
  | cons a rest =>
    have ha : p a = false := hrest a rfl
    rw [List.takeWhile_cons_of_neg (by simp [ha]), List.dropWhile_cons_of_neg (by simp [ha])]
    exact ⟨List.append_nil _, rfl⟩

/-- **Runs that are followed by something else are told apart from it.** -/
theorem run_append_inj (ha : ∀ a ∈ as, p a = true) (hb : ∀ b ∈ bs, p b = true)
    (hrest : ∀ a ∈ rest.head?, p a = false) (hrest' : ∀ a ∈ rest'.head?, p a = false)
    (h : as ++ rest = bs ++ rest') : as = bs ∧ rest = rest' := by
  obtain ⟨htake, hdrop⟩ := run_append ha hrest
  obtain ⟨htake', hdrop'⟩ := run_append hb hrest'
  rw [h] at htake hdrop
  exact ⟨htake.symm.trans htake', hdrop.symm.trans hdrop'⟩

end ProtoSchema.Text

namespace ProtoSchema.Numeral

/-- Only ten characters are decimal digits. -/
theorem mem_of_isDigit {c : Char} (h : isDigit 10 c = true) : c ∈ "0123456789".toList := by
  have hvalue : digitValue c < 10 := by simpa [isDigit] using h
  have hrange : 0x30 ≤ c.toNat ∧ c.toNat ≤ 0x39 := by
    simp only [digitValue] at hvalue
    split at hvalue
    · next hin => simpa using hin
    · split at hvalue
      · omega
      · split at hvalue <;> omega
  have hall : ∀ n ∈ List.range 0x3A, 0x30 ≤ n → Char.ofNat n ∈ "0123456789".toList := by decide
  rw [← Char.ofNat_toNat c]
  exact hall _ (List.mem_range.2 (Nat.lt_succ_of_le hrange.2)) hrange.1

theorem isDigit_digit {n : Nat} (h : n < 10) : isDigit 10 (digit n) = true := by
  rw [isDigit, digitValue_digit (Nat.lt_trans h (by decide)), decide_eq_true_eq]
  exact h

theorem value_append (radix : Nat) (as bs : List Char) :
    value radix (as ++ bs) = value radix as * radix ^ bs.length + value radix bs := by
  induction bs using List.reverseRecOn with
  | nil => simp [value]
  | append_singleton bs c ih =>
    rw [← List.append_assoc, List.length_append, List.length_singleton, Nat.pow_succ]
    simp only [value, List.foldl_append, List.foldl_cons, List.foldl_nil] at ih ⊢
    rw [ih, Nat.add_mul, Nat.mul_assoc, Nat.add_assoc]

theorem value_replicate_zero (radix n : Nat) : value radix (List.replicate n '0') = 0 := by
  induction n with
  | zero => rfl
  | succ n ih =>
    rw [List.replicate_succ', value_append, ih]
    simp [value, digitValue]

theorem natural?_of_digits {radix : Nat} {cs : List Char} (hne : cs ≠ [])
    (h : ∀ c ∈ cs, isDigit radix c = true) : natural? radix cs = some (value radix cs) :=
  if_pos ⟨hne, List.all_eq_true.2 h⟩

end ProtoSchema.Numeral

namespace ProtoSchema.Decimal

open Numeral

theorem isDigit_digitsOf {n : Nat} : ∀ c ∈ digitsOf n, isDigit 10 c = true := by
  induction n using digitsOf.induct with
  | case1 =>
    rw [digitsOf, if_pos rfl]
    exact fun _ hc => absurd hc List.not_mem_nil
  | case2 n hn ih =>
    rw [digitsOf, if_neg hn]
    intro c hc
    rcases List.mem_append.1 hc with hc | hc
    · exact ih c hc
    · rw [List.mem_singleton.1 hc]
      exact isDigit_digit (Nat.mod_lt _ (by decide))

/-- The digits of a number write it. -/
theorem value_digitsOf (n : Nat) : Numeral.value 10 (digitsOf n) = n := by
  induction n using digitsOf.induct with
  | case1 =>
    rw [digitsOf, if_pos rfl]
    rfl
  | case2 n hn ih =>
    have hlast : Numeral.value 10 [digit (n % 10)] = n % 10 := by
      simp only [Numeral.value, List.foldl_cons, List.foldl_nil, Nat.zero_mul, Nat.zero_add]
      exact digitValue_digit (Nat.lt_trans (Nat.mod_lt _ (by decide)) (by decide))
    rw [digitsOf, if_neg hn, value_append, ih, hlast]
    simp only [List.length_singleton]
    omega

theorem length_digitsOf (n : Nat) : (digitsOf n).length = digitCount n := by
  induction n using digitsOf.induct with
  | case1 => rw [digitsOf, if_pos rfl, digitCount, if_pos rfl, List.length_nil]
  | case2 n hn ih =>
    rw [digitsOf, if_neg hn, digitCount, if_neg hn, List.length_append, ih, List.length_singleton]

theorem digitsOf_ne_nil {n : Nat} (h : n ≠ 0) : digitsOf n ≠ [] := by
  rw [digitsOf, if_neg h]
  exact List.append_ne_nil_of_right_ne_nil _ (List.cons_ne_nil _ _)

/-- The text of a number that is not zero is its digits. -/
theorem toList_toString {n : Nat} (h : n ≠ 0) : (toString n).toList = digitsOf n := by
  have hdigit : ∀ m < 10, Nat.digitChar m = digit m := by decide
  have hrepr : ∀ m : Nat, (toString m).toList = Nat.toDigits 10 m := fun m => by
    show m.repr.toList = _
    rw [Nat.repr_eq_ofList_toDigits, String.toList_ofList]
  rw [hrepr]
  induction n using digitsOf.induct with
  | case1 => exact absurd rfl h
  | case2 n _ ih =>
    rw [digitsOf, if_neg h]
    by_cases hlt : n < 10
    · rw [Nat.toDigits_of_lt_base hlt, Nat.div_eq_of_lt hlt, Nat.mod_eq_of_lt hlt, digitsOf,
        if_pos rfl, hdigit n hlt, List.nil_append]
    · have hge : 10 ≤ n := Nat.not_lt.1 hlt
      rw [Nat.toDigits_of_base_le (by decide) hge, ih (Nat.ne_of_gt (Nat.div_pos hge (by decide))),
        hdigit _ (Nat.mod_lt _ (by decide))]

theorem isDigit_toString (n : Nat) : ∀ c ∈ (toString n).toList, isDigit 10 c = true := by
  by_cases h : n = 0
  · subst h
    exact List.all_eq_true.1 rfl
  · rw [toList_toString h]
    exact isDigit_digitsOf

/-- The text of a natural number is read as the number. -/
theorem natural?_toString (n : Nat) : natural? 10 (toString n).toList = some n := by
  by_cases h : n = 0
  · subst h
    rfl
  · rw [toList_toString h, natural?_of_digits (digitsOf_ne_nil h) isDigit_digitsOf, value_digitsOf]

end ProtoSchema.Decimal
