import Mathlib.Data.List.Forall2
import Mathlib.Data.Nat.Digits.Defs
import ProtoSchema.Proofs.Text.Run

/-!
# What digits write

`Spells` says which digit a character stands for, in either case of the letters, and `Writes` which
number a run of digits writes: the sum of the digits with their powers of the radix. **A numeral is read
as a number exactly when it writes this number** (`natural?_eq_some_iff`), however long it is.
-/

namespace ProtoSchema.Numeral

/-- The character stands for the digit of the radix, which is at most 16. -/
def Spells (radix : Nat) (c : Char) (d : Nat) : Prop :=
  d < radix ∧ (c = digit d ∨ c = (digit d).toUpper)

/-- The characters are digits, one or more of them, and write the number. -/
def Writes (radix : Nat) (cs : List Char) (n : Nat) : Prop :=
  cs ≠ [] ∧ ∃ ds, List.Forall₂ (Spells radix) cs ds ∧ n = Nat.ofDigits radix ds.reverse

variable {radix n d : Nat} {c : Char} {cs : List Char}

/-- No character from behind `f` is a digit. -/
theorem toNat_lt_of_digitValue (h : digitValue c < 16) : c.toNat < 0x67 := by
  simp only [digitValue, Bool.and_eq_true, decide_eq_true_eq] at h
  split at h
  · omega
  · split at h
    · omega
    · split at h <;> omega

/-- **A character spells a digit when it is a digit of this value.** -/
theorem spells_iff (hradix : radix ≤ 16) :
    Spells radix c d ↔ isDigit radix c = true ∧ digitValue c = d := by
  rw [isDigit, decide_eq_true_eq]
  constructor
  · rintro ⟨hd, hc⟩
    have hupper : ∀ m < 16, digitValue (digit m).toUpper = m := by decide
    have hvalue : digitValue c = d := by
      rcases hc with rfl | rfl
      · exact digitValue_digit (by omega)
      · exact hupper d (by omega)
    exact ⟨hvalue ▸ hd, hvalue⟩
  · rintro ⟨hlt, rfl⟩
    have hall : ∀ m < 0x67, digitValue (Char.ofNat m) < 16 →
        Char.ofNat m = digit (digitValue (Char.ofNat m)) ∨
          Char.ofNat m = (digit (digitValue (Char.ofNat m))).toUpper := by decide
    have hdigit := hall c.toNat (toNat_lt_of_digitValue (by omega))
    rw [Char.ofNat_toNat] at hdigit
    exact ⟨hlt, hdigit (by omega)⟩

/-- The number is the sum of the digits with their powers of the radix. -/
theorem value_eq_ofDigits (radix : Nat) (cs : List Char) :
    value radix cs = Nat.ofDigits radix (cs.map digitValue).reverse := by
  induction cs using List.reverseRecOn with
  | nil => rfl
  | append_singleton cs c ih =>
    rw [value_append, ih, List.map_append, List.reverse_append, List.map_singleton,
      List.reverse_singleton, List.singleton_append, Nat.ofDigits_cons, List.length_singleton]
    simp only [value, List.foldl_cons, List.foldl_nil]
    ring

/-- Characters that spell digits one by one are those digits. -/
theorem forall₂_spells_iff (hradix : radix ≤ 16) {ds : List Nat} :
    List.Forall₂ (Spells radix) cs ds ↔
      (∀ c ∈ cs, isDigit radix c = true) ∧ cs.map digitValue = ds := by
  induction cs generalizing ds with
  | nil => cases ds <;> simp
  | cons c cs ih =>
    cases ds with
    | nil => simp
    | cons d ds =>
      rw [List.forall₂_cons, spells_iff hradix, ih, List.forall_mem_cons, List.map_cons,
        List.cons.injEq]
      tauto

theorem writes_iff (hradix : radix ≤ 16) :
    Writes radix cs n ↔ cs ≠ [] ∧ (∀ c ∈ cs, isDigit radix c = true) ∧ value radix cs = n := by
  rw [Writes, and_congr_right_iff]
  intro _
  constructor
  · rintro ⟨ds, hds, rfl⟩
    obtain ⟨hdigits, rfl⟩ := (forall₂_spells_iff hradix).1 hds
    exact ⟨hdigits, value_eq_ofDigits radix cs⟩
  · rintro ⟨hdigits, rfl⟩
    exact ⟨_, (forall₂_spells_iff hradix).2 ⟨hdigits, rfl⟩, value_eq_ofDigits radix cs⟩

/-- **A numeral is read as the number that it writes,** and what writes no number is not read. -/
theorem natural?_eq_some_iff (hradix : radix ≤ 16) :
    natural? radix cs = some n ↔ Writes radix cs n := by
  rw [writes_iff hradix, natural?, Option.ite_none_right_eq_some, Option.some.injEq, and_assoc,
    List.all_eq_true]

end ProtoSchema.Numeral
