import ProtoSchema.Message.Text
import ProtoSchema.Proofs.Decimal.Text
import ProtoSchema.Proofs.Text.Escape

/-!
# The text of scalars

Scalars of one kind that are not NaN are told apart by their texts (`Scalar.eq_of_text_eq`): integers
and floating-point numbers because they are read back, strings and bytes because they are unescaped.
A text never goes over the end of a line (`Scalar.newline_notMem_text`).
-/

namespace ProtoSchema

open Binary

/-! ## Floating-point numbers -/

namespace Decimal

/-- The numbers of a message, the infinite ones included, are read back from their text. -/
theorem toBits?_ofBits_floatStyle {f : Format} (hf : f = single ∨ f = double) {bits : Nat}
    (hbits : bits < 2 * f.signBit) (hnan : f.isNaN bits = false) :
    toBits? f (ofBits f Message.floatStyle bits) = some bits := by
  cases hfinite : f.isFinite bits with
  | true => exact toBits?_ofBits hf _ hbits hfinite
  | false =>
    have hinfinite : f.magnitude bits = f.infinity := by
      simp only [Format.isNaN, Format.isFinite, decide_eq_false_iff_not, Nat.not_lt] at hnan hfinite
      exact Nat.le_antisymm hnan hfinite
    have hbits_eq := Format.bits_eq hbits
    have hread : toBits? f "inf" = some f.infinity ∧
        toBits? f "-inf" = some (f.signBit + f.infinity) := ⟨rfl, rfl⟩
    rw [hinfinite] at hbits_eq
    rw [ofBits, if_neg (by simp [hnan]), if_pos (by simp [Format.isInfinite, hinfinite])]
    conv_rhs => rw [hbits_eq]
    split
    · exact hread.2
    · exact hread.1

theorem ofBits_floatStyle_inj {f : Format} (hf : f = single ∨ f = double) {a b : Nat}
    (ha : a < 2 * f.signBit) (hb : b < 2 * f.signBit) (hnan : f.isNaN a = false)
    (hnan' : f.isNaN b = false)
    (h : ofBits f Message.floatStyle a = ofBits f Message.floatStyle b) : a = b := by
  have hread := toBits?_ofBits_floatStyle hf ha hnan
  rw [h, toBits?_ofBits_floatStyle hf hb hnan'] at hread
  exact (Option.some.inj hread).symm

end Decimal

namespace Scalar

/-- Whether the scalar is a floating-point number that is none. -/
def isNaN : Scalar → Bool
  | float bits => Binary.single.isNaN bits.toNat
  | double bits => Binary.double.isNaN bits.toNat
  | _ => false

/-- The text of a scalar stands on one line. -/
theorem newline_notMem_text (v : Scalar) : '\n' ∉ v.text.toList := by
  have hsigns : '\n' ∉ Decimal.signs := by decide
  have hquoted : ∀ bs, '\n' ∉ ("\"" ++ Text.escape bs ++ "\"").toList := by
    intro bs h
    rw [String.toList_append, String.toList_append, List.mem_append, List.mem_append] at h
    rcases h with (h | h) | h
    · exact absurd h (by decide)
    · exact absurd (Text.printable_escape bs _ h).1 (by decide)
    · exact absurd h (by decide)
  cases v with
  | bool b => cases b <;> decide
  | int32 n => exact fun h => hsigns (Decimal.mem_signs_of_toString h)
  | int64 n => exact fun h => hsigns (Decimal.mem_signs_of_toString h)
  | uint32 n => exact fun h => hsigns (Decimal.mem_signs_of_toString (z := n.toNat) h)
  | uint64 n => exact fun h => hsigns (Decimal.mem_signs_of_toString (z := n.toNat) h)
  | float bits => exact Decimal.newline_notMem_ofBits _ (by decide) (by decide) (by decide)
  | double bits => exact Decimal.newline_notMem_ofBits _ (by decide) (by decide) (by decide)
  | string s => exact hquoted _
  | bytes bs => exact hquoted _

/-- The values of a scalar type are of one kind. -/
theorem kindName_of_fits {v : Scalar} {t : ScalarType} (h : v.fits t = true) :
    v.kindName = (zero t).kindName := by
  cases t <;> cases v <;> first | rfl | cases h

/-- Bytes are told apart by their quoted forms. -/
theorem quoted_escape_inj {as bs : Bytes}
    (h : "\"" ++ Text.escape as ++ "\"" = "\"" ++ Text.escape bs ++ "\"") : as = bs := by
  have hescape := (String.append_right_inj _).1 ((String.append_left_inj _).1 h)
  have hread := Text.unescape_escape as
  rw [hescape, Text.unescape_escape] at hread
  exact (Except.ok.inj hread).symm

/-- **Scalars of one kind that are numbers where they should be are told apart by their texts.** -/
theorem eq_of_text_eq {v w : Scalar} (hkind : v.kindName = w.kindName) (hv : v.isNaN = false)
    (hw : w.isNaN = false) (h : v.text = w.text) : v = w := by
  have hint : ∀ {m n : ℤ}, toString m = toString n → m = n := by
    intro m n h
    have hread := Decimal.integer?_toString m
    rw [h, Decimal.integer?_toString] at hread
    exact (Option.some.inj hread).symm
  have hnat : ∀ {m n : ℕ}, toString m = toString n → m = n := fun {m n} h =>
    Int.ofNat_inj.1 (hint (m := m) (n := n) h)
  have hutf8 : ∀ {s t : String}, utf8 s = utf8 t → s = t := by
    intro s t h
    have hread := text?_utf8 s
    rw [h, text?_utf8] at hread
    exact (Option.some.inj hread).symm
  cases v with
  | bool a =>
    cases w with
    | bool b => revert h; revert a b; decide
    | _ => simp [kindName] at hkind
  | int32 a =>
    cases w with
    | int32 b => exact congrArg int32 (Int32.toInt_inj.1 (hint h))
    | _ => simp [kindName] at hkind
  | int64 a =>
    cases w with
    | int64 b => exact congrArg int64 (Int64.toInt_inj.1 (hint h))
    | _ => simp [kindName] at hkind
  | uint32 a =>
    cases w with
    | uint32 b => exact congrArg uint32 (UInt32.toNat_inj.1 (hnat h))
    | _ => simp [kindName] at hkind
  | uint64 a =>
    cases w with
    | uint64 b => exact congrArg uint64 (UInt64.toNat_inj.1 (hnat h))
    | _ => simp [kindName] at hkind
  | float a =>
    cases w with
    | float b =>
      exact congrArg float (UInt32.toNat_inj.1
        (Decimal.ofBits_floatStyle_inj (Or.inl rfl) a.toNat_lt b.toNat_lt hv hw h))
    | _ => simp [kindName] at hkind
  | double a =>
    cases w with
    | double b =>
      exact congrArg double (UInt64.toNat_inj.1
        (Decimal.ofBits_floatStyle_inj (Or.inr rfl) a.toNat_lt b.toNat_lt hv hw h))
    | _ => simp [kindName] at hkind
  | string a =>
    cases w with
    | string b => exact congrArg string (hutf8 (quoted_escape_inj h))
    | _ => simp [kindName] at hkind
  | bytes a =>
    cases w with
    | bytes b => exact congrArg bytes (quoted_escape_inj h)
    | _ => simp [kindName] at hkind

end Scalar

end ProtoSchema
