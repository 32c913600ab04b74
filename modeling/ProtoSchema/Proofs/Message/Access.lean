import ProtoSchema.Message.Access
import ProtoSchema.Proofs.Traverse

/-!
# When a message can be changed

Each way of changing a message goes through exactly when its field is found, is repeated or not as it
takes, and fits the value; and then the changed message differs in the values of this field.
-/

namespace ProtoSchema.Message

open Traverse

variable {m m' : Message} {s : Selector} {f : FieldDef} {v : Value} {e : Element}

theorem selectRepeated_eq_ok_iff :
    m.selectRepeated s = .ok f ↔ m.type.select s = .ok f ∧ f.isRepeated = true := by
  rw [selectRepeated, bind_eq_ok]
  constructor
  · rintro ⟨g, hg, h⟩
    split at h
    · next hrep =>
      obtain rfl := Except.ok.inj h
      exact ⟨hg, hrep⟩
    · simp at h
  · rintro ⟨hf, hrep⟩
    exact ⟨f, hf, if_pos hrep⟩

theorem fit_eq_ok_iff : m.fit f v = .ok e ↔ v.toElement? m.type.schema f.kind = some e := by
  unfold fit
  cases v.toElement? m.type.schema f.kind <;> simp

/-- **A value can be set for a field that is not repeated and takes it.** -/
theorem set_eq_ok_iff : m.set s v = .ok m' ↔ ∃ f e, m.type.select s = .ok f ∧
    f.isRepeated = false ∧ v.toElement? m.type.schema f.kind = some e ∧
      m' = { m with content := Content.replace f.number [e] m.content } := by
  rw [set, bind_eq_ok]
  constructor
  · rintro ⟨f, hf, h⟩
    split at h
    · simp at h
    · next hrep =>
      obtain ⟨e, he, h⟩ := bind_eq_ok.1 h
      exact ⟨f, e, hf, Bool.eq_false_iff.2 hrep, fit_eq_ok_iff.1 he, (Except.ok.inj h).symm⟩
  · rintro ⟨f, e, hf, hrep, he, rfl⟩
    refine ⟨f, hf, ?_⟩
    rw [if_neg (Bool.eq_false_iff.1 hrep), bind_eq_ok]
    exact ⟨e, fit_eq_ok_iff.2 he, rfl⟩

/-- **A value can be added to a repeated field that takes it.** -/
theorem add_eq_ok_iff : m.add s v = .ok m' ↔ ∃ f e, m.type.select s = .ok f ∧
    f.isRepeated = true ∧ v.toElement? m.type.schema f.kind = some e ∧
      m' = { m with content := Content.append f.number [e] m.content } := by
  rw [add, bind_eq_ok]
  constructor
  · rintro ⟨f, hf, h⟩
    obtain ⟨e, he, h⟩ := bind_eq_ok.1 h
    obtain ⟨hf, hrep⟩ := selectRepeated_eq_ok_iff.1 hf
    exact ⟨f, e, hf, hrep, fit_eq_ok_iff.1 he, (Except.ok.inj h).symm⟩
  · rintro ⟨f, e, hf, hrep, he, rfl⟩
    refine ⟨f, selectRepeated_eq_ok_iff.2 ⟨hf, hrep⟩, ?_⟩
    rw [bind_eq_ok]
    exact ⟨e, fit_eq_ok_iff.2 he, rfl⟩

/-- **An element of a repeated field that takes the value can be replaced.** -/
theorem setAt_eq_ok_iff {i : Nat} : m.setAt s i v = .ok m' ↔ ∃ f e, m.type.select s = .ok f ∧
    f.isRepeated = true ∧ v.toElement? m.type.schema f.kind = some e ∧
      i < (Content.values f.number m.content).length ∧
        m' = { m with content :=
          Content.replace f.number ((Content.values f.number m.content).set i e) m.content } := by
  rw [setAt, bind_eq_ok]
  constructor
  · rintro ⟨f, hf, h⟩
    obtain ⟨e, he, h⟩ := bind_eq_ok.1 h
    obtain ⟨hf, hrep⟩ := selectRepeated_eq_ok_iff.1 hf
    simp only at h
    split at h
    · next hi =>
      exact ⟨f, e, hf, hrep, fit_eq_ok_iff.1 he, hi, (Except.ok.inj h).symm⟩
    · simp at h
  · rintro ⟨f, e, hf, hrep, he, hi, rfl⟩
    refine ⟨f, selectRepeated_eq_ok_iff.2 ⟨hf, hrep⟩, ?_⟩
    rw [bind_eq_ok]
    exact ⟨e, fit_eq_ok_iff.2 he, if_pos hi⟩

theorem clear_eq_ok_iff : m.clear s = .ok m' ↔ ∃ f, m.type.select s = .ok f ∧
    m' = { m with content := Content.clear f.number m.content } := by
  rw [clear, bind_eq_ok]
  constructor
  · rintro ⟨f, hf, h⟩
    exact ⟨f, hf, (Except.ok.inj h).symm⟩
  · rintro ⟨f, hf, rfl⟩
    exact ⟨f, hf, rfl⟩

end ProtoSchema.Message
