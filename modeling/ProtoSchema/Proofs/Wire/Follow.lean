import ProtoSchema.Proofs.Wire.Front

/-!
# Readers that follow others

A reader follows another one when it reads whatever the other reads, and to the same end
(`Reader.Follows`). Followers of parts make followers of the whole. What reads past an unknown field
follows what reads a field of any type, as long as it has the same wire type
(`follows_skip_scalar`, `follows_delimited_packed`).
-/

namespace ProtoSchema.Reader

variable {ε α β γ δ : Type}

/-- Whatever `r` reads, `r'` reads to the same end, and what they give is related. -/
def Follows (r' : Reader ε β) (r : Reader ε α) (R : α → β → Prop) : Prop :=
  ∀ bs a rest, r.read bs = .ok (a, rest) → ∃ b, r'.read bs = .ok (b, rest) ∧ R a b

variable {r : Reader ε α} {r' : Reader ε β} {R : α → β → Prop} {Q : γ → δ → Prop}

theorem follows_refl (r : Reader ε α) : r.Follows r fun a b => b = a :=
  fun _ a _ h => ⟨a, h, rfl⟩

theorem Follows.check (h : r'.Follows r R) {f : α → Except ε γ} {f' : β → Except ε δ}
    (hf : ∀ a b c, R a b → f a = .ok c → ∃ d, f' b = .ok d ∧ Q c d) :
    (r'.check f').Follows (r.check f) Q := by
  intro bs c rest hc
  obtain ⟨a, ha, hc⟩ := check_eq_ok_iff.1 hc
  obtain ⟨b, hb, hR⟩ := h _ _ _ ha
  obtain ⟨d, hd, hQ⟩ := hf a b c hR hc
  exact ⟨d, check_eq_ok_iff.2 ⟨b, hb, hd⟩, hQ⟩

theorem Follows.map (h : r'.Follows r R) {f : α → γ} {f' : β → δ}
    (hf : ∀ a b, R a b → Q (f a) (f' b)) : (r'.map f').Follows (r.map f) Q :=
  h.check fun a b c hR hc => by
    obtain rfl := Except.ok.inj hc
    exact ⟨f' b, rfl, hf a b hR⟩

/-- What follows a reader follows what is made of the things that it reads. -/
theorem Follows.of_check (h : r'.Follows r R) {f : α → Except ε γ} :
    r'.Follows (r.check f) fun _ _ => True := by
  intro bs c rest hc
  obtain ⟨a, ha, -⟩ := check_eq_ok_iff.1 hc
  obtain ⟨b, hb, -⟩ := h _ _ _ ha
  exact ⟨b, hb, trivial⟩

theorem Follows.of_map (h : r'.Follows r R) (f : α → γ) : r'.Follows (r.map f) fun _ _ => True :=
  h.of_check

/-- What is made of the things that a follower reads does not matter either. -/
theorem Follows.map_left (h : r'.Follows r R) (f' : β → δ) :
    (r'.map f').Follows r fun _ _ => True := by
  intro bs a rest ha
  obtain ⟨b, hb, -⟩ := h _ _ _ ha
  exact ⟨f' b, map_eq_ok_iff.2 ⟨b, hb, rfl⟩, trivial⟩

theorem follows_bind {f : α → Reader ε γ} {f' : α → Reader ε δ} (hf : ∀ a, (f' a).Follows (f a) Q) :
    (r.bind f').Follows (r.bind f) Q := by
  intro bs c rest hc
  obtain ⟨a, rest', ha, hc⟩ := bind_eq_ok_iff.1 hc
  obtain ⟨d, hd, hQ⟩ := hf a _ _ _ hc
  exact ⟨d, bind_eq_ok_iff.2 ⟨a, rest', ha, hd⟩, hQ⟩

/-- A reader for one wire type reads only records of that type. -/
theorem follows_ofType {r : Reader WireFault α} (r' : WireType → Reader WireFault β)
    (actual : WireType) {expected : WireType} (h : (r' expected).Follows r R) :
    (r' actual).Follows (r.ofType actual expected) R := by
  unfold Reader.ofType
  split
  · next heq => exact heq ▸ h
  · exact fun _ _ _ hr => by simp [fail] at hr

/-- **A follower reads a whole input in the same parts.** -/
theorem all_of_follows (h : r'.Follows r R) {bs : Bytes} {as : List α} (ha : r.all bs = .ok as) :
    ∃ as', r'.all bs = .ok as' ∧ List.Forall₂ R as as' := by
  fun_induction all r bs generalizing as with
  | case1 =>
    obtain rfl := Except.ok.inj ha
    exact ⟨[], all_nil r', .nil⟩
  | case2 => simp at ha
  | case3 bs hne a rest hr ih =>
    obtain ⟨as, has, rfl⟩ := Traverse.map_eq_ok.1 ha
    obtain ⟨b, hb, hR⟩ := h _ _ _ hr
    obtain ⟨as', has', hall⟩ := ih has
    exact ⟨b :: as', by rw [all_ok hb, has']; rfl, .cons hR hall⟩

/-! ## Reading past values -/

/-- **What is packed behind a length is as long as the length says.** -/
theorem follows_delimited_packed {r : Reader WireFault α} (h : r.SelfDelimiting) :
    delimited.Follows (packed id r) fun _ _ => True := by
  intro bs as rest hb
  obtain ⟨n, rest', hn, -, hw⟩ := packed_eq_ok_iff.1 hb
  obtain ⟨front, rfl, -⟩ := h.within _ _ _ _ _ hw
  have hlen : n = front.length := by
    have hused := length_of_within hw
    rw [List.length_append] at hused
    omega
  exact ⟨front, delimited_eq_ok_iff.2 (hlen ▸ hn), trivial⟩

/-- **What reads past a value reads as far as what reads it.** -/
theorem follows_skip_scalar (budget tag : Nat) (t : ScalarType) :
    (skip (budget + 1) ⟨tag, t.wireType⟩).Follows (scalar t) fun _ _ => True := by
  cases t
  case int32 => exact (((follows_refl varint).of_map _).of_map _).map_left _
  case string => exact ((follows_refl delimited).of_check.of_map _).map_left _
  all_goals exact ((follows_refl _).of_map _).map_left _

end ProtoSchema.Reader
