import ProtoSchema.Proofs.Message.Made

/-!
# Changes one after the other

A message may be changed again and again, and a change that is refused leaves it as it is
(`Message.attempt`). Whatever a program changes so, with values and fields that it can come by, is a
message that it can come by (`Message.Made.run`), and still one of the same type.
-/

namespace ProtoSchema

/-- A way of changing a message. -/
inductive Edit
  | set (s : Selector) (v : Value)
  | add (s : Selector) (v : Value)
  | setAt (s : Selector) (index : Nat) (v : Value)
  | clear (s : Selector)
deriving Repr

namespace Edit

/-- How the field to be changed is named. -/
def selector : Edit → Selector
  | set s _ => s
  | add s _ => s
  | setAt s _ _ => s
  | clear s => s

/-- The value that the field is given. -/
def value? : Edit → Option Value
  | set _ v => some v
  | add _ v => some v
  | setAt _ _ v => some v
  | clear _ => none

/-- A program can come by the field and the value. -/
def Made (e : Edit) : Prop := e.selector.Genuine ∧ ∀ v ∈ e.value?, v.Made

end Edit

namespace Message

/-- The changed message. -/
def edit (m : Message) : Edit → Except AccessError Message
  | .set s v => m.set s v
  | .add s v => m.add s v
  | .setAt s index v => m.setAt s index v
  | .clear s => m.clear s

/-- The message after a change, which leaves it as it is if it is refused. -/
def attempt (m : Message) (e : Edit) : Message :=
  match m.edit e with
  | .ok m' => m'
  | .error _ => m

/-- The message after changes, one after the other. -/
def run (m : Message) (es : List Edit) : Message := es.foldl attempt m

variable {m m' : Message} {e : Edit}

theorem type_of_edit (h : m.edit e = .ok m') : m'.type = m.type := by
  cases e with
  | set s v =>
    obtain ⟨f, x, -, -, -, rfl⟩ := set_eq_ok_iff.1 h
    rfl
  | add s v =>
    obtain ⟨f, x, -, -, -, rfl⟩ := add_eq_ok_iff.1 h
    rfl
  | setAt s i v =>
    obtain ⟨f, x, -, -, -, -, rfl⟩ := setAt_eq_ok_iff.1 h
    rfl
  | clear s =>
    obtain ⟨f, -, rfl⟩ := clear_eq_ok_iff.1 h
    rfl

theorem Made.edit (hm : m.Made) (he : e.Made) (h : m.edit e = .ok m') : m'.Made := by
  obtain ⟨hs, hv⟩ := he
  cases e with
  | set s v => exact Value.Made.set hm hs (hv v rfl) h
  | add s v => exact Value.Made.add hm hs (hv v rfl) h
  | setAt s i v => exact Value.Made.setAt hm hs (hv v rfl) h
  | clear s => exact Value.Made.clear hm hs h

/-- **One change keeps the type, and gives a message that a program can come by.** -/
theorem Made.attempt (hm : m.Made) (he : e.Made) :
    (m.attempt e).Made ∧ (m.attempt e).type = m.type := by
  unfold Message.attempt
  split
  · next m' h => exact ⟨hm.edit he h, type_of_edit h⟩
  · exact ⟨hm, rfl⟩

/-- **So do changes one after the other.** -/
theorem Made.run {es : List Edit} (hm : m.Made) (hes : ∀ e ∈ es, e.Made) :
    (m.run es).Made ∧ (m.run es).type = m.type := by
  unfold Message.run
  induction es generalizing m with
  | nil => exact ⟨hm, rfl⟩
  | cons e es ih =>
    rw [List.forall_mem_cons] at hes
    obtain ⟨hmade, htype⟩ := hm.attempt hes.1
    obtain ⟨hmade', htype'⟩ := ih hmade hes.2
    exact ⟨hmade', htype'.trans htype⟩

/-- The value that an edit gives to a field is one that the field takes. -/
theorem toElement?_of_edit (h : m.edit e = .ok m') {v : Value} (hv : e.value? = some v) :
    ∃ f x, m.type.select e.selector = .ok f ∧ v.toElement? m.type.schema f.kind = some x := by
  cases e with
  | set s w =>
    obtain rfl := Option.some.inj hv
    obtain ⟨f, x, hf, -, hx, -⟩ := set_eq_ok_iff.1 h
    exact ⟨f, x, hf, hx⟩
  | add s w =>
    obtain rfl := Option.some.inj hv
    obtain ⟨f, x, hf, -, hx, -⟩ := add_eq_ok_iff.1 h
    exact ⟨f, x, hf, hx⟩
  | setAt s i w =>
    obtain rfl := Option.some.inj hv
    obtain ⟨f, x, hf, -, hx, -⟩ := setAt_eq_ok_iff.1 h
    exact ⟨f, x, hf, hx⟩
  | clear s => simp [Edit.value?] at hv

end Message

end ProtoSchema
