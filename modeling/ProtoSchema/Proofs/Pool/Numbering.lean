import Mathlib.Data.List.Infix
import ProtoSchema.Pool.Layout

/-!
# Numbering

The index that the layout computes for a declared type is the place where the type comes to stand.

`Numbered` says it of a list of placed messages: the indices go up by one, and each message's own
enums follow those of the messages in front of it. The layout of a declaration is numbered
(`numbered_placedList`), and the layout of all records is a concatenation of such lists with the
top-level enums of each record in between. What comes out are three facts about the whole layout:
a message stands at its index (`getElem?_index`), its enums stand from its first enum index on
(`enums_prefix`), and so do the top-level enums of a record (`topEnums_prefix`).
-/

namespace ProtoSchema

/-- Messages with the indices that they have when the first is given these two. -/
def Numbered (index enumIndex : Nat) : List PlacedMessage → Prop
  | [] => True
  | m :: ms =>
    m.index = index ∧ m.enumIndex = enumIndex ∧
      Numbered (index + 1) (enumIndex + m.decl.enums.length) ms

@[simp] theorem PlacedMessage.length_enums (m : PlacedMessage) :
    m.enums.length = m.decl.enums.length := List.length_map _

theorem numbered_append {as bs : List PlacedMessage} : ∀ {i e : Nat},
    Numbered i e (as ++ bs) ↔
      Numbered i e as ∧
        Numbered (i + as.length) (e + (as.flatMap PlacedMessage.enums).length) bs := by
  induction as with
  | nil => simp [Numbered]
  | cons a as ih =>
    intro i e
    rw [List.cons_append, Numbered, Numbered, ih, List.length_cons, List.flatMap_cons,
      List.length_append, PlacedMessage.length_enums, ← Nat.add_assoc e, Nat.add_right_comm i 1,
      Nat.add_assoc i]
    simp only [and_assoc]

/-! ## The layout of a declaration -/

namespace MessageDecl

mutual

@[simp] theorem length_placed (place : Place) (i e : Nat) :
    ∀ m : MessageDecl, (m.placed place i e).length = m.messageCount
  | ⟨_, _, messages, _⟩ => by
    rw [placed, messageCount, List.length_cons, length_placedList, Nat.add_comm]

@[simp] theorem length_placedList (place : Place) (i e : Nat) :
    ∀ ms : List MessageDecl, (placedList place i e ms).length = messageCounts ms
  | [] => rfl
  | m :: ms => by
    rw [placedList, messageCounts, List.length_append, length_placed, length_placedList]

end

mutual

@[simp] theorem length_enums_placed (place : Place) (i e : Nat) :
    ∀ m : MessageDecl, ((m.placed place i e).flatMap PlacedMessage.enums).length = m.enumCount
  | ⟨_, _, messages, _⟩ => by
    rw [placed, enumCount, List.flatMap_cons, List.length_append, length_enums_placedList,
      PlacedMessage.length_enums]

@[simp] theorem length_enums_placedList (place : Place) (i e : Nat) :
    ∀ ms : List MessageDecl,
      ((placedList place i e ms).flatMap PlacedMessage.enums).length = enumCounts ms
  | [] => rfl
  | m :: ms => by
    rw [placedList, enumCounts, List.flatMap_append, List.length_append, length_enums_placed,
      length_enums_placedList]

end

mutual

theorem numbered_placed (place : Place) (i e : Nat) :
    ∀ m : MessageDecl, Numbered i e (m.placed place i e)
  | ⟨_, _, messages, _⟩ => by
    rw [placed]
    exact ⟨rfl, rfl, numbered_placedList _ _ _ messages⟩

/-- **The messages of a declaration are numbered in the order in which they are laid out.** -/
theorem numbered_placedList (place : Place) (i e : Nat) :
    ∀ ms : List MessageDecl, Numbered i e (placedList place i e ms)
  | [] => trivial
  | m :: ms => by
    rw [placedList, numbered_append, length_placed, length_enums_placed]
    exact ⟨numbered_placed place i e m, numbered_placedList place _ _ ms⟩

end

end MessageDecl

/-! ## Where numbered messages stand -/

theorem Numbered.map_index {ms : List PlacedMessage} : ∀ {i e : Nat}, Numbered i e ms →
    ms.map PlacedMessage.index = List.range' i ms.length := by
  induction ms with
  | nil => exact fun _ => rfl
  | cons m ms ih =>
    rintro i e ⟨hi, -, hms⟩
    rw [List.map_cons, List.length_cons, List.range'_succ, hi, ih hms]

/-- A list that stands in a part of another stands in the whole. -/
theorem prefix_drop_trans {α : Type} {xs ys zs : List α} {m n : Nat} (hxy : xs <+: ys.drop n)
    (hyz : ys <+: zs.drop m) : xs <+: zs.drop (m + n) := by
  rw [← List.drop_drop]
  exact hxy.trans (hyz.drop n)

theorem Numbered.enums_prefix {ms : List PlacedMessage} {m : PlacedMessage} :
    ∀ {i e : Nat}, Numbered i e ms → m ∈ ms →
      ∃ n, m.enumIndex = e + n ∧ m.enums <+: (ms.flatMap PlacedMessage.enums).drop n := by
  induction ms with
  | nil => exact fun _ hm => absurd hm List.not_mem_nil
  | cons a ms ih =>
    rintro i e ⟨-, he, hms⟩ hm
    rw [List.flatMap_cons]
    rcases List.mem_cons.1 hm with rfl | hm
    · exact ⟨0, he, List.prefix_append _ _⟩
    · obtain ⟨n, hn, hp⟩ := ih hms hm
      refine ⟨a.enums.length + n, ?_, ?_⟩
      · rw [hn, PlacedMessage.length_enums, Nat.add_assoc]
      · rw [List.drop_length_add_append]
        exact hp

/-! ## The layout of records -/

namespace PlacedRecord

theorem numbered_messages (r : PlacedRecord) :
    Numbered r.messageIndex r.enumIndex r.messages :=
  MessageDecl.numbered_placedList _ _ _ _

theorem length_enums (r : PlacedRecord) :
    r.enums.length = MessageDecl.enumCounts r.decl.messages + r.decl.enums.length := by
  rw [enums, List.length_append, messages, MessageDecl.length_enums_placedList, topEnums,
    List.length_map]

theorem topEnums_prefix_enums (r : PlacedRecord) :
    r.topEnums <+: r.enums.drop (MessageDecl.enumCounts r.decl.messages) := by
  rw [enums, messages,
    List.drop_left' (MessageDecl.length_enums_placedList r.place r.messageIndex r.enumIndex _)]

end PlacedRecord

namespace RecordDecl

/-- The messages of all records stand at indices that go up by one. -/
theorem map_index_placed (rs : List RecordDecl) : ∀ index i e : Nat,
    ((placed index i e rs).flatMap PlacedRecord.messages).map PlacedMessage.index =
      List.range' i ((placed index i e rs).flatMap PlacedRecord.messages).length := by
  induction rs with
  | nil => exact fun _ _ _ => rfl
  | cons r rs ih =>
    intro index i e
    have hlen : (PlacedRecord.mk r index i e).messages.length =
        MessageDecl.messageCounts r.messages := MessageDecl.length_placedList _ _ _ _
    rw [placed, List.flatMap_cons, List.map_append, List.length_append, ih,
      (PlacedRecord.numbered_messages _).map_index, hlen, List.range'_append_1]

/-- The enums of a record stand together. -/
theorem enums_prefix_placed {rs : List RecordDecl} {r : PlacedRecord} : ∀ {index i e : Nat},
    r ∈ placed index i e rs →
      ∃ n, r.enumIndex = e + n ∧
        r.enums <+: ((placed index i e rs).flatMap PlacedRecord.enums).drop n := by
  induction rs with
  | nil => exact fun h => absurd h List.not_mem_nil
  | cons a rs ih =>
    intro index i e h
    rw [placed, List.flatMap_cons]
    rcases List.mem_cons.1 h with rfl | h
    · exact ⟨0, rfl, List.prefix_append _ _⟩
    · obtain ⟨n, hn, hp⟩ := ih h
      refine ⟨(PlacedRecord.mk a index i e).enums.length + n, ?_, ?_⟩
      · rw [hn, PlacedRecord.length_enums]
        simp only [Nat.add_assoc]
      · rw [List.drop_length_add_append]
        exact hp

end RecordDecl

namespace Layout

variable {rs : List RecordDecl} {r : PlacedRecord} {m : PlacedMessage}

/-- All messages of the records, as they are laid out. -/
abbrev messages (rs : List RecordDecl) : List PlacedMessage :=
  (RecordDecl.placed 0 0 0 rs).flatMap PlacedRecord.messages

/-- All enums of the records, as they are laid out. -/
abbrev enums (rs : List RecordDecl) : List PlacedEnum :=
  (RecordDecl.placed 0 0 0 rs).flatMap PlacedRecord.enums

theorem map_index (rs : List RecordDecl) :
    (messages rs).map PlacedMessage.index = List.range (messages rs).length := by
  rw [List.range_eq_range']
  exact RecordDecl.map_index_placed rs 0 0 0

/-- The message at a place has the place as its index. -/
theorem index_of_getElem? {i : Nat} (h : (messages rs)[i]? = some m) : m.index = i := by
  have hi : i < (messages rs).length := (List.getElem?_eq_some_iff.1 h).1
  have he : ((messages rs).map PlacedMessage.index)[i]? = some m.index := by
    rw [List.getElem?_map, h, Option.map_some]
  rw [map_index, List.getElem?_range hi] at he
  exact (Option.some.inj he).symm

/-- **A message stands at its index.** -/
theorem getElem?_index (hm : m ∈ messages rs) : (messages rs)[m.index]? = some m := by
  obtain ⟨i, hi⟩ := List.mem_iff_getElem?.1 hm
  rw [index_of_getElem? hi, hi]

theorem topEnums_prefix (hr : r ∈ RecordDecl.placed 0 0 0 rs) :
    r.topEnums <+: (enums rs).drop (r.enumIndex + MessageDecl.enumCounts r.decl.messages) := by
  obtain ⟨n, hn, hp⟩ := RecordDecl.enums_prefix_placed hr
  rw [hn, Nat.zero_add]
  exact prefix_drop_trans r.topEnums_prefix_enums hp

/-- **The enums of a message stand from its first enum index on.** -/
theorem enums_prefix (hr : r ∈ RecordDecl.placed 0 0 0 rs) (hm : m ∈ r.messages) :
    m.enums <+: (enums rs).drop m.enumIndex := by
  obtain ⟨k, hk, hq⟩ := r.numbered_messages.enums_prefix hm
  obtain ⟨n, hn, hp⟩ := RecordDecl.enums_prefix_placed hr
  have hq' : m.enums <+: r.enums.drop k := by
    rw [PlacedRecord.enums]
    exact hq.trans ((List.prefix_append _ _).drop k)
  rw [hk, hn, Nat.zero_add]
  exact prefix_drop_trans hq' hp

end Layout

end ProtoSchema
