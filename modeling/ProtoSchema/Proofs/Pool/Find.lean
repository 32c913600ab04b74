import Mathlib.Data.List.Nodup
import ProtoSchema.Pool.Basic

/-!
# Finding types by full name

What a name finds depends on the full names of the pool alone (`find?_congr`), and what is found has
the name. Where no full name occurs twice, a name finds exactly the type that has it (`find?_eq_message_iff`, `find?_eq_enum_iff`),
and names that no type has find nothing (`find?_eq_none_iff`).
-/

namespace ProtoSchema

theorem EnumDef.value_of_lt {d : EnumDef} {i : Nat} (h : i < d.values.length) :
    d.value i = d.values[i] := by
  rw [value, List.getD_eq_getElem?_getD, List.getElem?_eq_getElem h, Option.getD_some]

namespace Pool

variable {p q : Pool} {name : String} {i : Nat}

/-- The full names of all types: those of the messages, then those of the enums. -/
def names (p : Pool) : List String :=
  p.messages.map MessageDef.fullName ++ p.enums.map EnumDef.fullName

theorem message_of_getElem? {d : MessageDef} (h : p.messages[i]? = some d) : p.message i = d := by
  rw [message, List.getD_eq_getElem?_getD, h, Option.getD_some]

theorem enum_of_getElem? {d : EnumDef} (h : p.enums[i]? = some d) : p.enum i = d := by
  rw [enum, List.getD_eq_getElem?_getD, h, Option.getD_some]

theorem find?_congr (hm : p.messages.map MessageDef.fullName = q.messages.map MessageDef.fullName)
    (he : p.enums.map EnumDef.fullName = q.enums.map EnumDef.fullName) : p.find? = q.find? := by
  funext name
  have hm' : p.messages.findIdx? (·.fullName = name) = q.messages.findIdx? (·.fullName = name) := by
    have h := congrArg (List.findIdx? (· = name)) hm
    rwa [List.findIdx?_map, List.findIdx?_map] at h
  have he' : p.enums.findIdx? (·.fullName = name) = q.enums.findIdx? (·.fullName = name) := by
    have h := congrArg (List.findIdx? (· = name)) he
    rwa [List.findIdx?_map, List.findIdx?_map] at h
  rw [find?, find?, hm', he']

/-- In a list without repetition an element is found where it stands. -/
theorem findIdx?_eq_some_of_nodup {α : Type} {f : α → String} {l : List α} (h : (l.map f).Nodup) :
    l.findIdx? (f · = name) = some i ↔ l[i]?.map f = some name := by
  have hi : l.findIdx? (f · = name) = (l.map f).findIdx? (· = name) := by
    rw [List.findIdx?_map]
    rfl
  rw [hi, ← List.getElem?_map, List.findIdx?_eq_some_iff_getElem, List.getElem?_eq_some_iff]
  constructor
  · rintro ⟨hlt, heq, -⟩
    exact ⟨hlt, by simpa using heq⟩
  · rintro ⟨hlt, heq⟩
    refine ⟨hlt, by simpa using heq, ?_⟩
    intro j hj hji
    have hj' : (l.map f)[j] = (l.map f)[i] := by rw [heq]; simpa using hji
    exact absurd (h.getElem_inj_iff.1 hj') (Nat.ne_of_lt hj)

theorem fullName_of_find?_message (h : p.find? name = some (.message i)) :
    i < p.messages.length ∧ (p.message i).fullName = name := by
  unfold find? at h
  split at h
  · next j hj =>
    obtain ⟨hlt, heq, -⟩ := List.findIdx?_eq_some_iff_getElem.1 hj
    obtain rfl : j = i := by simpa using h
    rw [message_of_getElem? (List.getElem?_eq_getElem hlt)]
    exact ⟨hlt, by simpa using heq⟩
  · simp at h

theorem fullName_of_find?_enum (h : p.find? name = some (.enum i)) :
    i < p.enums.length ∧ (p.enum i).fullName = name := by
  unfold find? at h
  split at h
  · simp at h
  · obtain ⟨j, hj, hji⟩ := Option.map_eq_some_iff.1 h
    obtain ⟨hlt, heq, -⟩ := List.findIdx?_eq_some_iff_getElem.1 hj
    obtain rfl : j = i := by simpa using hji
    rw [enum_of_getElem? (List.getElem?_eq_getElem hlt)]
    exact ⟨hlt, by simpa using heq⟩

theorem find?_eq_none_iff : p.find? name = none ↔ name ∉ p.names := by
  unfold find? names
  rw [List.mem_append, not_or]
  split
  · next i hi =>
    obtain ⟨hlt, heq, -⟩ := List.findIdx?_eq_some_iff_getElem.1 hi
    refine ⟨fun h => absurd h (Option.some_ne_none _), fun h => absurd ?_ h.1⟩
    exact List.mem_map.2 ⟨_, List.getElem_mem hlt, by simpa using heq⟩
  · next hm =>
    rw [Option.map_eq_none_iff, List.findIdx?_eq_none_iff]
    rw [List.findIdx?_eq_none_iff] at hm
    constructor
    · intro he
      constructor
      · rw [List.mem_map]
        rintro ⟨m, hmem, heq⟩
        simpa [heq] using hm m hmem
      · rw [List.mem_map]
        rintro ⟨e, hmem, heq⟩
        simpa [heq] using he e hmem
    · rintro ⟨-, he⟩ e hmem
      rw [decide_eq_false_iff_not]
      intro heq
      exact he (List.mem_map.2 ⟨e, hmem, heq⟩)

/-- **Where names are unique, a name finds the message that has it.** -/
theorem find?_eq_message_iff (h : p.names.Nodup) :
    p.find? name = some (.message i) ↔ p.messages[i]?.map MessageDef.fullName = some name := by
  rw [← findIdx?_eq_some_of_nodup (List.nodup_append.1 h).1]
  unfold find?
  split
  · next j hj => rw [hj, Option.some.injEq, Option.some.injEq, TypeRef.message.injEq]
  · next hj =>
    rw [hj]
    cases p.enums.findIdx? (·.fullName = name) <;> simp

/-- **Where names are unique, a name finds the enum that has it.** -/
theorem find?_eq_enum_iff (h : p.names.Nodup) :
    p.find? name = some (.enum i) ↔ p.enums[i]?.map EnumDef.fullName = some name := by
  obtain ⟨-, he, hdisjoint⟩ := List.nodup_append.1 h
  unfold find?
  split
  · next j hj =>
    obtain ⟨hlt, heq, -⟩ := List.findIdx?_eq_some_iff_getElem.1 hj
    have hmem : name ∈ p.messages.map MessageDef.fullName :=
      List.mem_map.2 ⟨_, List.getElem_mem hlt, by simpa using heq⟩
    refine ⟨fun hc => by simp at hc, ?_⟩
    intro hc
    rw [← List.getElem?_map] at hc
    exact absurd rfl (hdisjoint name hmem name (List.mem_of_getElem? hc))
  · rw [← findIdx?_eq_some_of_nodup he]
    simp

end Pool

end ProtoSchema
