import ProtoSchema.Proofs.Pool.Reachable
import ProtoSchema.Schema.Basic

/-!
# Names that find types

A schema lists its types by full name, and a full name is to find the type that has it. It does so with
a dot in front, whatever else the schema holds: a type of that full name goes before those that the
name would fit in the schema's package, or as a short name (`Lookup.find_of_getElem?`). Without a dot in
front it does so too, unless it begins with a dot of its own. Packages are any text, so full names may
begin with a dot, and a look-up takes it for the sign of an absolute name: it is dropped, and what is
left is never the name of the type that was meant (`Lookup.ne_of_find_dot`).

`Schema.find_listed` states both, with the names that find their types exactly.
-/

namespace ProtoSchema

namespace Name

theorem ne_dot (name : String) : name ≠ "." ++ name := by
  intro h
  have hlen := congrArg String.length h
  rw [String.length_append] at hlen
  have : ".".length = 1 := rfl
  omega

/-- A dot alone is no scope. -/
theorem qualify_ne_dot (scope name : String) : qualify scope name ≠ "." ++ name := by
  unfold qualify
  split
  · exact ne_dot name
  · next hscope =>
    intro h
    have hdot : scope ++ "." = "" ++ "." := 
      (String.append_left_inj name).1 (h.trans (by rw [String.empty_append]))
    exact hscope ((String.append_left_inj ".").1 hdot)

end Name

namespace Lookup

variable {package name : String} {types : List (String × String)} {i : Nat} {t : String × String}

/-- What a look-up finds has the name without its dot for a full name, for a name in the package or for
a short name. -/
theorem getElem?_of_find (h : find package types name = .ok i) :
    ∃ t, types[i]? = some t ∧ (t.2 = (Name.absolute? name).getD name ∨
      (package ≠ "" ∧ t.2 = Name.qualify package ((Name.absolute? name).getD name)) ∨
        t.1 = (Name.absolute? name).getD name) := by
  unfold find at h
  simp only at h
  split at h
  · next j hj =>
    obtain rfl := Except.ok.inj h
    obtain ⟨hlt, hname, -⟩ := List.findIdx?_eq_some_iff_getElem.1 hj
    exact ⟨_, List.getElem?_eq_getElem hlt, Or.inl (by simpa using hname)⟩
  · split at h
    · next j hj =>
      obtain rfl := Except.ok.inj h
      obtain ⟨hlt, hname, -⟩ := List.findIdx?_eq_some_iff_getElem.1 hj
      exact ⟨_, List.getElem?_eq_getElem hlt, Or.inr (Or.inl (by simpa using hname))⟩
    · split at h
      · next j hj =>
        obtain rfl := Except.ok.inj h
        have hmem : j ∈ shortMatches types ((Name.absolute? name).getD name) := by
          rw [hj]
          exact List.mem_singleton_self j
        obtain ⟨t, ht, hshort⟩ : ∃ t, types[j]? = some t ∧ t.1 = (Name.absolute? name).getD name := by
          simpa [shortMatches] using (List.mem_filter.1 hmem).2
        exact ⟨t, ht, Or.inr (Or.inr hshort)⟩
      · simp at h
      · simp at h

theorem lt_of_find (h : find package types name = .ok i) : i < types.length := by
  obtain ⟨t, ht, -⟩ := getElem?_of_find h
  exact (List.getElem?_eq_some_iff.1 ht).1

/-- **A full name finds the type that has it, before anything else that it would fit.** -/
theorem find_of_getElem? (hn : (types.map Prod.snd).Nodup) (ht : types[i]? = some t)
    (hname : (Name.absolute? name).getD name = t.2) : find package types name = .ok i := by
  have hfound : types.findIdx? (fun t => t.2 = (Name.absolute? name).getD name) = some i := by
    rw [Pool.findIdx?_eq_some_of_nodup hn, ht, hname]
    rfl
  unfold find
  simp only
  rw [hfound]

/-- **A name that begins with a dot does not find the type that has it for a full name.** -/
theorem ne_of_find_dot (ht : types[i]? = some t) (hq : ∃ scope, t.2 = Name.qualify scope t.1)
    (h : find package types ("." ++ name) = .ok i) : t.2 ≠ "." ++ name := by
  obtain ⟨t', ht', hcases⟩ := getElem?_of_find h
  obtain rfl : t' = t := Option.some.inj (ht'.symm.trans ht)
  rw [Name.absolute?_dot, Option.getD_some] at hcases
  obtain ⟨scope, hscope⟩ := hq
  rcases hcases with hname | ⟨-, hname⟩ | hname
  · rw [hname]
    exact Name.ne_dot name
  · rw [hname]
    exact Name.qualify_ne_dot package name
  · rw [hscope, hname]
    exact Name.qualify_ne_dot scope name

/-- **The type at an index is found by its full name behind a dot,** and by the full name alone unless
that begins with a dot. -/
theorem find_fullName (hn : (types.map Prod.snd).Nodup) (hq : ∃ scope, t.2 = Name.qualify scope t.1)
    (ht : types[i]? = some t) : find package types ("." ++ t.2) = .ok i ∧
      (find package types t.2 = .ok i ↔ ∀ rest, t.2 ≠ "." ++ rest) := by
  refine ⟨find_of_getElem? hn ht (by simp), ?_, ?_⟩
  · intro h rest hdot
    rw [hdot] at h
    exact ne_of_find_dot ht hq h hdot
  · intro hdot
    refine find_of_getElem? hn ht ?_
    have habsolute : Name.absolute? t.2 = none := by
      rw [Option.eq_none_iff_forall_ne_some]
      intro rest h
      exact hdot rest (Name.absolute?_eq_some_iff.1 h)
    rw [habsolute, Option.getD_none]

end Lookup

/-! ## Full names in a pool -/

namespace Pool.Consistent

variable {p : Pool} {i : Nat}

/-- The full name of a message is its name in some scope. -/
theorem qualified_message (h : p.Consistent) {d : MessageDef} (hd : p.messages[i]? = some d) :
    ∃ scope, d.fullName = Name.qualify scope d.name := by
  obtain ⟨m, -, -, hlink⟩ := h.linked.placed_at hd
  refine ⟨m.place.scope, ?_⟩
  rw [(Link.message_eq_ok_iff.1 hlink).2]
  rfl

/-- The full name of an enum is its name in some scope. -/
theorem qualified_enum (h : p.Consistent) {d : EnumDef} (hd : p.enums[i]? = some d) :
    ∃ scope, d.fullName = Name.qualify scope d.name := by
  rw [h.linked.enums, List.getElem?_map] at hd
  obtain ⟨e, -, rfl⟩ := Option.map_eq_some_iff.1 hd
  exact ⟨e.place.scope, rfl⟩

theorem find_message (h : p.Consistent) {d : MessageDef} (hd : p.messages[i]? = some d) :
    p.findMessage ("." ++ d.fullName) = .ok i ∧
      (p.findMessage d.fullName = .ok i ↔ ∀ rest, d.fullName ≠ "." ++ rest) := by
  refine Lookup.find_fullName (t := (d.name, d.fullName)) ?_ (h.qualified_message hd) ?_
  · rw [List.map_map]
    exact (List.nodup_append.1 h.linked.laidOut.names_nodup).1
  · rw [List.getElem?_map, hd]
    rfl

theorem find_enum (h : p.Consistent) {d : EnumDef} (hd : p.enums[i]? = some d) :
    p.findEnum ("." ++ d.fullName) = .ok i ∧
      (p.findEnum d.fullName = .ok i ↔ ∀ rest, d.fullName ≠ "." ++ rest) := by
  refine Lookup.find_fullName (t := (d.name, d.fullName)) ?_ (h.qualified_enum hd) ?_
  · rw [List.map_map]
    exact (List.nodup_append.1 h.linked.laidOut.names_nodup).2.1
  · rw [List.getElem?_map, hd]
    rfl

end Pool.Consistent

/-! ## Listed names -/

namespace Schema

variable {s : Schema} {n : String}

theorem message_of_name (h : s.pool.Consistent) (hn : n ∈ s.messageNames) :
    ∃ t ∈ s.messages, t.fullName = n ∧ (∀ u ∈ s.messages, u.fullName = n → u = t) ∧
      s.findMessage ("." ++ n) = .ok t ∧ (s.findMessage n = .ok t ↔ ∀ rest, n ≠ "." ++ rest) := by
  obtain ⟨d, hd, rfl⟩ := List.mem_map.1 hn
  obtain ⟨i, hi⟩ := List.mem_iff_getElem?.1 hd
  obtain ⟨hdot, hplain⟩ := h.find_message hi
  have hname : (MessageType.mk s i).fullName = d.fullName := by
    rw [MessageType.fullName, MessageType.define, Pool.message_of_getElem? hi]
  refine ⟨⟨s, i⟩, List.mem_map_of_mem (List.mem_range.2 (List.getElem?_eq_some_iff.1 hi).1), hname,
    ?_, by rw [findMessage, hdot]; rfl, ?_⟩
  · -- A message that has the name too is found under it as well.
    rintro ⟨s', j⟩ hu heq
    obtain ⟨k, hk, hkj⟩ := List.mem_map.1 hu
    obtain ⟨rfl, rfl⟩ : s = s' ∧ k = j := by simpa using hkj
    have hd' := List.getElem?_eq_getElem (List.mem_range.1 hk)
    rw [MessageType.fullName, MessageType.define, Pool.message_of_getElem? hd'] at heq
    have hdot' := (h.find_message hd').1
    rw [heq, hdot] at hdot'
    rw [Except.ok.inj hdot']
  · rw [← hplain, findMessage, Traverse.map_eq_ok]
    simp

theorem enum_of_name (h : s.pool.Consistent) (hn : n ∈ s.enumNames) :
    ∃ t ∈ s.enums, t.fullName = n ∧ (∀ u ∈ s.enums, u.fullName = n → u = t) ∧
      s.findEnum ("." ++ n) = .ok t ∧ (s.findEnum n = .ok t ↔ ∀ rest, n ≠ "." ++ rest) := by
  obtain ⟨d, hd, rfl⟩ := List.mem_map.1 hn
  obtain ⟨i, hi⟩ := List.mem_iff_getElem?.1 hd
  obtain ⟨hdot, hplain⟩ := h.find_enum hi
  have hname : (EnumType.mk s i).fullName = d.fullName := by
    rw [EnumType.fullName, EnumType.define, Pool.enum_of_getElem? hi]
  refine ⟨⟨s, i⟩, List.mem_map_of_mem (List.mem_range.2 (List.getElem?_eq_some_iff.1 hi).1), hname,
    ?_, by rw [findEnum, hdot]; rfl, ?_⟩
  · rintro ⟨s', j⟩ hu heq
    obtain ⟨k, hk, hkj⟩ := List.mem_map.1 hu
    obtain ⟨rfl, rfl⟩ : s = s' ∧ k = j := by simpa using hkj
    have hd' := List.getElem?_eq_getElem (List.mem_range.1 hk)
    rw [EnumType.fullName, EnumType.define, Pool.enum_of_getElem? hd'] at heq
    have hdot' := (h.find_enum hd').1
    rw [heq, hdot] at hdot'
    rw [Except.ok.inj hdot']
  · rw [← hplain, findEnum, Traverse.map_eq_ok]
    simp

/-- **Which listed names find their types.** Each name that a schema lists is the full name of one type
of its form. Behind a dot it finds that type, whatever types are called alike elsewhere; as it stands it
finds it exactly when it does not begin with a dot. -/
theorem find_listed (h : s.pool.Reachable) :
    (∀ n ∈ s.messageNames, ∃ t ∈ s.messages, t.fullName = n ∧
      (∀ u ∈ s.messages, u.fullName = n → u = t) ∧ s.findMessage ("." ++ n) = .ok t ∧
        (s.findMessage n = .ok t ↔ ∀ rest, n ≠ "." ++ rest)) ∧
      ∀ n ∈ s.enumNames, ∃ t ∈ s.enums, t.fullName = n ∧
        (∀ u ∈ s.enums, u.fullName = n → u = t) ∧ s.findEnum ("." ++ n) = .ok t ∧
          (s.findEnum n = .ok t ↔ ∀ rest, n ≠ "." ++ rest) :=
  ⟨fun _ hn => message_of_name h.consistent hn, fun _ hn => enum_of_name h.consistent hn⟩

end Schema

/-- A schema in a package that begins with a dot, with a message of the same short name as one that it
imports from the package without the dot. -/
def Draft.undotted : Draft where
  name := "lib.proto"
  package := "a"
  messages := [⟨"M", [], [], []⟩]
  enums := []
  imports := []

def Pool.undotted : Pool where
  records := [⟨"lib.proto", "a", [], [0], []⟩]
  messages := [⟨"M", "a.M", 0, none, [], [], []⟩]
  enums := []

def Draft.dotted : Draft where
  name := "own.proto"
  package := ".a"
  messages := [⟨"M", [], [], []⟩]
  enums := []
  imports := [Pool.undotted]

def Pool.dotted : Pool where
  records := [⟨"lib.proto", "a", [], [0], []⟩, ⟨"own.proto", ".a", ["lib.proto"], [1], []⟩]
  messages := [⟨"M", "a.M", 0, none, [], [], []⟩, ⟨"M", ".a.M", 1, none, [], [], []⟩]
  enums := []

theorem Pool.reachable_dotted : Pool.dotted.Reachable := by
  have hempty : ∀ m ∈ [(⟨"M", [], [], []⟩ : MessageDecl)], m.Built := by
    intro m hm
    obtain rfl := List.mem_singleton.1 hm
    exact .empty "M"
  have hundotted : Draft.undotted.build = .ok Pool.undotted := rfl
  have hdotted : Draft.dotted.build = .ok Pool.dotted := by cbv
  refine .build hempty (fun e he => absurd he List.not_mem_nil) ?_ hdotted
  intro q hq
  obtain rfl := List.mem_singleton.1 hq
  exact .build hempty (fun e he => absurd he List.not_mem_nil)
    (fun q hq => absurd hq List.not_mem_nil) hundotted

theorem Schema.find_listed_dotted :
    (Schema.mk 0 Pool.dotted).findMessage ("." ++ ".a.M") = .ok ⟨⟨0, Pool.dotted⟩, 1⟩ := by
  have hlisted : ".a.M" ∈ (Schema.mk 0 Pool.dotted).messageNames := by decide
  obtain ⟨t, -, -, hunique, hfind, -⟩ :=
    (Schema.find_listed (s := ⟨0, Pool.dotted⟩) Pool.reachable_dotted).1 _ hlisted
  rw [hfind, ← hunique ⟨⟨0, Pool.dotted⟩, 1⟩ (by decide) rfl]

/-- **A listed name can find another type than the one that has it.** -/
theorem Schema.not_finds_listed : ¬ ∀ s : Schema, s.pool.Reachable → ∀ n ∈ s.messageNames,
    ∃ t, s.findMessage n = .ok t ∧ t.fullName = n := by
  intro h
  obtain ⟨t, hfind, hname⟩ := h ⟨0, Pool.dotted⟩ Pool.reachable_dotted ".a.M" (by decide)
  have hother : (Schema.mk 0 Pool.dotted).findMessage ".a.M" = .ok ⟨⟨0, Pool.dotted⟩, 0⟩ := rfl
  obtain rfl := Except.ok.inj (hother.symm.trans hfind)
  exact absurd hname (by decide)

end ProtoSchema
