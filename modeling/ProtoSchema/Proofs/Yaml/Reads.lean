import Mathlib.Data.List.Forall2
import ProtoSchema.Proofs.Traverse
import ProtoSchema.Yaml.Reader

/-!
# What readers of nodes read

A reader follows aliases and opens collections only so often. These limits refuse what goes beyond them,
and change nothing else: `NodeReader.Reads` says what a reader gives under some limits.

What is read is what the nodes say. `Node.Says`, `Node.HasMember` and `Node.HasItem` are about the text of
a scalar, the members of a mapping and the items of a sequence, the node itself or the one that it is an
alias of. **A record gives its reader exactly the members that it has** (`NodeReader.Reads.of_record`),
and a sequence its items (`NodeReader.Reads.of_items`).
-/

namespace ProtoSchema.Yaml

/-! ## What nodes say -/

namespace Node

/-- The node is this one, or an alias of it. -/
inductive Stands (anchored : List (Nat × Node)) : Node → Node → Prop
  | itself {n : Node} (h : ∀ anchor, n ≠ .reference anchor) : Stands anchored n n
  | aliased {anchor : Nat} {n : Node} (h : anchored.reverse.lookup anchor = some n) :
    Stands anchored (.reference anchor) n

variable (anchored : List (Nat × Node))

/-- The node is a scalar of these characters. -/
def Says (n : Node) (word : String) : Prop := ∃ p style, n.Stands anchored (.scalar p word style)

/-- The node is a mapping with a member of the name. -/
def HasMember (n : Node) (name : String) (v : Node) : Prop :=
  ∃ p entries, n.Stands anchored (.mapping p entries) ∧ ∃ k, (k, v) ∈ entries ∧ k.Says anchored name

/-- The node is a sequence with the item. -/
def HasItem (n m : Node) : Prop := ∃ p items, n.Stands anchored (.sequence p items) ∧ m ∈ items

/-- The node has a member of the name that is a scalar of these characters. -/
def HasText (n : Node) (name word : String) : Prop :=
  ∃ v, n.HasMember anchored name v ∧ v.Says anchored word

/-- The node has a member of the name that is a sequence with the item. -/
def HasEntry (n : Node) (name : String) (m : Node) : Prop :=
  ∃ v, n.HasMember anchored name v ∧ v.HasItem anchored m

/-- These are the members of the node that have a known name. -/
def Members (n : Node) (known : List String) (members : List (String × Node)) : Prop :=
  ∀ name ∈ known, ∀ v, members.lookup name = some v ↔ n.HasMember anchored name v

variable {anchored} {n m m' : Node} {word word' : String}

theorem Stands.scalar {p : Properties} {style : Style} :
    (Node.scalar p word style).Stands anchored (.scalar p word style) :=
  .itself fun _ h => Node.noConfusion h

theorem says_scalar {p : Properties} {style : Style} : (scalar p word style).Says anchored word :=
  ⟨p, style, .scalar⟩

theorem hasMember_mapping {p q : Properties} {style : Style} {entries : List (Node × Node)} {v : Node}
    (h : (scalar q word style, v) ∈ entries) : (mapping p entries).HasMember anchored word v :=
  ⟨p, entries, .itself fun _ h => Node.noConfusion h, _, h, says_scalar⟩

theorem hasItem_sequence {p : Properties} {items : List Node} (h : n ∈ items) :
    (sequence p items).HasItem anchored n :=
  ⟨p, items, .itself fun _ h => Node.noConfusion h, h⟩

theorem Stands.unique (h : n.Stands anchored m) (h' : n.Stands anchored m') : m = m' := by
  cases h with
  | itself h =>
    cases h' with
    | itself => rfl
    | aliased => exact absurd rfl (h _)
  | aliased h =>
    cases h' with
    | itself h' => exact absurd rfl (h' _)
    | aliased h' => exact Option.some.inj (h.symm.trans h')

theorem Says.unique (h : n.Says anchored word) (h' : n.Says anchored word') : word = word' := by
  obtain ⟨p, style, h⟩ := h
  obtain ⟨p', style', h'⟩ := h'
  exact (Node.scalar.inj (h.unique h')).2.1

/-- An entry of the name is the first one, if its key says so, or is behind it. -/
theorem exists_says_cons {k v w : Node} {entries : List (Node × Node)} {name : String}
    (hk : k.Says anchored word) :
    (∃ l, (l, v) ∈ (k, w) :: entries ∧ l.Says anchored name) ↔
      v = w ∧ word = name ∨ ∃ l, (l, v) ∈ entries ∧ l.Says anchored name := by
  constructor
  · rintro ⟨l, hl, hsays⟩
    rcases List.mem_cons.1 hl with heq | hl
    · obtain ⟨rfl, rfl⟩ := Prod.mk.inj heq
      exact Or.inl ⟨rfl, hk.unique hsays⟩
    · exact Or.inr ⟨l, hl, hsays⟩
  · rintro (⟨rfl, rfl⟩ | ⟨l, hl, hsays⟩)
    · exact ⟨k, List.mem_cons_self, hk⟩
    · exact ⟨l, List.mem_cons_of_mem _ hl, hsays⟩

end Node

namespace NodeReader

/-- A scalar that says that there is nothing means null. -/
theorem scalar_of_isNothing {p : Properties} {word : String} {style : Style}
    (h : isNothing p word style = some true) :
    scalar p word style = some .null := by
  by_cases hplain : style = .plain
  · rw [isNothing, if_neg (not_not_intro hplain)] at h
    rw [scalar, ownTag?]
    cases htag : p.tag? with
    | none =>
      have hword : word = "" ∨ Value.isNull word = true := by simpa [htag] using h
      simp only [Option.filter_none]
      rw [untagged, if_pos hplain, Value.ofPlain, if_pos hword]
    | some tag =>
      simp only [htag] at h
      have hnull : tag = Value.coreTag "null" ∧ Value.isNull word = true := by
        split_ifs at h with hnull hword
        · exact ⟨hnull, hword⟩
        · cases h
      have hown : isOwn tag = false := hnull.1 ▸ by decide
      have hmeans : Value.ofTagged tag word = some .null := by
        rw [Value.ofTagged, hnull.1, if_neg (by decide), if_neg (by decide), if_neg (by decide),
          if_pos rfl, if_pos hnull.2]
      have hkept : (some tag).filter (fun tag => !isOwn tag) = some tag := by
        rw [Option.filter_some, hown]
        rfl
      simpa [hown, hkept] using hmeans
  · rw [isNothing, if_pos hplain] at h
    cases h

/-- The reader gives the value where these nodes are anchored, if it may nest deep enough and follow
enough aliases. -/
def Reads (anchored : List (Nat × Node)) {α : Type} (reader : NodeReader α) (a : α) : Prop :=
  ∃ depth left left', reader ⟨anchored, depth⟩ left = some (a, left')

namespace Reads

variable {anchored : List (Nat × Node)} {α β : Type} {reader : NodeReader α} {a b : α} {n : Node}

theorem of_bind {next : α → NodeReader β} {b : β} (h : Reads anchored (reader >>= next) b) :
    ∃ a, Reads anchored reader a ∧ Reads anchored (next a) b := by
  obtain ⟨depth, left, left', h⟩ := h
  obtain ⟨⟨a, middle⟩, hreader, hnext⟩ := Option.bind_eq_some_iff.1 h
  exact ⟨a, ⟨depth, left, middle, hreader⟩, depth, middle, left', hnext⟩

theorem of_pure (h : Reads anchored (pure a) b) : b = a := by
  obtain ⟨depth, left, left', h⟩ := h
  exact (Prod.mk.inj (Option.some.inj h)).1.symm

theorem of_failure (h : Reads anchored (failure : NodeReader α) a) : False := by
  obtain ⟨depth, left, left', h⟩ := h
  cases h

theorem of_read {scope : Scope} (h : Reads anchored read scope) : scope.anchored = anchored := by
  obtain ⟨depth, left, left', h⟩ := h
  exact congrArg Scope.anchored (Prod.mk.inj (Option.some.inj h)).1.symm

theorem of_inside (h : Reads anchored (inside reader) a) : Reads anchored reader a := by
  obtain ⟨depth, left, left', h⟩ := h
  cases depth with
  | zero => cases h
  | succ depth => exact ⟨depth, left, left', h⟩

theorem of_follow {m : Node} (h : Reads anchored (follow n) m) : n.Stands anchored m := by
  cases n with
  | reference anchor =>
    obtain ⟨left, -, h⟩ := of_bind h
    split at h
    · exact (of_failure h).elim
    · obtain ⟨-, -, h⟩ := of_bind h
      obtain ⟨scope, hscope, h⟩ := of_bind h
      split at h
      · next n hn =>
        rw [of_pure h]
        exact .aliased (of_read hscope ▸ hn)
      · exact (of_failure h).elim
  | scalar | sequence | mapping =>
    rw [of_pure h]
    exact .itself fun anchor heq => by cases heq

theorem of_mapM {ns : List Node} {reader : Node → NodeReader α} {as : List α}
    (h : Reads anchored (ns.mapM reader) as) :
    List.Forall₂ (fun n a => Reads anchored (reader n) a) ns as := by
  induction ns generalizing as with
  | nil =>
    rw [List.mapM_nil] at h
    rw [of_pure h]
    exact .nil
  | cons n ns ih =>
    rw [List.mapM_cons] at h
    obtain ⟨a, ha, h⟩ := of_bind h
    obtain ⟨as', has, h⟩ := of_bind h
    rw [of_pure h]
    exact .cons ha (ih has)

/-! ## Scalars -/

theorem of_text {word : String} (h : Reads anchored (text n) word) : n.Says anchored word := by
  obtain ⟨m, hm, h⟩ := of_bind h
  split at h
  · rw [of_pure h]
    exact ⟨_, _, of_follow hm⟩
  · exact (of_failure h).elim

/-- **What is read from a scalar as any value is what it means;** null may be read as nothing. -/
theorem of_value? {v? : Option Value} {p : Properties} {word : String} {style : Style}
    (hn : n.Stands anchored (.scalar p word style)) (h : Reads anchored (value? n) v?) :
    ∃ v, scalar p word style = some v ∧ (v? = some v ∨ v? = none ∧ v = .null) := by
  obtain ⟨m, hm, h⟩ := of_bind h
  obtain rfl := (of_follow hm).unique hn
  simp only at h
  split at h
  · next hnothing => exact ⟨.null, scalar_of_isNothing hnothing, Or.inr ⟨of_pure h, rfl⟩⟩
  · obtain ⟨-, -, h⟩ := of_bind h
    obtain ⟨v, hv, h⟩ := of_bind h
    rw [of_pure h]
    obtain ⟨m, hm, hv⟩ := of_bind hv
    rw [of_pure hm] at hv
    simp only at hv
    split at hv
    · next u hu =>
      rw [of_pure hv]
      exact ⟨u, hu, Or.inl rfl⟩
    · exact (of_failure hv).elim
  · exact (of_failure h).elim

/-! ## Collections -/

/-- **A sequence is read item by item.** A blank node has no items. -/
theorem of_items {reader : Node → NodeReader α} {as : List α}
    (h : Reads anchored (items reader n) as) : ∃ nodes,
      (∀ m, n.HasItem anchored m ↔ m ∈ nodes) ∧
        List.Forall₂ (fun m a => Reads anchored (reader m) a) nodes as := by
  obtain ⟨m, hm, h⟩ := of_bind h
  have hstands := of_follow hm
  split at h
  · next p nodes =>
    refine ⟨nodes, fun k => ⟨?_, fun hk => ⟨p, nodes, hstands, hk⟩⟩, of_mapM (of_inside h)⟩
    rintro ⟨p', nodes', hstands', hk⟩
    obtain ⟨-, rfl⟩ := Node.sequence.inj (hstands.unique hstands')
    exact hk
  · refine ⟨[], fun k => ⟨?_, fun hk => absurd hk List.not_mem_nil⟩, ?_⟩
    · rintro ⟨p', nodes', hstands', hk⟩
      cases hstands.unique hstands'
    · rw [of_pure h]
      exact .nil
  · exact (of_failure h).elim

/-- The members of known names are those of the mapping, each once. -/
theorem of_membersOf {known : List String} {entries : List (Node × Node)}
    {members : List (String × Node)} (h : Reads anchored (membersOf known entries) members) :
    ∀ name ∈ known, ∀ v, members.lookup name = some v ↔
      ∃ k, (k, v) ∈ entries ∧ k.Says anchored name := by
  induction entries generalizing members with
  | nil =>
    rw [of_pure h]
    simp
  | cons entry rest ih =>
    obtain ⟨key, w⟩ := entry
    intro name hname v
    obtain ⟨word, hword, h⟩ := of_bind h
    obtain ⟨others, hothers, h⟩ := of_bind h
    rw [Node.exists_says_cons (of_text hword), ← ih hothers name hname v]
    -- What the entry says is not one of the names, or no entry behind it says the same.
    split at h
    · next hunknown =>
      rw [of_pure h, or_iff_right]
      rintro ⟨-, rfl⟩
      simp [hname] at hunknown
    · split at h
      · obtain ⟨-, h, -⟩ := of_bind h
        exact (of_failure h).elim
      · next hnew =>
        rw [Bool.not_eq_true, Option.isSome_eq_false_iff, Option.isNone_iff_eq_none] at hnew
        rw [of_pure h, List.lookup_cons]
        by_cases heq : name = word
        · subst heq
          simp [hnew, eq_comm]
        · rw [beq_eq_false_iff_ne.2 heq]
          simp [Ne.symm heq]

/-- **A record is read from the members that it has.** A blank node has no members. -/
theorem of_record {known : List String} {reader : List (String × Node) → NodeReader α}
    (h : Reads anchored (record known reader n) a) :
    ∃ members, Reads anchored (reader members) a ∧ n.Members anchored known members := by
  obtain ⟨m, hm, h⟩ := of_bind h
  have hstands := of_follow hm
  split at h
  · next p entries =>
    obtain ⟨members, hmembers, h⟩ := of_bind (of_inside h)
    refine ⟨members, h, fun name hname v => ?_⟩
    rw [of_membersOf hmembers name hname v]
    refine ⟨fun hk => ⟨p, entries, hstands, hk⟩, ?_⟩
    rintro ⟨p', entries', hstands', hk⟩
    obtain ⟨-, rfl⟩ := Node.mapping.inj (hstands.unique hstands')
    exact hk
  · refine ⟨[], h, fun name _ v => ⟨fun hv => (by cases hv), ?_⟩⟩
    rintro ⟨p', entries', hstands', -⟩
    cases hstands.unique hstands'
  · exact (of_failure h).elim

/-! ## Members -/

section Members

variable {known : List String} {members : List (String × Node)} {name : String}
  {reader : Node → NodeReader α} {missing : α}

theorem of_need (hmembers : n.Members anchored known members) (hname : name ∈ known)
    (h : Reads anchored (need members name reader) a) {v : Node} (hv : n.HasMember anchored name v) :
    Reads anchored (reader v) a := by
  rwa [need, (hmembers name hname v).2 hv] at h

theorem of_getD (hmembers : n.Members anchored known members) (hname : name ∈ known)
    (h : Reads anchored (getD members name reader missing) a) {v : Node}
    (hv : n.HasMember anchored name v) : Reads anchored (reader v) a := by
  rwa [getD, (hmembers name hname v).2 hv] at h

theorem of_getD_missing (hmembers : n.Members anchored known members) (hname : name ∈ known)
    (h : Reads anchored (getD members name reader missing) a)
    (hv : ∀ v, ¬n.HasMember anchored name v) : a = missing := by
  have hlookup : members.lookup name = none :=
    Option.eq_none_iff_forall_ne_some.2 fun v h => hv v ((hmembers name hname v).1 h)
  rw [getD, hlookup] at h
  exact of_pure h

theorem eq_of_text {word word' : String} (h : ∀ v, n.HasMember anchored name v →
    Reads anchored (text v) word) (hword : n.HasText anchored name word') : word = word' := by
  obtain ⟨v, hv, hsays⟩ := hword
  exact (of_text (h v hv)).unique hsays

theorem exists_of_items {as : List α} (h : ∀ v, n.HasMember anchored name v →
    Reads anchored (items reader v) as) {m : Node} (hm : n.HasEntry anchored name m) :
    ∃ a ∈ as, Reads anchored (reader m) a := by
  obtain ⟨v, hv, hitem⟩ := hm
  obtain ⟨nodes, hnodes, has⟩ := of_items (h v hv)
  exact Traverse.exists_of_forall₂ has ((hnodes m).1 hitem)

end Members

/-! ## Documents -/

theorem of_run? {reader : Node → NodeReader α} {root : Node} (h : run? reader root = some a) :
    Reads root.anchored (reader root) a := by
  obtain ⟨⟨a', left'⟩, hread, rfl⟩ := Option.map_eq_some_iff.1 h
  exact ⟨_, _, left', hread⟩

end Reads

end NodeReader

end ProtoSchema.Yaml
