import ProtoSchema.Proofs.Pool.Absolute

/-!
# Walking a pool

The writers of descriptors and of schema text start at what the records list and go down through what
the messages list. `Pool.Visits` and `Pool.VisitsRecords` follow them without asking whether an index
is one of a type, or whether one has been met before: they say which messages and which enums are come
by, in which order, and what is declared on the way.

**In a linked pool the walk comes by every message and every enum in the order of their indices**
(`Linked.visitsRecords`), and it declares what the pool declares. What the walk comes by has been
listed as often as it is met (`VisitsRecords.perm_messages`, `VisitsRecords.perm_enums`), so each type
is listed exactly once.
-/

namespace ProtoSchema

namespace Pool

/-- The walk down from messages that are listed side by side: which messages it comes by, which enums,
and what it declares for the messages of the list. A message comes before those nested in it, and its
enums come before theirs. -/
inductive Visits (p : Pool) : List Nat → List Nat → List Nat → List MessageDecl → Prop
  | nil : Visits p [] [] [] []
  | cons {i : Nat} {is ms ms' es es' : List Nat} {ds ds' : List MessageDecl}
    (nested : Visits p (p.message i).messages ms es ds) (behind : Visits p is ms' es' ds') :
    Visits p (i :: is) (i :: ms ++ ms') ((p.message i).enums ++ es ++ es')
      (⟨(p.message i).name, (p.message i).fields.map p.fieldDecl, ds,
        (p.message i).enums.map p.enumDecl⟩ :: ds')

/-- The walk over records. The enums of a record come behind those of its messages. -/
inductive VisitsRecords (p : Pool) :
    List RecordDef → List Nat → List Nat → List RecordDecl → Prop
  | nil : VisitsRecords p [] [] [] []
  | cons {r : RecordDef} {rs : List RecordDef} {ms ms' es es' : List Nat} {ds : List MessageDecl}
    {decls : List RecordDecl} (messages : p.Visits r.messages ms es ds)
    (behind : VisitsRecords p rs ms' es' decls) :
    VisitsRecords p (r :: rs) (ms ++ ms') (es ++ r.enums ++ es')
      (⟨r.name, r.package, r.dependencies, ds, r.enums.map p.enumDecl⟩ :: decls)

variable {p : Pool}

/-! ## What is met is listed -/

namespace Visits

variable {is ms es : List Nat} {ds : List MessageDecl}

/-- **A message is met as often as it is listed,** at the start or by one that is met. -/
theorem perm_messages (h : p.Visits is ms es ds) :
    ms.Perm (is ++ ms.flatMap fun i => (p.message i).messages) := by
  induction h with
  | nil => exact .nil
  | @cons i is ms ms' es es' ds ds' _ _ ihnested ihbehind =>
    rw [List.cons_append, List.cons_append, List.flatMap_cons, List.flatMap_append]
    refine .cons i ((ihnested.append ihbehind).trans ?_)
    -- What is nested in the first message is met before what stands beside it.
    rw [← List.append_assoc (p.message i).messages]
    exact List.perm_append_comm_assoc _ _ _

/-- **An enum is met as often as it is listed** by a message that is met. -/
theorem perm_enums (h : p.Visits is ms es ds) :
    es.Perm (ms.flatMap fun i => (p.message i).enums) := by
  induction h with
  | nil => exact .nil
  | cons _ _ ihnested ihbehind =>
    rw [List.cons_append, List.flatMap_cons, List.flatMap_append, List.append_assoc]
    exact .append_left _ (ihnested.append ihbehind)

end Visits

namespace VisitsRecords

variable {rs : List RecordDef} {ms es : List Nat} {decls : List RecordDecl}

theorem perm_messages (h : p.VisitsRecords rs ms es decls) :
    ms.Perm (rs.flatMap RecordDef.messages ++ ms.flatMap fun i => (p.message i).messages) := by
  induction h with
  | nil => exact .nil
  | cons messages _ ih =>
    rw [List.flatMap_cons, List.flatMap_append]
    refine (messages.perm_messages.append ih).trans ?_
    rw [List.append_assoc, List.append_assoc]
    exact .append_left _ (List.perm_append_comm_assoc _ _ _)

theorem perm_enums (h : p.VisitsRecords rs ms es decls) :
    es.Perm (rs.flatMap RecordDef.enums ++ ms.flatMap fun i => (p.message i).enums) := by
  induction h with
  | nil => exact .nil
  | @cons r rs ms ms' es es' ds decls messages _ ih =>
    rw [List.flatMap_cons, List.flatMap_append, List.append_assoc, List.append_assoc]
    refine (messages.perm_enums.append (.append_left r.enums ih)).trans ?_
    refine (List.perm_append_comm_assoc _ _ _).trans (.append_left r.enums ?_)
    exact List.perm_append_comm_assoc _ _ _

end VisitsRecords

/-! ## The walk in order -/

/-- What a message declares, where all that it lists stands behind it in the pool. -/
theorem messageDecl_of_listed {i : Nat}
    (h : ∀ j ∈ (p.message i).messages, i < j ∧ j < p.messages.length) :
    p.messageDecl i = ⟨(p.message i).name, (p.message i).fields.map p.fieldDecl,
      (p.message i).messages.map p.messageDecl, (p.message i).enums.map p.enumDecl⟩ := by
  rw [messageDecl, MessageDecl.mk.injEq, ← List.filterMap_eq_map (f := p.messageDecl)]
  exact ⟨rfl, rfl, List.filterMap_congr fun j hj => dif_pos (h j hj), rfl⟩

end Pool

namespace MessageDecl

/-- The indices of messages: that of the first one, those nested in it, and those behind it. -/
theorem range'_messageCounts (i : Nat) (m : MessageDecl) (ms : List MessageDecl) :
    List.range' i (messageCounts (m :: ms)) = i :: List.range' (i + 1) (messageCounts m.messages) ++
      List.range' (i + m.messageCount) (messageCounts ms) := by
  obtain ⟨name, fields, messages, enums⟩ := m
  rw [messageCounts, ← List.range'_append_1, messageCount, Nat.add_comm 1, List.range'_succ]

/-- The indices of their enums: those of the first one, of what is nested in it, and of those behind
it. -/
theorem range'_enumCounts (e : Nat) (m : MessageDecl) (ms : List MessageDecl) :
    List.range' e (enumCounts (m :: ms)) = List.range' e m.enums.length ++
      List.range' (e + m.enums.length) (enumCounts m.messages) ++
        List.range' (e + m.enumCount) (enumCounts ms) := by
  obtain ⟨name, fields, messages, enums⟩ := m
  rw [enumCounts, ← List.range'_append_1, enumCount, ← List.range'_append_1]

end MessageDecl

namespace Linked

variable {rs : List RecordDecl} {p : Pool}

/-- **A placed message stands at its index as it was placed,** but with its fields. -/
theorem message_index (h : Linked rs p) {x : PlacedMessage} (hx : x ∈ Layout.messages rs) :
    p.message x.index = { x.define with fields := (p.message x.index).fields } := by
  obtain ⟨d, hd, hlink⟩ := h.message_at hx
  rw [Pool.message_of_getElem? hd]
  exact (Link.message_eq_ok_iff.1 hlink).2

/-- **The walk down from messages that are placed side by side comes by them, and by what is nested in
them, in order.** -/
theorem visits (h : Linked rs p) (place : Place) (i e : Nat) : ∀ ms : List MessageDecl,
    Holds rs (MessageDecl.placedList place i e ms) →
      p.Visits (MessageDecl.indices i ms) (List.range' i (MessageDecl.messageCounts ms))
        (List.range' e (MessageDecl.enumCounts ms)) ((MessageDecl.indices i ms).map p.messageDecl)
  | [], _ => .nil
  | ⟨name, fields, messages, enums⟩ :: ms, hm => by
    rw [MessageDecl.placedList] at hm
    have hhead := hm.append_left
    rw [MessageDecl.placed] at hhead
    have hinner : Holds rs (MessageDecl.placedList ⟨place.record, some i, Name.qualify place.scope name⟩
        (i + 1) (e + enums.length) messages) := fun x hx => hhead x (List.mem_cons_of_mem _ hx)
    have hdef := h.message_index (hhead _ List.mem_cons_self).1
    have hmessages : (p.message i).messages = MessageDecl.indices (i + 1) messages :=
      congrArg MessageDef.messages hdef
    have henums : (p.message i).enums = List.range' e enums.length :=
      congrArg MessageDef.enums hdef
    have hlisted : ∀ j ∈ (p.message i).messages, i < j ∧ j < p.messages.length := by
      rw [hmessages]
      intro j hj
      exact ⟨MessageDecl.le_of_mem_indices hj, (messageDecl_list h _ _ _ messages hinner).1 j hj⟩
    have hnested := h.visits _ _ _ messages hinner
    have hbehind := h.visits place _ _ ms hm.append_right
    rw [← hmessages] at hnested
    rw [MessageDecl.indices, List.map_cons, MessageDecl.range'_messageCounts,
      MessageDecl.range'_enumCounts, Pool.messageDecl_of_listed hlisted, ← henums]
    exact .cons hnested hbehind

/-- **The walk over placed records comes by their messages and enums in order.** -/
theorem visitsRecords_placed (h : Linked rs p) (rs' : List RecordDecl) : ∀ index i e : Nat,
    RecordDecl.placed index i e rs' ⊆ RecordDecl.placed 0 0 0 rs →
      p.VisitsRecords ((RecordDecl.placed index i e rs').map PlacedRecord.define)
        (List.range' i ((RecordDecl.placed index i e rs').flatMap PlacedRecord.messages).length)
        (List.range' e ((RecordDecl.placed index i e rs').flatMap PlacedRecord.enums).length)
        (((RecordDecl.placed index i e rs').map PlacedRecord.define).map p.recordDecl) := by
  induction rs' with
  | nil => exact fun _ _ _ _ => .nil
  | cons r rs' ih =>
    intro index i e hsub
    rw [RecordDecl.placed, List.cons_subset] at hsub
    have hr := h.visits _ _ _ r.messages (holds_messages hsub.1)
    have hbehind := ih _ _ _ hsub.2
    have hlen : (PlacedRecord.mk r index i e).messages.length = MessageDecl.messageCounts r.messages :=
      MessageDecl.length_placedList _ _ _ _
    have hwalk := Pool.VisitsRecords.cons (r := (PlacedRecord.mk r index i e).define) hr hbehind
    rw [RecordDecl.placed, List.flatMap_cons, List.flatMap_cons, List.length_append,
      List.length_append, hlen, PlacedRecord.length_enums, ← List.range'_append_1,
      ← List.range'_append_1, ← List.range'_append_1, ← Nat.add_assoc]
    exact hwalk

/-- **The walk over a linked pool comes by every message and every enum once, in the order of their
indices,** and it declares what the pool declares. -/
theorem visitsRecords (h : Linked rs p) : p.VisitsRecords p.records
    (List.range p.messages.length) (List.range p.enums.length) p.decls := by
  have hwalk := h.visitsRecords_placed rs 0 0 0 (List.Subset.refl _)
  have hmessages : p.messages.length = (Layout.messages rs).length := h.messages.length_eq.symm
  have henums : p.enums.length = (Layout.enums rs).length := by rw [h.enums, List.length_map]
  rw [Pool.decls, hmessages, henums, h.records, List.range_eq_range', List.range_eq_range']
  exact hwalk

end Linked

end ProtoSchema
