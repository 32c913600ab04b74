import ProtoSchema.Document.Yaml
import ProtoSchema.Proofs.Document.Declared
import ProtoSchema.Proofs.Yaml.Reads

/-!
# What documents are read as

Nodes of a document state messages and fields, and these are what the document is read as: each entry has
what the members of its node say (`FieldEntry.Stated`, `MessageEntry.Stated`, `Document.Stated`).

**A node that states a message is read as a message that the document states** under the same full name
(`Document.states_of_messageAt`), wherever the document nests it.
-/

namespace ProtoSchema

open Yaml Yaml.NodeReader

variable {anchored : List (Nat × Node)}

/-! ## Entries -/

/-- The field has what the members of the node say. -/
structure FieldEntry.Stated (anchored : List (Nat × Node)) (n : Node) (f : FieldEntry) : Prop where
  label : ∀ v, n.HasMember anchored "label" v → v.Says anchored f.label
  usual : (∀ v, ¬n.HasMember anchored "label" v) → f.label = usualLabel
  typeName : ∀ word, n.HasText anchored "type" word → f.typeName = word
  name : ∀ word, n.HasText anchored "name" word → f.name = word
  default : ∀ v, n.HasMember anchored "default" v → Reads anchored (value? v) f.default?

theorem FieldEntry.stated_of_read {n : Node} {f : FieldEntry} (h : Reads anchored (read n) f) :
    f.Stated anchored n := by
  obtain ⟨members, h, hmembers⟩ := Reads.of_record h
  obtain ⟨number, -, h⟩ := Reads.of_bind h
  split at h
  · obtain ⟨-, h, -⟩ := Reads.of_bind h
    exact (Reads.of_failure h).elim
  · obtain ⟨label, hlabel, h⟩ := Reads.of_bind h
    obtain ⟨typeName, htype, h⟩ := Reads.of_bind h
    obtain ⟨name, hname, h⟩ := Reads.of_bind h
    obtain ⟨default?, hdefault, h⟩ := Reads.of_bind h
    rw [Reads.of_pure h]
    have htype' := fun v => Reads.of_need hmembers (by decide) htype (v := v)
    have hname' := fun v => Reads.of_need hmembers (by decide) hname (v := v)
    exact ⟨fun _ hv => Reads.of_text (Reads.of_getD hmembers (by decide) hlabel hv),
      Reads.of_getD_missing hmembers (by decide) hlabel,
      fun _ => Reads.eq_of_text htype', fun _ => Reads.eq_of_text hname',
      fun _ => Reads.of_getD hmembers (by decide) hdefault⟩

/-- The message has what the members of the node say, and is read from its entries. -/
structure MessageEntry.Stated (anchored : List (Nat × Node)) (n : Node) (m : MessageEntry) : Prop where
  name : ∀ word, n.HasText anchored "name" word → m.name = word
  fields : ∀ k, n.HasEntry anchored "fields" k → ∃ f ∈ m.fields, f.Stated anchored k
  messages : ∀ k, n.HasEntry anchored "messages" k →
    ∃ e ∈ m.messages, ∃ levels, Reads anchored (read levels k) e

theorem MessageEntry.stated_of_read {levels : Nat} {n : Node} {m : MessageEntry}
    (h : Reads anchored (read levels n) m) : m.Stated anchored n := by
  cases levels with
  | zero => exact (Reads.of_failure h).elim
  | succ levels =>
    obtain ⟨members, h, hmembers⟩ := Reads.of_record h
    obtain ⟨name, hname, h⟩ := Reads.of_bind h
    obtain ⟨fields, hfields, h⟩ := Reads.of_bind h
    obtain ⟨messages, hmessages, h⟩ := Reads.of_bind h
    obtain ⟨enums, -, h⟩ := Reads.of_bind h
    rw [Reads.of_pure h]
    have hname' := fun v => Reads.of_need hmembers (by decide) hname (v := v)
    have hfields' := fun v => Reads.of_getD hmembers (by decide) hfields (v := v)
    have hmessages' := fun v => Reads.of_getD hmembers (by decide) hmessages (v := v)
    refine ⟨fun _ => Reads.eq_of_text hname', fun k hk => ?_, fun k hk => ?_⟩
    · obtain ⟨f, hf, hread⟩ := Reads.exists_of_items hfields' hk
      exact ⟨f, hf, FieldEntry.stated_of_read hread⟩
    · obtain ⟨e, he, hread⟩ := Reads.exists_of_items hmessages' hk
      exact ⟨e, he, levels, hread⟩

/-! ## Documents -/

namespace Document

/-- The document is of the package; one that states none is of the package without a name. -/
inductive PackageAt (root : Node) : String → Prop
  | stated {package : String} (h : root.HasText root.anchored "package" package) :
    PackageAt root package
  | missing (h : ∀ v, ¬root.HasMember root.anchored "package" v) : PackageAt root ""

/-- The node states the message with the full name. -/
inductive MessageAt (root : Node) : String → Node → Prop
  | top {package name : String} {n : Node} (inside : PackageAt root package)
    (entry : root.HasEntry root.anchored "messages" n) (named : n.HasText root.anchored "name" name) :
    MessageAt root (Name.qualify package name) n
  | nested {scope name : String} {m n : Node} (inside : MessageAt root scope m)
    (entry : m.HasEntry root.anchored "messages" n) (named : n.HasText root.anchored "name" name) :
    MessageAt root (Name.qualify scope name) n

/-- The document has what the members of its root say, and is read from its entries. -/
structure Stated (root : Node) (d : Document) : Prop where
  package : ∀ package, PackageAt root package → d.package = package
  messages : ∀ n, root.HasEntry root.anchored "messages" n →
    ∃ m ∈ d.messages, ∃ levels, Reads root.anchored (MessageEntry.read levels n) m

variable {root : Node} {d : Document}

theorem stated_of_read (h : run? read root = some d) : d.Stated root := by
  obtain ⟨members, h, hmembers⟩ := Reads.of_record (Reads.of_run? h)
  obtain ⟨name, -, h⟩ := Reads.of_bind h
  obtain ⟨package, hpackage, h⟩ := Reads.of_bind h
  obtain ⟨messages, hmessages, h⟩ := Reads.of_bind h
  obtain ⟨enums, -, h⟩ := Reads.of_bind h
  rw [Reads.of_pure h]
  have hpackage' := fun v => Reads.of_getD hmembers (by decide) hpackage (v := v)
  have hmessages' := fun v => Reads.of_getD hmembers (by decide) hmessages (v := v)
  refine ⟨fun package hat => ?_, fun n hn => ?_⟩
  · cases hat with
    | stated hat => exact Reads.eq_of_text hpackage' hat
    | missing hat => exact Reads.of_getD_missing hmembers (by decide) hpackage hat
  · obtain ⟨m, hm, hread⟩ := Reads.exists_of_items hmessages' hn
    exact ⟨m, hm, maxDepth, hread⟩

/-- **A node that states a message is read as a message that the document states.** -/
theorem states_of_messageAt (h : run? read root = some d) {scope : String} {n : Node}
    (hn : MessageAt root scope n) :
    ∃ m, d.States scope m ∧ m.Stated root.anchored n := by
  have hd := stated_of_read h
  induction hn with
  | @top package name n inside entry named =>
    obtain ⟨m, hm, levels, hread⟩ := hd.messages n entry
    have hstated := MessageEntry.stated_of_read hread
    have hstates := States.top hm
    rw [hd.package package inside, hstated.name name named] at hstates
    exact ⟨m, hstates, hstated⟩
  | @nested scope name _ n _ entry named ih =>
    obtain ⟨outer, houter, hinside⟩ := ih
    obtain ⟨m, hm, levels, hread⟩ := hinside.messages n entry
    have hstated := MessageEntry.stated_of_read hread
    have hstates := States.nested houter hm
    rw [hstated.name name named] at hstates
    exact ⟨m, hstates, hstated⟩

end Document

end ProtoSchema
