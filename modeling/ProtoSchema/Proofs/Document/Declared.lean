import ProtoSchema.Document.Basic
import ProtoSchema.Proofs.Pool.Fields
import ProtoSchema.Proofs.Schema.Lookup

/-!
# What documents declare

A document is declared entry by entry, and nothing is added to the entries on the way: a field is
declared as it is stated, with the text of its default (`FieldEntry.declaredAs_of_declare`), and a
message with its fields and the messages nested in it, in their order (`MessageEntry.parts_of_declare`).

Whatever is declared has been built step by step (`Document.reachable_of_build`), so **the schema of a
document has the fields that the document states** (`Document.field_of_build`): it finds each message
under its full name, and each field in it under its name, resolved.
-/

namespace ProtoSchema

open Traverse

/-! ## Fields -/

/-- The field is declared as it is stated. -/
structure FieldEntry.DeclaredAs (f : FieldEntry) (message : String) (d : FieldDecl) : Prop where
  label : Label.parse f.label = .ok d.label
  typeName : d.typeName = f.typeName
  name : d.name = f.name
  number : d.number = f.number
  default : f.defaultText message = .ok d.default?
  built : d.Built

theorem FieldEntry.declaredAs_of_declare {f : FieldEntry} {message : String} {d : FieldDecl}
    (h : f.declare message = .ok d) : f.DeclaredAs message d := by
  obtain ⟨text?, htext, h⟩ := bind_eq_ok.1 h
  obtain ⟨label, hlabel, h⟩ := bind_eq_ok.1 h
  obtain ⟨decl, hdecl, h⟩ := bind_eq_ok.1 h
  obtain ⟨rfl, -⟩ := FieldDecl.make_eq_ok_iff.1 hdecl
  obtain rfl := (pure_eq_ok.1 h)
  cases text? with
  | none => exact ⟨hlabel, rfl, rfl, rfl, htext, .make hdecl⟩
  | some text => exact ⟨hlabel, rfl, rfl, rfl, htext, .withDefault text (.make hdecl)⟩

/-! ## Enums -/

theorem EnumEntry.built_of_declare {e : EnumEntry} {d : EnumDecl} (h : e.declare = .ok d) :
    d.Built := by
  have hvalues : ∀ {vs : List ValueEntry} {b d : EnumDecl}, b.Built →
      vs.foldlM (fun decl v => decl.addValue v.name v.number) b = .ok d → d.Built := by
    intro vs
    induction vs with
    | nil =>
      intro b d hb h
      exact (Except.ok.inj h) ▸ hb
    | cons v vs ih =>
      intro b d hb h
      rw [List.foldlM_cons] at h
      obtain ⟨c, hc, h⟩ := bind_eq_ok.1 h
      exact ih (.addValue hb hc) h
  exact hvalues (.empty e.name) h

/-! ## Messages -/

namespace MessageDecl

variable {m m' : MessageDecl}

/-- Fields are added as they are declared, behind those in front. -/
theorem parts_of_addFields {fields : List FieldEntry} (hm : m.Built)
    (h : m.addFields fields = .ok m') : m'.Built ∧ ∃ ds,
      List.Forall₂ (fun f d => f.DeclaredAs m.name d) fields ds ∧
        m' = { m with fields := m.fields ++ ds } := by
  induction fields generalizing m with
  | nil =>
    obtain rfl := Except.ok.inj h
    refine ⟨hm, [], .nil, ?_⟩
    cases m
    rw [List.append_nil]
  | cons f fields ih =>
    rw [addFields, List.foldlM_cons] at h
    obtain ⟨b, hb, h⟩ := bind_eq_ok.1 h
    obtain ⟨d, hd, hb⟩ := bind_eq_ok.1 hb
    have hdeclared := FieldEntry.declaredAs_of_declare hd
    have hbuilt := Built.addField hm hdeclared.built hb
    obtain ⟨rfl, -⟩ := addField_eq_ok_iff.1 hb
    obtain ⟨hbuilt', ds, hds, rfl⟩ := ih hbuilt h
    exact ⟨hbuilt', d :: ds, .cons hdeclared hds, by simp⟩

/-- Enums are added to the enums only. -/
theorem parts_of_addEnums {enums : List EnumEntry} (hm : m.Built) (h : m.addEnums enums = .ok m') :
    m'.Built ∧ ∃ ds, m' = { m with enums := m.enums ++ ds } := by
  induction enums generalizing m with
  | nil =>
    obtain rfl := Except.ok.inj h
    refine ⟨hm, [], ?_⟩
    cases m
    rw [List.append_nil]
  | cons e enums ih =>
    rw [addEnums, List.foldlM_cons] at h
    obtain ⟨b, hb, h⟩ := bind_eq_ok.1 h
    obtain ⟨d, hd, hb⟩ := bind_eq_ok.1 hb
    have hbuilt := Built.addEnum hm (EnumEntry.built_of_declare hd) hb
    obtain ⟨rfl, -⟩ := addEnum_eq_ok_iff.1 hb
    obtain ⟨hbuilt', ds, rfl⟩ := ih hbuilt h
    exact ⟨hbuilt', d :: ds, by simp⟩

end MessageDecl

namespace MessageEntry

mutual

/-- **A message is declared with the fields and the nested messages that it states.** -/
theorem parts_of_declare : ∀ (e : MessageEntry) {m : MessageDecl}, e.declare = .ok m →
    m.Built ∧ m.name = e.name ∧ List.Forall₂ (fun f d => f.DeclaredAs e.name d) e.fields m.fields ∧
      List.Forall₂ (fun n d => n.declare = .ok d) e.messages m.messages
  | ⟨name, fields, messages, enums⟩, m, h => by
    rw [declare] at h
    obtain ⟨a, ha, h⟩ := bind_eq_ok.1 h
    obtain ⟨b, hb, h⟩ := bind_eq_ok.1 h
    obtain ⟨hbuilt, fs, hfs, rfl⟩ := MessageDecl.parts_of_addFields (.empty name) ha
    obtain ⟨hbuilt, es, rfl⟩ := MessageDecl.parts_of_addEnums hbuilt hb
    obtain ⟨hbuilt, ds, hds, rfl⟩ := parts_of_addMessages messages hbuilt h
    exact ⟨hbuilt, rfl, hfs, hds⟩

theorem parts_of_addMessages : ∀ (es : List MessageEntry) {m m' : MessageDecl}, m.Built →
    addMessages m es = .ok m' → m'.Built ∧ ∃ ds,
      List.Forall₂ (fun n d => n.declare = .ok d) es ds ∧
        m' = { m with messages := m.messages ++ ds }
  | [], m, m', hm, h => by
    rw [addMessages] at h
    obtain rfl := Except.ok.inj h
    refine ⟨hm, [], .nil, ?_⟩
    cases m
    rw [List.append_nil]
  | e :: es, m, m', hm, h => by
    rw [addMessages] at h
    obtain ⟨d, hd, h⟩ := bind_eq_ok.1 h
    obtain ⟨b, hb, h⟩ := bind_eq_ok.1 h
    have hbuilt := MessageDecl.Built.addMessage hm (parts_of_declare e hd).1 hb
    obtain ⟨rfl, -⟩ := MessageDecl.addMessage_eq_ok_iff.1 hb
    obtain ⟨hbuilt', ds, hds, rfl⟩ := parts_of_addMessages es hbuilt h
    exact ⟨hbuilt', d :: ds, .cons hd hds, by simp⟩

end

end MessageEntry

/-! ## Documents -/

namespace Document

/-- The document states the message under the full name, at the top or nested in another message. -/
inductive States (d : Document) : String → MessageEntry → Prop
  | top {m : MessageEntry} (h : m ∈ d.messages) : States d (Name.qualify d.package m.name) m
  | nested {scope : String} {m n : MessageEntry} (h : States d scope m) (hn : n ∈ m.messages) :
    States d (Name.qualify scope n.name) n

variable {d : Document} {draft : Draft} {p : Pool} {scope : String} {m : MessageEntry}

theorem parts_of_draft (h : d.draft = .ok draft) : draft.package = d.package ∧ draft.imports = [] ∧
    List.Forall₂ (fun e m => e.declare = .ok m) d.messages draft.messages ∧
      List.Forall₂ (fun e m => e.declare = .ok m) d.enums draft.enums := by
  obtain ⟨messages, hmessages, h⟩ := bind_eq_ok.1 h
  obtain ⟨enums, henums, h⟩ := bind_eq_ok.1 h
  obtain rfl := pure_eq_ok.1 h
  exact ⟨rfl, rfl, mapM_eq_ok.1 hmessages, mapM_eq_ok.1 henums⟩

/-- **A pool that a document is built to is one that a schema can have.** -/
theorem reachable_of_build (h : d.draft = .ok draft) (hbuild : draft.build = .ok p) : p.Reachable := by
  obtain ⟨-, himports, hmessages, henums⟩ := parts_of_draft h
  refine .build ?_ ?_ ?_ hbuild
  · intro m hm
    obtain ⟨e, -, he⟩ := exists_of_forall₂ hmessages.flip hm
    exact (MessageEntry.parts_of_declare e he).1
  · intro e he
    obtain ⟨x, -, hx⟩ := exists_of_forall₂ henums.flip he
    exact EnumEntry.built_of_declare hx
  · rw [himports]
    exact fun q hq => absurd hq List.not_mem_nil

/-- A message that the document states is one of the types that the draft declares. -/
theorem types_of_states (h : d.draft = .ok draft) (hm : d.States scope m) :
    ∃ outer decl, m.declare = .ok decl ∧ scope = Name.qualify outer decl.name ∧
      ⟨outer, .message decl⟩ ∈ (draft.imported ++ [draft.own]).flatMap RecordDecl.types := by
  obtain ⟨hpackage, -, hmessages, -⟩ := parts_of_draft h
  induction hm with
  | @top m hm =>
    obtain ⟨decl, hmem, hdecl⟩ := exists_of_forall₂ hmessages hm
    refine ⟨d.package, decl, hdecl, ?_, ?_⟩
    · rw [(MessageEntry.parts_of_declare m hdecl).2.1]
    · have hown : ⟨d.package, .message decl⟩ ∈ draft.own.types :=
        List.mem_append_left _ (hpackage ▸ MessageDecl.message_mem_typesList hmem)
      exact List.mem_flatMap.2 ⟨_, List.mem_append_right _ (List.mem_singleton.2 rfl), hown⟩
  | @nested scope m n _ hn ih =>
    obtain ⟨outer, decl, hdecl, rfl, hmem⟩ := ih
    obtain ⟨-, -, -, hnested⟩ := MessageEntry.parts_of_declare m hdecl
    obtain ⟨inner, hinner, hdeclare⟩ := exists_of_forall₂ hnested hn
    refine ⟨Name.qualify outer decl.name, inner, hdeclare, ?_, ?_⟩
    · rw [(MessageEntry.parts_of_declare n hdeclare).2.1]
    · exact (RecordDecl.types_sublist hmem).subset (MessageDecl.message_mem_types hinner)

/-- **The schema of a document has the fields that the document states,** each in its message and under
its name, as they are resolved in the pool. -/
theorem field_of_build (h : d.draft = .ok draft) (hbuild : draft.build = .ok p)
    (hm : d.States scope m) {f : FieldEntry} (hf : f ∈ m.fields) :
    ∃ decl g, f.DeclaredAs m.name decl ∧ Link.field p scope decl = .ok g ∧
      ∀ s : Schema, s.pool = p → ∃ t, s.findMessage ("." ++ scope) = .ok t ∧
        t.fieldNamed? f.name = some ⟨t, g⟩ := by
  -- The message is declared, so it is linked with the scope that it is stated in.
  have hlinked : Linked (draft.imported ++ [draft.own]) p := link_eq_ok_iff.1 hbuild
  obtain ⟨outer, md, hmd, rfl, hmem⟩ := types_of_states h hm
  obtain ⟨i, def', hfind, hi, hfields⟩ := hlinked.message_of_types hmem
  obtain ⟨-, -, hdeclared, -⟩ := MessageEntry.parts_of_declare m hmd
  obtain ⟨decl, hdecl, hdeclaredAs⟩ := exists_of_forall₂ hdeclared hf
  obtain ⟨g, hg, hlink⟩ := exists_of_forall₂ hfields hdecl
  refine ⟨decl, g, hdeclaredAs, hlink, ?_⟩
  rintro s rfl
  -- A consistent pool finds the message by its full name, and no other field of it has the name.
  have hconsistent := (reachable_of_build h hbuild).consistent
  have hname : def'.fullName = Name.qualify outer md.name := by
    rw [← (Pool.fullName_of_find?_message hfind).2, Pool.message_of_getElem? hi]
  have hnames := (hconsistent.resolved_message def' (List.mem_of_getElem? hi)).names
  obtain ⟨kind, value, -, -, rfl⟩ := Link.field_eq_ok_iff.1 hlink
  refine ⟨⟨s, i⟩, ?_, ?_⟩
  · rw [← hname, Schema.findMessage, (hconsistent.find_message hi).1]
    rfl
  · have hfound := find?_of_mem_of_nodup hnames hg
    rw [MessageType.fieldNamed?, MessageType.define, Pool.message_of_getElem? hi, ← hdeclaredAs.name,
      hfound]
    rfl

end Document

end ProtoSchema
