import ProtoSchema.Pool.Basic

/-!
# Declarations of a pool

The declared records that a pool stands for. References are absolute, so the declarations mean the same
in any scope, and linking them makes the same pool again.
-/

namespace ProtoSchema.Pool

/-- The declaration of a resolved field. -/
def fieldDecl (p : Pool) (f : FieldDef) : FieldDecl :=
  ⟨f.label, p.typeName f.kind, f.name, f.number, f.declared?⟩

/-- The declaration of a resolved enum. -/
def enumDecl (p : Pool) (index : Nat) : EnumDecl := ⟨(p.enum index).name, (p.enum index).values⟩

/-- The declaration of a resolved message. Nested messages come after the one they are nested in. -/
def messageDecl (p : Pool) (index : Nat) : MessageDecl :=
  { name := (p.message index).name
    fields := (p.message index).fields.map p.fieldDecl
    messages := (p.message index).messages.filterMap fun i =>
      if _h : index < i ∧ i < p.messages.length then some (p.messageDecl i) else none
    enums := (p.message index).enums.map p.enumDecl }
termination_by p.messages.length - index
decreasing_by omega

/-- The declaration of a record. -/
def recordDecl (p : Pool) (r : RecordDef) : RecordDecl where
  name := r.name
  package := r.package
  dependencies := r.dependencies
  messages := r.messages.map p.messageDecl
  enums := r.enums.map p.enumDecl

/-- The declared records of the pool, in order. -/
def decls (p : Pool) : List RecordDecl := p.records.map p.recordDecl

end ProtoSchema.Pool
