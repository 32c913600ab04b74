import ProtoSchema.Message.Content
import ProtoSchema.Pool.Basic

/-!
# Merging contents

What a message comes to hold when the records of another are read behind its own: repeated fields gain
the elements, a message that is set in both is merged in turn, and any other field takes the later
value.
-/

namespace ProtoSchema

mutual

/-- The value of a field of the kind that held `old` and is given another value. -/
def Element.mergeInto (p : Pool) (kind : FieldKind) (old : Option Element) : Element → Element
  | .message new =>
    match kind, old with
    | .message t, some (.message c) => .message (Content.merge p t c new)
    | _, _ => .message new
  | .scalar v => .scalar v
  | .enum i => .enum i

/-- The content of a message of the type that is given the values of another one. -/
def Content.merge (p : Pool) (t : Nat) (c : Content) : Content → Content
  | [] => c
  | (n, e) :: rest =>
    let next :=
      match (p.message t).field? n with
      | none => c
      | some f =>
        if f.isRepeated then Content.append n [e] c
        else Content.replace n [e.mergeInto p f.kind (Content.values n c).head?] c
    Content.merge p t next rest

end

end ProtoSchema
