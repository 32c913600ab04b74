import ProtoSchema.Proofs.Message.Made
import ProtoSchema.Proofs.Message.Path

/-!
# Required fields that are not set

The messages that a message holds are reached step by step, from a message into one that is the value,
or an element, of a field of its own (`Message.Holds`). A message lacks a path (`Message.Lacks`) if the
path leads to a message it holds, and from there to a required field that is not set.

**A message is finished exactly when it lacks nothing** (`Message.Made.finish_complete`). Otherwise
what it lacks is reported: the texts of the paths, each of them once, in the order in which fields are
declared and elements follow one another, outer ones first.
-/

namespace ProtoSchema

open Required

/-! ## What values lack -/

mutual

/-- The paths to the required fields that a value of the kind lacks. -/
def Element.lacking (p : Pool) (kind : FieldKind) : Element → List Path
  | .message c => Required.paths (p.message kind.index) (Content.lacking p kind.index c)
  | .scalar _ => []
  | .enum _ => []

/-- For each value of a message of the type, the paths that it lacks. -/
def Content.lacking (p : Pool) (t : Nat) : Content → List (Nat × List Path)
  | [] => []
  | (n, e) :: rest =>
    (n, match (p.message t).field? n with
      | some f => e.lacking p f.kind
      | none => []) :: Content.lacking p t rest

end

theorem Element.ne_nil_of_mem_lacking {p : Pool} {kind : FieldKind} {e : Element} {path : Path}
    (h : path ∈ e.lacking p kind) : path ≠ [] := by
  cases e with
  | scalar v => simp [lacking] at h
  | enum i => simp [lacking] at h
  | message c =>
    rw [lacking] at h
    exact ne_nil_of_mem_paths h

theorem Content.ne_nil_of_mem_lacking {p : Pool} {t : Nat} {c : Content} :
    ∀ x ∈ lacking p t c, ∀ path ∈ x.2, path ≠ [] := by
  induction c with
  | nil => simp [lacking]
  | cons x c ih =>
    rw [lacking, List.forall_mem_cons]
    refine ⟨fun path hpath => ?_, ih⟩
    split at hpath
    · exact Element.ne_nil_of_mem_lacking hpath
    · simp at hpath

mutual

/-- **What is reported as missing are the texts of the paths that are lacking.** -/
theorem Element.missing_eq (p : Pool) (kind : FieldKind) :
    ∀ e : Element, e.missing p kind = (e.lacking p kind).map Required.text
  | .scalar _ => by rw [Element.missing, Element.lacking, List.map_nil]
  | .enum _ => by rw [Element.missing, Element.lacking, List.map_nil]
  | .message c => by
    rw [Element.missing, Element.lacking, Content.missing_eq p kind.index c]
    exact fields_map_text Content.ne_nil_of_mem_lacking

theorem Content.missing_eq (p : Pool) (t : Nat) :
    ∀ c : Content, Content.missing p t c =
      (Content.lacking p t c).map fun x => (x.1, x.2.map Required.text)
  | [] => by rw [Content.missing, Content.lacking, List.map_nil]
  | (n, e) :: rest => by
    rw [Content.missing, Content.lacking, List.map_cons, Content.missing_eq p t rest]
    cases (p.message t).field? n with
    | none => rfl
    | some f => simp only [Element.missing_eq p f.kind e]

end

/-- What the values of a field lack. -/
theorem Content.values_lacking {p : Pool} {t : Nat} {f : FieldDef}
    (hf : (p.message t).field? f.number = some f) (c : Content) :
    values f.number (lacking p t c) = (values f.number c).map (Element.lacking p f.kind) := by
  induction c with
  | nil => rw [lacking, values_nil, values_nil, List.map_nil]
  | cons x c ih =>
    rw [lacking, values_cons, values_cons, ih]
    by_cases hx : x.1 = f.number
    · rw [if_pos hx, if_pos hx, List.map_cons, hx]
      simp only [hf]
    · rw [if_neg hx, if_neg hx]

/-- What a message lacks are its own required fields without a value, and what its values lack. -/
theorem Content.mem_paths_lacking {p : Pool} {t : Nat} {c : Content} {path : Path}
    (hnumbers : ∀ f ∈ (p.message t).fields, (p.message t).field? f.number = some f) :
    path ∈ paths (p.message t) (lacking p t c) ↔ ∃ place f, (p.message t).fields[place]? = some f ∧
      ((values f.number c = [] ∧ f.isRequired = true ∧ path = [⟨place, f.name, none⟩]) ∨
        ∃ i e rest, (values f.number c)[i]? = some e ∧ rest ∈ e.lacking p f.kind ∧
          path = ⟨place, f.name, index? f i⟩ :: rest) := by
  rw [mem_paths]
  refine exists_congr fun place => exists_congr fun f => and_congr_right fun hf => ?_
  rw [values_lacking (hnumbers f (List.mem_of_getElem? hf)), mem_fieldPaths, List.map_eq_nil_iff]
  refine or_congr_right ?_
  constructor
  · rintro ⟨i, lacks, rest, hi, hrest, rfl⟩
    rw [List.getElem?_map, Option.map_eq_some_iff] at hi
    obtain ⟨e, he, rfl⟩ := hi
    exact ⟨i, e, rest, he, hrest, rfl⟩
  · rintro ⟨i, e, rest, he, hrest, rfl⟩
    refine ⟨i, e.lacking p f.kind, rest, ?_, hrest, rfl⟩
    rw [List.getElem?_map, he]
    rfl

/-- **What a typed value lacks is in order.** -/
theorem Element.Typed.inOrder_lacking {p : Pool} {kind : FieldKind} {e : Element}
    (hp : p.Reachable) (h : e.Typed p kind) : InOrder (e.lacking p kind) := by
  induction h with
  | scalar fits =>
    rw [Element.lacking]
    exact List.Pairwise.nil
  | enum lt =>
    rw [Element.lacking]
    exact List.Pairwise.nil
  | @message t c known typed ordered ih =>
    have hc : Content.Typed p t c := Content.typed_message_iff.1 (.message known typed ordered)
    rw [Element.lacking]
    refine inOrder_paths fun place f hf => ?_
    have hfield : (p.message t).field? f.number = some f :=
      MessageDef.field?_of_mem (hp.sound.numbers t) (List.mem_of_getElem? hf)
    rw [FieldKind.index, Content.values_lacking hfield]
    refine inOrder_fieldPaths ?_ ?_
    · by_cases hrep : f.isRepeated = true
      · exact Or.inl hrep
      · rw [List.length_map]
        exact Or.inr (hc.length_values_le hfield (Bool.eq_false_iff.2 hrep))
    · rw [List.forall_mem_map]
      intro e he
      exact ih _ (Content.mem_values.1 he) f hfield

/-! ## What messages lack -/

namespace Message

/-- The message is the value, or an element, of a field of the other one. A field that is not set has
no value. -/
inductive Child (m : Message) : Step → Message → Prop
  | value {place : Nat} {f : Field} {n : Message} (field : m.type.fields[place]? = some f)
    (set : m.has (.field f) = .ok true) (get : m.get (.field f) = .ok (.message n)) :
    Child m ⟨place, f.name, none⟩ n
  | element {place i : Nat} {f : Field} {n : Message} (field : m.type.fields[place]? = some f)
    (get : m.getAt (.field f) i = .ok (.message n)) : Child m ⟨place, f.name, some i⟩ n

/-- The messages that are reached from a message, itself included, with the path to each of them. -/
inductive Holds : Message → Path → Message → Prop
  | refl (m : Message) : Holds m [] m
  | step {m n k : Message} {s : Step} {path : Path} (child : m.Child s n) (rest : Holds n path k) :
    Holds m (s :: path) k

/-- The path leads to a message that is held, and from there to a required field that is not set. -/
def Lacks (m : Message) (path : Path) : Prop :=
  ∃ steps k place, ∃ f : Field, m.Holds steps k ∧ k.type.fields[place]? = some f ∧
    f.field.isRequired = true ∧ k.has (.field f) = .ok false ∧ path = steps ++ [⟨place, f.name, none⟩]

/-- In each message that is held all required fields are set. -/
def Complete (m : Message) : Prop :=
  ∀ steps k, m.Holds steps k → ∀ f ∈ k.type.fields, f.field.isRequired = true →
    k.has (.field f) = .ok true

variable {m n : Message} {f : FieldDef} {place : Nat} {path : Path}

theorem getElem?_fields {t : MessageType} {g : Field} :
    t.fields[place]? = some g ↔ ∃ f, t.define.fields[place]? = some f ∧ g = ⟨t, f⟩ := by
  rw [MessageType.fields, List.getElem?_map, Option.map_eq_some_iff]
  exact exists_congr fun f => and_congr_right fun _ => eq_comm

theorem select_field (t : MessageType) (f : FieldDef) : t.select (.field ⟨t, f⟩) = .ok f := if_pos rfl

theorem has_field : m.has (.field ⟨m.type, f⟩) = .ok !(m.report f).isEmpty := by
  rw [report, List.isEmpty_map, ← Content.has_eq_isEmpty, Message.has, select_field]
  rfl

theorem has_eq_false_iff : m.has (.field ⟨m.type, f⟩) = .ok false ↔
    Content.values f.number m.content = [] := by
  rw [has_field, Except.ok.injEq, report, List.isEmpty_map]
  simp

theorem getElem?_report {i : Nat} {v : Value} : (m.report f)[i]? = some v ↔
    ∃ e, (Content.values f.number m.content)[i]? = some e ∧
      Value.ofElement m.type.schema f.kind e = v := by
  rw [report, List.getElem?_map, Option.map_eq_some_iff]

theorem get_field : m.get (.field ⟨m.type, f⟩) = .ok (if f.isRepeated then .list (m.report f)
    else (m.report f).head?.getD (Field.defaultValue ⟨m.type, f⟩)) := by
  rw [Message.get, select_field]
  by_cases hrep : f.isRepeated = true
  · rw [if_pos hrep]
    exact if_pos hrep
  · rw [if_neg hrep]
    exact if_neg hrep

theorem getAt_field {i : Nat} {v : Value} : m.getAt (.field ⟨m.type, f⟩) i = .ok v ↔
    f.isRepeated = true ∧ (m.report f)[i]? = some v := by
  rw [Message.getAt, Traverse.bind_eq_ok]
  constructor
  · rintro ⟨g, hg, hv⟩
    obtain ⟨hf, hrep⟩ := selectRepeated_eq_ok_iff.1 hg
    obtain rfl := Except.ok.inj ((select_field m.type f).symm.trans hf)
    cases hi : (m.report f)[i]? with
    | none => simp [hi] at hv
    | some w =>
      obtain rfl : w = v := by simpa [hi] using hv
      exact ⟨hrep, rfl⟩
  · rintro ⟨hrep, hv⟩
    exact ⟨f, selectRepeated_eq_ok_iff.2 ⟨select_field m.type f, hrep⟩, by simp [hv]⟩

/-- **The messages that are held in one step are those that the fields report.** -/
theorem Sound.child_iff (h : m.Sound) {s : Step} : m.Child s n ↔
    ∃ place f i, m.type.define.fields[place]? = some f ∧ s = ⟨place, f.name, index? f i⟩ ∧
      (m.report f)[i]? = some (.message n) := by
  constructor
  · intro hchild
    cases hchild with
    | @value place g n hfield hset hget =>
      obtain ⟨f, hf, rfl⟩ := getElem?_fields.1 hfield
      rw [has_field, Except.ok.injEq] at hset
      rw [get_field, Except.ok.injEq] at hget
      by_cases hrep : f.isRepeated = true
      · simp [hrep] at hget
      · refine ⟨place, f, 0, hf, by simp [index?, hrep, Field.name], ?_⟩
        rw [if_neg hrep] at hget
        cases hreport : m.report f with
        | nil => simp [hreport] at hset
        | cons v vs =>
          obtain rfl : v = .message n := by simpa [hreport] using hget
          rfl
    | @element place i g n hfield hget =>
      obtain ⟨f, hf, rfl⟩ := getElem?_fields.1 hfield
      obtain ⟨hrep, hi⟩ := getAt_field.1 hget
      exact ⟨place, f, i, hf, by simp [index?, hrep, Field.name], hi⟩
  · rintro ⟨place, f, i, hf, rfl, hi⟩
    have hfield := getElem?_fields.2 ⟨f, hf, rfl⟩
    by_cases hrep : f.isRepeated = true
    · rw [index?, if_pos hrep]
      exact .element hfield (getAt_field.2 ⟨hrep, hi⟩)
    · -- There is no other value than the first.
      have hlen := h.length_report_le (List.mem_of_getElem? hf) (Bool.eq_false_iff.2 hrep)
      obtain ⟨v, hv⟩ : ∃ v, m.report f = [v] :=
        List.length_eq_one_iff.1
          (Nat.le_antisymm hlen (List.length_pos_of_mem (List.mem_of_getElem? hi)))
      obtain rfl : v = .message n := by
        have hmem := List.mem_of_getElem? hi
        rw [hv, List.mem_singleton] at hmem
        exact hmem.symm
      rw [index?, if_neg hrep]
      refine .value hfield ?_ ?_
      · rw [has_field, hv]
        rfl
      · rw [get_field, if_neg hrep, hv]
        rfl

/-- What is lacking is a field of the message's own, or is lacking in a message that it holds. -/
theorem lacks_iff : m.Lacks path ↔
    (∃ place, ∃ f : Field, m.type.fields[place]? = some f ∧ f.field.isRequired = true ∧
      m.has (.field f) = .ok false ∧ path = [⟨place, f.name, none⟩]) ∨
      ∃ s n rest, m.Child s n ∧ n.Lacks rest ∧ path = s :: rest := by
  constructor
  · rintro ⟨steps, k, place, f, hholds, hf, hreq, hunset, rfl⟩
    cases hholds with
    | refl => exact Or.inl ⟨place, f, hf, hreq, hunset, rfl⟩
    | @step _ n _ s steps hchild hrest =>
      exact Or.inr ⟨s, n, _, hchild, ⟨steps, k, place, f, hrest, hf, hreq, hunset, rfl⟩, rfl⟩
  · rintro (⟨place, f, hf, hreq, hunset, rfl⟩ | ⟨s, n, rest, hchild, hlacks, rfl⟩)
    · exact ⟨[], m, place, f, .refl m, hf, hreq, hunset, rfl⟩
    · obtain ⟨steps, k, place, f, hholds, hf, hreq, hunset, rfl⟩ := hlacks
      exact ⟨s :: steps, k, place, f, .step hchild hholds, hf, hreq, hunset, rfl⟩

end Message

/-- **The paths of a typed value are those that the message it stands for lacks.** -/
theorem Element.Typed.mem_lacking {s : Schema} {kind : FieldKind} {e : Element}
    (hp : s.pool.Reachable) (h : e.Typed s.pool kind) : ∀ path, path ∈ e.lacking s.pool kind ↔
      ∃ m, Value.ofElement s kind e = .message m ∧ m.Lacks path := by
  induction h with
  | scalar fits =>
    intro path
    rw [Element.lacking]
    simp [Value.ofElement]
  | enum lt =>
    intro path
    rw [Element.lacking]
    simp [Value.ofElement]
  | @message t c known typed ordered ih =>
    intro path
    let m : Message := ⟨⟨s, t⟩, c⟩
    have hm : m.Sound := ⟨hp, Content.typed_message_iff.1 (.message known typed ordered)⟩
    have hnumbers : ∀ f ∈ (s.pool.message t).fields, (s.pool.message t).field? f.number = some f :=
      fun f hf => hm.field?_of_mem hf
    have hvalue : ∀ {place i : Nat} {f : FieldDef} {e : Element},
        (s.pool.message t).fields[place]? = some f → (Content.values f.number c)[i]? = some e →
          ∀ path, path ∈ e.lacking s.pool f.kind ↔
            ∃ n, Value.ofElement s f.kind e = .message n ∧ n.Lacks path :=
      fun hf he => ih _ (Content.mem_values.1 (List.mem_of_getElem? he)) _
        (hnumbers _ (List.mem_of_getElem? hf))
    have hlacks : (∃ k, Value.ofElement s (.message t) (.message c) = .message k ∧ k.Lacks path) ↔
        m.Lacks path := by
      simp [Value.ofElement, m]
    rw [hlacks, Element.lacking, Message.lacks_iff, FieldKind.index]
    constructor
    · intro hpath
      obtain ⟨place, f, hf, hcases⟩ := (Content.mem_paths_lacking hnumbers).1 hpath
      have hfield : m.type.fields[place]? = some ⟨m.type, f⟩ := Message.getElem?_fields.2 ⟨f, hf, rfl⟩
      rcases hcases with ⟨hnil, hreq, rfl⟩ | ⟨i, e, rest, he, hrest, rfl⟩
      · exact Or.inl ⟨place, _, hfield, hreq, Message.has_eq_false_iff.2 hnil, rfl⟩
      · obtain ⟨n, hn, hlack⟩ := (hvalue hf he rest).1 hrest
        have hreport : (m.report f)[i]? = some (.message n) := Message.getElem?_report.2 ⟨e, he, hn⟩
        exact Or.inr ⟨_, n, rest, hm.child_iff.2 ⟨place, f, i, hf, rfl, hreport⟩, hlack, rfl⟩
    · intro hpath
      refine (Content.mem_paths_lacking hnumbers).2 ?_
      rcases hpath with ⟨place, g, hg, hreq, hunset, rfl⟩ | ⟨step, n, rest, hchild, hlack, rfl⟩
      · obtain ⟨f, hf, rfl⟩ := Message.getElem?_fields.1 hg
        exact ⟨place, f, hf, Or.inl ⟨Message.has_eq_false_iff.1 hunset, hreq, rfl⟩⟩
      · obtain ⟨place, f, i, hf, rfl, hi⟩ := hm.child_iff.1 hchild
        obtain ⟨e, he, hn⟩ := Message.getElem?_report.1 hi
        have hrest := (hvalue hf he rest).2 ⟨n, hn, hlack⟩
        exact ⟨place, f, hf, Or.inr ⟨i, e, rest, he, hrest, rfl⟩⟩

namespace Message

variable {m : Message}

/-- The paths to the required fields that the message lacks. -/
def lacking (m : Message) : List Path :=
  Element.lacking m.type.schema.pool (.message m.type.index) (.message m.content)

theorem Sound.mem_lacking (h : m.Sound) (path : Path) : path ∈ m.lacking ↔ m.Lacks path := by
  have htyped := Content.typed_message_iff.2 h.typed
  rw [lacking, htyped.mem_lacking h.reachable]
  simp [Value.ofElement]

theorem Sound.inOrder_lacking (h : m.Sound) : InOrder m.lacking :=
  (Content.typed_message_iff.2 h.typed).inOrder_lacking h.reachable

theorem missing_eq_map_text (m : Message) : m.missing = m.lacking.map Required.text :=
  Element.missing_eq _ _ _

/-- A message is complete when it lacks nothing. -/
theorem complete_iff : m.Complete ↔ ∀ path, ¬m.Lacks path := by
  constructor
  · rintro h path ⟨steps, k, place, f, hholds, hf, hreq, hunset, -⟩
    have hset := h steps k hholds f (List.mem_of_getElem? hf) hreq
    simp [hset] at hunset
  · intro h steps k hholds f hf hreq
    obtain ⟨place, hf⟩ := List.mem_iff_getElem?.1 hf
    obtain ⟨g, hg, rfl⟩ := getElem?_fields.1 hf
    by_contra hunset
    refine h _ ⟨steps, k, place, _, hholds, hf, hreq, ?_, rfl⟩
    rw [has_field] at hunset ⊢
    simpa using hunset

/-- **A message is finished exactly when it lacks nothing, and what it lacks is reported otherwise.** A
message is finished, as it is, when it counts as initialized, which means that all required fields are
set in it and in all messages that it holds. If they are not, the report gives the text of each path to
a required field that is not set, once, in the order in which fields are declared and elements follow
one another. -/
theorem Made.finish_complete (h : m.Made) :
    ((∃ k, m.finish = .ok k) ↔ m.isInitialized = true) ∧
      (m.isInitialized = true ↔ m.Complete) ∧ (∀ k, m.finish = .ok k → k = m) ∧
      (¬m.Complete → ∃ paths : List Path,
        m.finish = .error (.missingFields m.type.fullName (paths.map Required.text)) ∧
          (∀ path, path ∈ paths ↔ m.Lacks path) ∧ paths.Nodup ∧ InOrder paths) := by
  have hmem := h.sound.mem_lacking
  have horder := h.sound.inOrder_lacking
  have hmissing := m.missing_eq_map_text
  have hinitialized : m.isInitialized = true ↔ m.missing = [] := List.isEmpty_iff
  have hcomplete : m.missing = [] ↔ m.Complete := by
    rw [complete_iff, hmissing, List.map_eq_nil_iff, List.eq_nil_iff_forall_not_mem]
    exact forall_congr' fun path => not_congr (hmem path)
  have hok : ∀ k, m.finish = .ok k ↔ m.missing = [] ∧ k = m := by
    intro k
    rw [finish]
    split
    · next hnil => simp [hnil, eq_comm]
    · next hnil => simp [hnil]
  refine ⟨?_, hinitialized.trans hcomplete, fun k hk => ((hok k).1 hk).2, ?_⟩
  · rw [hinitialized]
    constructor
    · rintro ⟨k, hk⟩
      exact ((hok k).1 hk).1
    · intro hnil
      exact ⟨m, (hok m).2 ⟨hnil, rfl⟩⟩
  · intro hincomplete
    refine ⟨m.lacking, ?_, hmem, horder.nodup, horder⟩
    rw [finish, if_neg (mt hcomplete.1 hincomplete), hmissing]

end Message

/-- A schema with a message that has a goal, and parts and a sequel of its own type. -/
def Draft.errands : Draft where
  name := "errands.proto"
  package := ""
  messages := [⟨"Errand", [⟨.repeated, "Errand", "parts", 3, none⟩,
    ⟨.required, "string", "goal", 2, none⟩, ⟨.optional, "Errand", "sequel", 1, none⟩], [], []⟩]
  enums := []
  imports := []

/-- The pool of the schema with errands. -/
def Pool.errands : Pool where
  records := [⟨"errands.proto", "", [], [0], []⟩]
  messages := [⟨"Errand", "Errand", 0, none, [⟨"parts", 3, .repeated, .message 0, none, .emptyList⟩,
    ⟨"goal", 2, .required, .scalar .string, none, .scalar (.string "")⟩,
    ⟨"sequel", 1, .optional, .message 0, none, .emptyMessage⟩], [], []⟩]
  enums := []

theorem Pool.reachable_errands : Pool.errands.Reachable := by
  have hparts : FieldDecl.make .repeated "Errand" "parts" 3 =
      .ok ⟨.repeated, "Errand", "parts", 3, none⟩ := rfl
  have hgoal : FieldDecl.make .required "string" "goal" 2 =
      .ok ⟨.required, "string", "goal", 2, none⟩ := rfl
  have hsequel : FieldDecl.make .optional "Errand" "sequel" 1 =
      .ok ⟨.optional, "Errand", "sequel", 1, none⟩ := rfl
  have hbuild : Draft.errands.build = .ok Pool.errands := rfl
  refine .build ?_ (fun e he => absurd he List.not_mem_nil)
    (fun q hq => absurd hq List.not_mem_nil) hbuild
  intro m hm
  obtain rfl := List.mem_singleton.1 hm
  have herrand := MessageDecl.Built.addField (.empty "Errand") (.make hparts) rfl
  exact .addField (.addField herrand (.make hgoal) rfl) (.make hsequel) rfl

/-- An errand without a goal has a part with a goal, and one that lacks its goal and has a sequel
without a goal. -/
theorem Message.Made.finish_complete_errand : ∃ m : Message, m.type = ⟨⟨0, Pool.errands⟩, 0⟩ ∧
    m.content = [(3, .message [(2, .scalar (.string "rest"))]), (3, .message [(1, .message [])])] ∧
      m.Made ∧ ¬m.Complete ∧ m.finish =
          .error (.missingFields "Errand" ["parts[1].goal", "parts[1].sequel.goal", "goal"]) ∧
        ∃ paths : List Path,
          paths.map Required.text = ["parts[1].goal", "parts[1].sequel.goal", "goal"] ∧
            (∀ path, path ∈ paths ↔ m.Lacks path) ∧ InOrder paths := by
  let type : MessageType := ⟨⟨0, Pool.errands⟩, 0⟩
  let reached : Message := ⟨type, [(2, .scalar (.string "rest"))]⟩
  let followed : Message := ⟨type, [(1, .message [])]⟩
  let half : Message := ⟨type, [(3, .message reached.content)]⟩
  let m : Message := ⟨type, [(3, .message reached.content), (3, .message followed.content)]⟩
  have hempty : (empty type).Made := .empty Pool.reachable_errands
  have hgoal : (empty type).set (.number 2) (.scalar (.string "rest")) = .ok reached := rfl
  have hsequel : (empty type).set (.number 1) (.message (empty type)) = .ok followed := rfl
  have hfirst : (empty type).add (.number 3) (.message reached) = .ok half := rfl
  have hsecond : half.add (.number 3) (.message followed) = .ok m := rfl
  have hreached : reached.Made := .set (s := .number 2) hempty trivial (.scalar _) hgoal
  have hfollowed : followed.Made := .set (s := .number 1) hempty trivial hempty hsequel
  have hhalf : half.Made := .add (s := .number 3) hempty trivial hreached hfirst
  have hm : m.Made := .add (s := .number 3) hhalf trivial hfollowed hsecond
  have hfinish : m.finish =
      .error (.missingFields "Errand" ["parts[1].goal", "parts[1].sequel.goal", "goal"]) := rfl
  obtain ⟨hok, hcomplete, -, hreport⟩ := Made.finish_complete hm
  have hincomplete : ¬m.Complete := by
    rw [← hcomplete, ← hok, hfinish]
    simp
  obtain ⟨paths, hpaths, hlacks, -, horder⟩ := hreport hincomplete
  rw [hfinish, Except.error.injEq, AccessError.missingFields.injEq] at hpaths
  exact ⟨m, rfl, rfl, hm, hincomplete, hfinish, paths, hpaths.2.symm, hlacks, horder⟩

end ProtoSchema
