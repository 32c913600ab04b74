import ProtoSchema.Proofs.Descriptor.Normal

/-!
# Levels of descriptors

How deep descriptors nest: a file is on the first level, its types are on the second, and whatever
stands in a type is one level below it.

Descriptors that are read from bytes nest no deeper than the budget allows (`levels_of_decodeSet`),
and writing back changes no level (`levels_normal`), so that a pool that was read can be read again
from its own bytes.
-/

namespace ProtoSchema.Descriptor

/-! ## Levels -/

/-- The levels of an enum on the level and of its values. -/
def Enum.levels (level : Nat) (e : Enum) : List Nat := level :: e.values.map fun _ => level + 1

namespace Message

mutual

/-- The levels of a message on the level and of all that stands in it. -/
def levels (level : Nat) : Message → List Nat
  | ⟨_, fields, messages, enums⟩ =>
    level :: (fields.map (fun _ => level + 1) ++ levelsList (level + 1) messages ++
      enums.flatMap (·.levels (level + 1)))

def levelsList (level : Nat) : List Message → List Nat
  | [] => []
  | m :: ms => m.levels level ++ levelsList level ms

end

end Message

/-- The levels of a file and of all that stands in it. -/
def File.levels (f : File) : List Nat :=
  1 :: (Message.levelsList 2 f.messages ++ f.enums.flatMap (·.levels 2))

/-- The levels of all that stands in the files. -/
def levels (files : List File) : List Nat := files.flatMap File.levels

namespace Message

theorem levelsList_eq_flatMap (level : Nat) (ms : List Message) :
    levelsList level ms = ms.flatMap (levels level) := by
  induction ms with
  | nil => rw [levelsList, List.flatMap_nil]
  | cons m ms ih => rw [levelsList, ih, List.flatMap_cons]

end Message

variable {P : Nat → Prop} {level : Nat}

theorem Enum.forall_levels {e : Enum} :
    (∀ l ∈ e.levels level, P l) ↔ P level ∧ ∀ _v ∈ e.values, P (level + 1) := by
  rw [levels, List.forall_mem_cons, List.forall_mem_map]

theorem Message.forall_levels {m : Message} : (∀ l ∈ m.levels level, P l) ↔
    P level ∧ (∀ _f ∈ m.fields, P (level + 1)) ∧
      (∀ n ∈ m.messages, ∀ l ∈ n.levels (level + 1), P l) ∧
        ∀ e ∈ m.enums, ∀ l ∈ e.levels (level + 1), P l := by
  obtain ⟨name?, fields, messages, enums⟩ := m
  rw [levels, levelsList_eq_flatMap, List.forall_mem_cons, List.forall_mem_append,
    List.forall_mem_append, List.forall_mem_map, List.forall_mem_flatMap, List.forall_mem_flatMap,
    and_assoc]

theorem File.forall_levels {f : File} : (∀ l ∈ f.levels, P l) ↔
    P 1 ∧ (∀ m ∈ f.messages, ∀ l ∈ m.levels 2, P l) ∧ ∀ e ∈ f.enums, ∀ l ∈ e.levels 2, P l := by
  rw [levels, Message.levelsList_eq_flatMap, List.forall_mem_cons, List.forall_mem_append,
    List.forall_mem_flatMap, List.forall_mem_flatMap]

/-! ## Levels of normal descriptors -/

theorem Enum.levels_normal (e : Enum) : e.normal.levels level = e.levels level := by
  rw [levels, levels, normal, List.map_map]
  rfl

theorem Enum.flatMap_levels_normal (es : List Enum) :
    (es.map Enum.normal).flatMap (·.levels level) = es.flatMap (·.levels level) := by
  rw [List.flatMap_map]
  simp only [Enum.levels_normal]

namespace Message

mutual

theorem levels_normal (level : Nat) : ∀ m : Message, m.normal.levels level = m.levels level
  | ⟨name?, fields, messages, enums⟩ => by
    rw [normal, levels, levels, levelsList_normalList, Enum.flatMap_levels_normal, List.map_map]
    rfl

theorem levelsList_normalList (level : Nat) : ∀ ms : List Message,
    levelsList level (normalList ms) = levelsList level ms
  | [] => rfl
  | m :: ms => by
    rw [normalList, levelsList, levelsList, levels_normal, levelsList_normalList]

end

end Message

/-- **Writing back changes no level.** -/
theorem levels_normal (files : List File) : levels (files.map File.normal) = levels files := by
  have hf : ∀ f : File, f.normal.levels = f.levels := by
    intro f
    rw [File.levels, File.levels, File.normal, Message.levelsList_normalList,
      Enum.flatMap_levels_normal]
  rw [levels, levels, List.flatMap_map]
  simp only [hf]

/-! ## Levels of what is read -/

section Keeps

variable {α β : Type} {I : α → Prop}

/-- Whatever is read keeps what holds of the message. -/
def Keeps (I : α → Prop) (r : Reader ReadError (α → α)) : Prop :=
  r.Yields fun change => ∀ m, I m → I (change m)

theorem Known.Unread.keeps {f : Known α} (h : f.Unread) (type : WireType) : Keeps I (f.read type) := by
  intro bs change rest hread m hm
  rw [h type bs change rest hread]
  exact hm

theorem keeps_single {name : String} {type : WireType} {r : Reader WireFault β} {set : β → α → α}
    (hset : ∀ b m, I m → I (set b m)) (actual : WireType) :
    Keeps I ((Known.single name type r set).read actual) := by
  intro bs change rest hread
  obtain ⟨b, -, rfl⟩ := Reader.map_eq_ok_iff.1 (Reader.mapError_eq_ok_iff.1 hread)
  exact hset b

theorem keeps_body {name : String} {r : Reader ReadError β} {add : β → α → α} {Q : β → Prop}
    (h : r.Yields Q) (hadd : ∀ b m, Q b → I m → I (add b m)) (type : WireType) :
    Keeps I ((Known.body name r add).read type) := by
  unfold Known.body Keeps
  simp only
  split
  · exact Reader.yields_map h fun b hb m hm => hadd b m hb hm
  · exact Reader.yields_fail _

theorem keeps_record {message : String} {budget : Nat} {known : Nat → Option (Known α)}
    (h : ∀ tag f, known tag = some f → ∀ type, Keeps I (f.read type)) :
    Keeps I (record message budget known) := by
  intro bs change rest hread
  obtain ⟨k, after, -, hread⟩ := Reader.bind_eq_ok_iff.1 hread
  cases hf : known k.tag with
  | some f =>
    simp only [hf] at hread
    exact h _ f hf _ _ _ _ (Reader.mapError_eq_ok_iff.1 hread)
  | none =>
    simp only [hf] at hread
    obtain ⟨_, -, rfl⟩ := Reader.map_eq_ok_iff.1 (Reader.mapError_eq_ok_iff.1 hread)
    exact fun _ hm => hm

theorem foldl_keeps {changes : List (α → α)} (h : ∀ change ∈ changes, ∀ m, I m → I (change m)) :
    ∀ {m : α}, I m → I (changes.foldl (fun m f => f m) m) := by
  induction changes with
  | nil => exact fun hm => hm
  | cons change changes ih =>
    intro m hm
    rw [List.forall_mem_cons] at h
    exact ih h.2 (h.1 m hm)

/-- **What is read of a body has what the start has and every record keeps.** -/
theorem yields_body {start : α} {record : Nat → Reader ReadError (α → α)} {budget : Nat}
    (hstart : I start) (h : Keeps I (record budget)) :
    (body start record (budget + 1)).Yields I := by
  refine Reader.yields_map (Reader.yields_packed h) ?_
  intro changes hchanges
  exact foldl_keeps hchanges hstart

/-- A body is read only within a budget. -/
theorem yields_pos {start : α} {record : Nat → Reader ReadError (α → α)} {budget : Nat} :
    (body start record budget).Yields fun _ => 0 < budget := by
  cases budget with
  | zero => exact Reader.yields_fail _
  | succ budget => exact fun _ _ _ _ => Nat.succ_pos budget

end Keeps

namespace Enum

/-- What stands in the enum nests within the budget. -/
def Nests (budget : Nat) (e : Enum) : Prop := ∀ _v ∈ e.values, 0 < budget

theorem Nests.levels_lt {budget : Nat} {e : Enum} (h : e.Nests budget) (level : Nat) :
    ∀ l ∈ e.levels level, l < level + (budget + 1) := by
  refine forall_levels.2 ⟨by omega, fun v hv => ?_⟩
  have hpos := h v hv
  omega

theorem keeps_known {budget tag : Nat} {f : Known Enum} (hf : known budget tag = some f)
    (type : WireType) : Keeps (Nests budget) (f.read type) := by
  by_cases htag : tag ∈ [1, 2]
  · simp only [List.mem_cons, List.not_mem_nil, or_false] at htag
    rcases htag with rfl | rfl
    all_goals obtain rfl := Option.some.inj hf
    · refine keeps_single ?_ type
      exact fun _ _ hm => hm
    · refine keeps_body yields_pos (fun v m hb hm => ?_) type
      exact forall_mem_append_singleton.2 ⟨hm, hb⟩
  · exact (unread_known hf htag).keeps type

/-- **An enum that is read nests no deeper than the budget.** -/
theorem yields_body (budget : Nat) : (Enum.body budget).Yields
    fun e => ∀ level, ∀ l ∈ e.levels level, l < level + budget := by
  cases budget with
  | zero => exact Reader.yields_fail _
  | succ budget =>
    have hkeeps : Keeps (Nests budget) (record "EnumDescriptorProto" budget (known budget)) :=
      keeps_record fun _ _ => keeps_known
    have hstart : (default : Enum).Nests budget := fun _ h => absurd h List.not_mem_nil
    exact fun bs e rest h => (Descriptor.yields_body hstart hkeeps bs e rest h).levels_lt

end Enum

namespace Message

/-- What stands in the message nests within the budget. -/
structure Nests (budget : Nat) (m : Message) : Prop where
  fields : ∀ _f ∈ m.fields, 0 < budget
  messages : ∀ n ∈ m.messages, ∀ level, ∀ l ∈ n.levels level, l < level + budget
  enums : ∀ e ∈ m.enums, ∀ level, ∀ l ∈ e.levels level, l < level + budget

theorem Nests.levels_lt {budget : Nat} {m : Message} (h : m.Nests budget) (level : Nat) :
    ∀ l ∈ m.levels level, l < level + (budget + 1) := by
  refine forall_levels.2 ⟨by omega, fun f hf => ?_, fun n hn l hl => ?_, fun e he l hl => ?_⟩
  · have hpos := h.fields f hf
    omega
  · have hlt := h.messages n hn _ l hl
    omega
  · have hlt := h.enums e he _ l hl
    omega

theorem nests_default (budget : Nat) : (default : Message).Nests budget :=
  ⟨fun _ h => absurd h List.not_mem_nil, fun _ h => absurd h List.not_mem_nil,
    fun _ h => absurd h List.not_mem_nil⟩

theorem keeps_known {budget : Nat} {nested : Reader ReadError Message}
    (hnested : nested.Yields fun n => ∀ level, ∀ l ∈ n.levels level, l < level + budget)
    {tag : Nat} {f : Known Message} (hf : known budget nested tag = some f) (type : WireType) :
    Keeps (Nests budget) (f.read type) := by
  by_cases htag : tag ∈ [1, 2, 3, 4]
  · simp only [List.mem_cons, List.not_mem_nil, or_false] at htag
    rcases htag with rfl | rfl | rfl | rfl
    all_goals obtain rfl := Option.some.inj hf
    · exact keeps_single (fun _ _ hm => ⟨hm.fields, hm.messages, hm.enums⟩) type
    · refine keeps_body yields_pos (fun f m hb hm => ⟨?_, hm.messages, hm.enums⟩) type
      exact forall_mem_append_singleton.2 ⟨hm.fields, hb⟩
    · refine keeps_body hnested (fun n m hb hm => ⟨hm.fields, ?_, hm.enums⟩) type
      exact forall_mem_append_singleton.2 ⟨hm.messages, hb⟩
    · refine keeps_body (Enum.yields_body budget) (fun e m hb hm => ⟨hm.fields, hm.messages, ?_⟩) type
      exact forall_mem_append_singleton.2 ⟨hm.enums, hb⟩
  · exact (unread_known hf htag).keeps type

theorem body_eq (budget : Nat) : Message.body budget = Descriptor.body default
    (fun n => record "DescriptorProto" n (known n (Message.body n))) budget := by
  cases budget <;> rfl

/-- **A message that is read nests no deeper than the budget.** -/
theorem yields_body (budget : Nat) : (Message.body budget).Yields
    fun m => ∀ level, ∀ l ∈ m.levels level, l < level + budget := by
  induction budget with
  | zero => exact Reader.yields_fail _
  | succ budget ih =>
    have hkeeps : Keeps (Nests budget)
        (record "DescriptorProto" budget (known budget (Message.body budget))) :=
      keeps_record fun _ _ hf => keeps_known ih hf
    rw [body_eq]
    exact fun bs m rest h =>
      (Descriptor.yields_body (nests_default budget) hkeeps bs m rest h).levels_lt

end Message

namespace File

/-- What stands in the file nests within the budget. -/
structure Nests (budget : Nat) (f : File) : Prop where
  messages : ∀ m ∈ f.messages, ∀ level, ∀ l ∈ m.levels level, l < level + budget
  enums : ∀ e ∈ f.enums, ∀ level, ∀ l ∈ e.levels level, l < level + budget

theorem Nests.levels_lt {budget : Nat} {f : File} (h : f.Nests budget) :
    ∀ l ∈ f.levels, l < budget + 2 := by
  refine forall_levels.2 ⟨by omega, fun m hm l hl => ?_, fun e he l hl => ?_⟩
  · have hlt := h.messages m hm _ l hl
    omega
  · have hlt := h.enums e he _ l hl
    omega

theorem keeps_known {budget tag : Nat} {f : Known File} (hf : known budget tag = some f)
    (type : WireType) : Keeps (Nests budget) (f.read type) := by
  by_cases htag : tag ∈ [1, 2, 3, 4, 5]
  · simp only [List.mem_cons, List.not_mem_nil, or_false] at htag
    rcases htag with rfl | rfl | rfl | rfl | rfl
    all_goals obtain rfl := Option.some.inj hf
    · exact keeps_single (fun _ _ hm => ⟨hm.messages, hm.enums⟩) type
    · exact keeps_single (fun _ _ hm => ⟨hm.messages, hm.enums⟩) type
    · exact keeps_single (fun _ _ hm => ⟨hm.messages, hm.enums⟩) type
    · refine keeps_body (Message.yields_body budget) (fun m f hb hm => ⟨?_, hm.enums⟩) type
      exact forall_mem_append_singleton.2 ⟨hm.messages, hb⟩
    · refine keeps_body (Enum.yields_body budget) (fun e f hb hm => ⟨hm.messages, ?_⟩) type
      exact forall_mem_append_singleton.2 ⟨hm.enums, hb⟩
  · exact (unread_known hf htag).keeps type

/-- **A file that is read nests no deeper than the budget.** -/
theorem yields_body (budget : Nat) :
    (body default (fun n => record "FileDescriptorProto" n (File.known n)) budget).Yields
      fun f => ∀ l ∈ f.levels, l < budget + 1 := by
  cases budget with
  | zero => exact Reader.yields_fail _
  | succ budget =>
    have hkeeps : Keeps (Nests budget) (record "FileDescriptorProto" budget (known budget)) :=
      keeps_record fun _ _ => keeps_known
    have hstart : (default : File).Nests budget :=
      ⟨fun _ h => absurd h List.not_mem_nil, fun _ h => absurd h List.not_mem_nil⟩
    exact fun bs f rest h => (Descriptor.yields_body hstart hkeeps bs f rest h).levels_lt

end File

/-- **Files that are read from bytes nest no deeper than the budget.** -/
theorem levels_of_decodeSet {bs : Bytes} {files : List File} (h : decodeSet bs = .ok files) :
    ∀ l ∈ levels files, l ≤ nestingBudget := by
  have hkeeps : Keeps (fun files => ∀ l ∈ levels files, l < nestingBudget + 1)
      (record "FileDescriptorSet" nestingBudget (fileSetKnown nestingBudget)) := by
    refine keeps_record fun tag f hf type => ?_
    by_cases htag : tag ∈ [1]
    · obtain rfl := List.mem_singleton.1 htag
      obtain rfl := Option.some.inj hf
      refine keeps_body (File.yields_body nestingBudget) (fun f files hf hfiles => ?_) type
      rw [levels, List.flatMap_append, List.forall_mem_append, List.flatMap_singleton]
      exact ⟨hfiles, hf⟩
    · exact (unread_fileSetKnown hf htag).keeps type
  obtain ⟨changes, hchanges, rfl⟩ := Traverse.map_eq_ok.1 h
  intro l hl
  exact Nat.le_of_lt_succ (foldl_keeps (Reader.of_mem_all hkeeps hchanges)
    (fun _ h => absurd h List.not_mem_nil) l hl)

end ProtoSchema.Descriptor
