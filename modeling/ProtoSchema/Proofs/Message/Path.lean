import Mathlib.Data.List.Lex
import ProtoSchema.Message.Required
import ProtoSchema.Proofs.Message.Content

/-!
# Paths to required fields

A path consists of steps from a message into the values of its fields, the last of them into a field
that is not set. What a field of a message lacks (`Required.fieldPaths`), and what all of them lack
together (`Required.paths`), is put together from what its values lack, as the report of their texts
is: **the report consists of the texts of the paths** (`Required.fields_map_text`). Paths are compared
by the first steps that differ, and **those that the fields lack are in order**
(`Required.inOrder_paths`).
-/

namespace ProtoSchema

namespace Required

/-- A step into a field of a message: its place among the fields of the type and its name, with the
index of the element if the field is repeated. -/
structure Step where
  place : Nat
  name : String
  index? : Option Nat
deriving DecidableEq, Repr

/-- Steps one after the other. -/
abbrev Path := List Step

namespace Step

/-- The name of the field, with the index of the element in brackets. -/
def text (s : Step) : String :=
  match s.index? with
  | none => s.name
  | some i => s!"{s.name}[{i}]"

/-- Steps stand in the order in which the fields are declared, and those into the same field in the
order of the elements. -/
inductive Before : Step → Step → Prop
  | field {s t : Step} (lt : s.place < t.place) : Before s t
  | element {place i j : Nat} {name : String} (lt : i < j) :
    Before ⟨place, name, some i⟩ ⟨place, name, some j⟩

instance : Std.Asymm Before where
  asymm s t h h' := by
    cases h with
    | field lt =>
      cases h' with
      | field lt' => exact Nat.lt_asymm lt lt'
      | element => exact Nat.lt_irrefl _ lt
    | element lt =>
      cases h' with
      | field lt' => exact Nat.lt_irrefl _ lt'
      | element lt' => exact Nat.lt_asymm lt lt'

end Step

/-- The steps of the path, joined by dots. -/
def text (path : Path) : String := String.intercalate "." (path.map Step.text)

theorem text_singleton (s : Step) : text [s] = s.text := String.intercalate_singleton

theorem text_cons {s : Step} {path : Path} (h : path ≠ []) :
    text (s :: path) = s.text ++ "." ++ text path :=
  String.intercalate_cons_of_ne_nil (by simpa using h)

/-- The index that a step into a value of the field has. -/
def index? (f : FieldDef) (i : Nat) : Option Nat := if f.isRepeated then some i else none

/-- The paths that a field lacks, given what each of its values lacks. -/
def fieldPaths (place : Nat) (f : FieldDef) (lacks : List (List Path)) : List Path :=
  if lacks = [] then if f.isRequired then [[⟨place, f.name, none⟩]] else []
  else lacks.zipIdx.flatMap fun (paths, i) => paths.map (⟨place, f.name, index? f i⟩ :: ·)

/-- The paths that a message lacks, given what each of its values lacks. -/
def paths (m : MessageDef) (lacks : List (Nat × List Path)) : List Path :=
  m.fields.zipIdx.flatMap fun (f, place) => fieldPaths place f (Content.values f.number lacks)

variable {m : MessageDef} {f : FieldDef} {place : Nat} {path : Path}

theorem mem_fieldPaths {lacks : List (List Path)} : path ∈ fieldPaths place f lacks ↔
    (lacks = [] ∧ f.isRequired = true ∧ path = [⟨place, f.name, none⟩]) ∨
      ∃ i paths rest, lacks[i]? = some paths ∧ rest ∈ paths ∧
        path = ⟨place, f.name, index? f i⟩ :: rest := by
  unfold fieldPaths
  by_cases hnil : lacks = []
  · subst hnil
    by_cases hreq : f.isRequired = true <;> simp [hreq]
  · rw [if_neg hnil, List.mem_flatMap]
    constructor
    · rintro ⟨⟨paths, i⟩, hmem, hpath⟩
      obtain ⟨rest, hrest, rfl⟩ := List.mem_map.1 hpath
      exact Or.inr ⟨i, paths, rest, List.mem_zipIdx_iff_getElem?.1 hmem, hrest, rfl⟩
    · rintro (⟨hlacks, -, -⟩ | ⟨i, paths, rest, hi, hrest, rfl⟩)
      · exact absurd hlacks hnil
      · exact ⟨(paths, i), List.mem_zipIdx_iff_getElem?.2 hi, List.mem_map_of_mem hrest⟩

theorem mem_paths {lacks : List (Nat × List Path)} : path ∈ paths m lacks ↔
    ∃ place f, m.fields[place]? = some f ∧
      path ∈ fieldPaths place f (Content.values f.number lacks) := by
  rw [paths, List.mem_flatMap]
  constructor
  · rintro ⟨⟨f, place⟩, hmem, hpath⟩
    exact ⟨place, f, List.mem_zipIdx_iff_getElem?.1 hmem, hpath⟩
  · rintro ⟨place, f, hf, hpath⟩
    exact ⟨(f, place), List.mem_zipIdx_iff_getElem?.2 hf, hpath⟩

/-- What a field lacks is found behind a step into this field. -/
theorem place_of_mem_fieldPaths {lacks : List (List Path)} (h : path ∈ fieldPaths place f lacks) :
    ∃ s rest, path = s :: rest ∧ s.place = place := by
  rcases mem_fieldPaths.1 h with ⟨-, -, rfl⟩ | ⟨i, paths, rest, -, -, rfl⟩
  · exact ⟨_, [], rfl, rfl⟩
  · exact ⟨_, rest, rfl, rfl⟩

theorem ne_nil_of_mem_paths {lacks : List (Nat × List Path)} (h : path ∈ paths m lacks) :
    path ≠ [] := by
  obtain ⟨place, f, -, hpath⟩ := mem_paths.1 h
  obtain ⟨s, rest, rfl, -⟩ := place_of_mem_fieldPaths hpath
  exact List.cons_ne_nil s rest

/-! ## Texts -/

/-- Entries with their indices, of which the indices are not used. -/
theorem flatMap_zipIdx {α β : Type} (g : α → List β) (as : List α) :
    (as.zipIdx.flatMap fun x => g x.1) = as.flatMap g := by
  rw [← List.flatMap_map Prod.fst g, List.zipIdx_map_fst]

/-- What is reported of a field are the texts of the paths. -/
theorem field_map_text {lacks : List (List Path)} (h : ∀ paths ∈ lacks, ∀ path ∈ paths, path ≠ []) :
    field f (lacks.map (·.map text)) = (fieldPaths place f lacks).map text := by
  by_cases hnil : lacks = []
  · subst hnil
    by_cases hreq : f.isRequired = true <;> simp [field, fieldPaths, hreq, text_singleton, Step.text]
  · rw [field, if_neg (by simpa using hnil), fieldPaths, if_neg hnil, List.map_flatMap]
    have hmem : ∀ x ∈ lacks.zipIdx, ∀ path ∈ x.1, path ≠ [] := fun x hx =>
      h _ (List.mem_of_getElem? (List.mem_zipIdx_iff_getElem?.1 hx))
    by_cases hrep : f.isRepeated = true
    · rw [if_pos hrep, List.zipIdx_map, List.flatMap_map]
      refine List.flatMap_congr fun ⟨paths, i⟩ hx => ?_
      simp only [Prod.map_apply, List.map_map]
      refine List.map_congr_left fun path hpath => ?_
      simp only [Function.comp_apply, text_cons (hmem _ hx path hpath), Step.text, index?, if_pos hrep]
      show f.name ++ "[" ++ toString i ++ ("]" ++ ".") ++ text path = _
      simp only [String.append_assoc]
      rfl
    · rw [if_neg hrep, List.flatMap_map, ← flatMap_zipIdx]
      refine List.flatMap_congr fun ⟨paths, i⟩ hx => ?_
      simp only [List.map_map]
      refine List.map_congr_left fun path hpath => ?_
      simp only [Function.comp_apply, text_cons (hmem _ hx path hpath), Step.text, index?, if_neg hrep]
      rfl

theorem values_map_text (n : Nat) (lacks : List (Nat × List Path)) :
    Content.values n (lacks.map fun x => (x.1, x.2.map text)) =
      (Content.values n lacks).map (·.map text) := by
  simp [Content.values, List.filter_map, Function.comp_def]

theorem fields_map_text {lacks : List (Nat × List Path)}
    (h : ∀ x ∈ lacks, ∀ path ∈ x.2, path ≠ []) :
    fields m (lacks.map fun x => (x.1, x.2.map text)) = (paths m lacks).map text := by
  have hfield : ∀ x ∈ m.fields.zipIdx, field x.1 (Content.values x.1.number
      (lacks.map fun x => (x.1, x.2.map text))) =
        (fieldPaths x.2 x.1 (Content.values x.1.number lacks)).map text := by
    intro x _
    rw [values_map_text]
    exact field_map_text fun paths hpaths => h _ (Content.mem_values.1 hpaths)
  have hfields : m.fields = m.fields.zipIdx.map Prod.fst := (List.zipIdx_map_fst 0 _).symm
  rw [fields, paths, List.map_flatMap, hfields, List.flatMap_map, ← hfields]
  exact List.flatMap_congr hfield

/-! ## Order -/

/-- Paths stand in the order of the first steps that differ. -/
abbrev InOrder (paths : List Path) : Prop := paths.Pairwise (List.Lex Step.Before)

/-- Paths in order differ from one another. -/
theorem InOrder.nodup {paths : List Path} (h : InOrder paths) : paths.Nodup := by
  refine h.imp fun {a b} hlt heq => ?_
  subst heq
  exact (List.Lex.asymm Step.Before).asymm a a hlt hlt

/-- Entries with their indices stand in the order of these. -/
theorem pairwise_zipIdx {α : Type} (as : List α) : as.zipIdx.Pairwise fun x y => x.2 < y.2 := by
  rw [← List.pairwise_map (f := Prod.snd) (R := (· < ·)), List.zipIdx_map_snd]
  exact List.pairwise_lt_range' 1

/-- What a field lacks is in order, if the field is repeated or does not have several values. -/
theorem inOrder_fieldPaths {lacks : List (List Path)} (hlen : f.isRepeated = true ∨ lacks.length ≤ 1)
    (h : ∀ paths ∈ lacks, InOrder paths) : InOrder (fieldPaths place f lacks) := by
  by_cases hnil : lacks = []
  · subst hnil
    by_cases hreq : f.isRequired = true <;> simp [fieldPaths, InOrder, hreq]
  · rw [fieldPaths, if_neg hnil]
    refine List.pairwise_flatMap.2 ⟨?_, ?_⟩
    · intro x hx
      have hpaths := h _ (List.mem_of_getElem? (List.mem_zipIdx_iff_getElem?.1 hx))
      exact List.pairwise_map.2 (hpaths.imp fun hlt => List.Lex.cons hlt)
    · rcases hlen with hrep | hlen
      · refine (pairwise_zipIdx lacks).imp fun {x y} hlt a ha b hb => ?_
        obtain ⟨a, -, rfl⟩ := List.mem_map.1 ha
        obtain ⟨b, -, rfl⟩ := List.mem_map.1 hb
        rw [index?, index?, if_pos hrep, if_pos hrep]
        exact .rel (.element hlt)
      · obtain ⟨paths, rfl⟩ : ∃ paths, lacks = [paths] :=
          List.length_eq_one_iff.1 (Nat.le_antisymm hlen (List.length_pos_iff.2 hnil))
        exact List.pairwise_singleton _ _

/-- **What the fields lack is in order when what each of them lacks is.** -/
theorem inOrder_paths {lacks : List (Nat × List Path)}
    (h : ∀ place f, m.fields[place]? = some f →
      InOrder (fieldPaths place f (Content.values f.number lacks))) : InOrder (paths m lacks) := by
  refine List.pairwise_flatMap.2 ⟨fun x hx => h _ _ (List.mem_zipIdx_iff_getElem?.1 hx), ?_⟩
  refine (pairwise_zipIdx m.fields).imp fun {x y} hlt a ha b hb => ?_
  obtain ⟨s, a, rfl, hs⟩ := place_of_mem_fieldPaths ha
  obtain ⟨t, b, rfl, ht⟩ := place_of_mem_fieldPaths hb
  refine .rel (.field ?_)
  rw [hs, ht]
  exact hlt

end Required

end ProtoSchema
