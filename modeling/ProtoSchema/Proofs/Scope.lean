import Mathlib.Data.List.Pairwise
import ProtoSchema.Proofs.Name

/-!
# Scopes around a name

`Name.scopes` lists the scopes around a name by walking over its characters from the end. Here they
are given without that order: they are the non-empty prefixes in front of a dot, and the name itself
(`mem_scopes_iff`), and they are listed from the longest to the shortest (`scopes_pairwise`). What is
tried scope by scope is therefore settled by the longest scope that gives anything
(`findSome?_scopes_eq_some_iff`).
-/

namespace ProtoSchema.Name

/-! ## In front of dots -/

theorem mem_outward_iff {cs rest : List Char} : rest ∈ outward cs ↔ ∃ l, cs = l ++ '.' :: rest := by
  induction cs with
  | nil => simp [outward]
  | cons c cs ih =>
    rw [outward]
    constructor
    · intro h
      -- The rest begins behind this character or behind a later dot.
      have hcs : c = '.' ∧ rest = cs ∨ rest ∈ outward cs := by
        split at h
        · next hc => exact (List.mem_cons.1 h).imp (fun h => ⟨hc, h⟩) id
        · exact Or.inr h
      rcases hcs with ⟨rfl, rfl⟩ | h
      · exact ⟨[], rfl⟩
      · obtain ⟨l, rfl⟩ := ih.1 h
        exact ⟨c :: l, rfl⟩
    · rintro ⟨l, hl⟩
      cases l with
      | nil =>
        obtain ⟨rfl, rfl⟩ : c = '.' ∧ cs = rest := by simpa using hl
        rw [if_pos rfl]
        exact List.mem_cons_self
      | cons d l =>
        obtain ⟨rfl, rfl⟩ : c = d ∧ cs = l ++ '.' :: rest := by simpa using hl
        have hmem : rest ∈ outward (l ++ '.' :: rest) := ih.2 ⟨l, rfl⟩
        split
        · exact List.mem_cons_of_mem _ hmem
        · exact hmem

theorem length_lt_of_mem_outward {cs rest : List Char} (h : rest ∈ outward cs) :
    rest.length < cs.length := by
  obtain ⟨l, rfl⟩ := mem_outward_iff.1 h
  rw [List.length_append, List.length_cons]
  omega

theorem outward_pairwise (cs : List Char) :
    (outward cs).Pairwise fun a b => b.length < a.length := by
  induction cs with
  | nil => exact List.Pairwise.nil
  | cons c cs ih =>
    rw [outward]
    split
    · exact List.Pairwise.cons (fun _ h => length_lt_of_mem_outward h) ih
    · exact ih

/-! ## Scopes -/

/-- The scope is the name itself or stands in it in front of a dot. The empty scope is none. -/
def Encloses (scope name : String) : Prop :=
  scope ≠ "" ∧ (scope = name ∨ ∃ rest, name = scope ++ "." ++ rest)

/-- **The scopes around a name are the name and what stands in front of its dots.** -/
theorem mem_scopes_iff {scope name : String} : scope ∈ scopes name ↔ Encloses scope name := by
  have hback : ∀ cs : List Char, String.ofList cs.reverse = scope ↔ cs = scope.toList.reverse := by
    intro cs
    rw [← String.toList_inj, String.toList_ofList, List.reverse_eq_iff]
  have hne : scope.toList.reverse ≠ [] ↔ scope ≠ "" := by
    rw [Ne, List.reverse_eq_nil_iff, String.toList_eq_nil_iff]
  have hself : scope.toList.reverse = name.toList.reverse ↔ scope = name := by
    rw [List.reverse_inj, String.toList_inj]
  have hdot : scope.toList.reverse ∈ outward name.toList.reverse ↔
      ∃ rest, name = scope ++ "." ++ rest := by
    rw [mem_outward_iff]
    constructor
    · rintro ⟨l, hl⟩
      refine ⟨String.ofList l.reverse, ?_⟩
      rw [← List.reverse_inj] at hl
      rw [← String.toList_inj]
      simpa using hl
    · rintro ⟨rest, rfl⟩
      exact ⟨rest.toList.reverse, by simp⟩
  rw [scopes, Encloses, ← hne, ← hself, ← hdot, ← List.mem_cons]
  simp only [List.mem_map, List.mem_filter, hback, decide_eq_true_eq]
  constructor
  · rintro ⟨cs, ⟨hmem, hcs⟩, rfl⟩
    exact ⟨hcs, hmem⟩
  · rintro ⟨hcs, hmem⟩
    exact ⟨_, ⟨hmem, hcs⟩, rfl⟩

/-- **Scopes are listed from the longest to the shortest.** -/
theorem scopes_pairwise (name : String) :
    (scopes name).Pairwise fun a b => b.length < a.length := by
  rw [scopes, List.pairwise_map]
  simp only [String.length_ofList, List.length_reverse]
  refine List.Pairwise.filter _ (List.Pairwise.cons ?_ (outward_pairwise _))
  intro _ h
  exact length_lt_of_mem_outward h

/-- **What is tried scope by scope is settled by the longest scope that gives anything.** -/
theorem findSome?_scopes_eq_some_iff {α : Type} {f : String → Option α} {name : String} {a : α} :
    (scopes name).findSome? f = some a ↔ ∃ scope, Encloses scope name ∧ f scope = some a ∧
      ∀ longer, Encloses longer name → scope.length < longer.length → f longer = none := by
  have hpair := scopes_pairwise name
  simp only [← mem_scopes_iff]
  constructor
  · intro h
    obtain ⟨front, scope, back, hscopes, ha, hfront⟩ := List.findSome?_eq_some_iff.1 h
    rw [hscopes] at hpair ⊢
    refine ⟨scope, by simp, ha, ?_⟩
    intro longer hmem hlt
    obtain ⟨-, hback, -⟩ := List.pairwise_append.1 hpair
    rcases List.mem_append.1 hmem with hmem | hmem
    · exact hfront longer hmem
    · -- Behind the scope that was settled on there are only shorter ones.
      rcases List.mem_cons.1 hmem with rfl | hmem
      · exact absurd hlt (Nat.lt_irrefl _)
      · exact absurd hlt (Nat.lt_asymm ((List.pairwise_cons.1 hback).1 longer hmem))
  · rintro ⟨scope, hmem, ha, hlonger⟩
    obtain ⟨front, back, hscopes⟩ := List.append_of_mem hmem
    rw [hscopes] at hpair
    obtain ⟨-, -, hfront⟩ := List.pairwise_append.1 hpair
    refine List.findSome?_eq_some_iff.2 ⟨front, scope, back, hscopes, ha, fun longer hmem => ?_⟩
    refine hlonger longer ?_ (hfront longer hmem scope List.mem_cons_self)
    rw [hscopes]
    exact List.mem_append_left _ hmem

theorem findSome?_scopes_eq_none_iff {α : Type} {f : String → Option α} {name : String} :
    (scopes name).findSome? f = none ↔ ∀ scope, Encloses scope name → f scope = none := by
  simp only [List.findSome?_eq_none_iff, mem_scopes_iff]

end ProtoSchema.Name
