import Mathlib.Data.List.Chain
import Mathlib.Data.List.SplitBy
import Mathlib.Data.Set.List

/-!
# Maximal runs of a list

A list is read as its maximal runs of equal elements, each given by its
element and its length.  The runs written out one after another are the list,
no run is empty, and neighbouring runs differ.
-/

namespace EmbBoard.RunLength

variable {α : Type*} [DecidableEq α]

/-- The maximal runs, each element with the length of its run. -/
def runs (l : List α) : List (α × ℕ) :=
  (l.splitBy (· == ·)).filterMap fun g => g.head?.map fun a => (a, g.length)

/-- A run written out. -/
def expand (r : α × ℕ) : List α := List.replicate r.2 r.1

/-- A group of a split is constant. -/
theorem exists_replicate_of_mem_splitBy {l g : List α}
    (hg : g ∈ l.splitBy (· == ·)) :
    ∃ r : α × ℕ, List.replicate (r.2 + 1) r.1 = g := by
  have hchain : g.IsChain (· = ·) := by
    simpa using List.isChain_of_mem_splitBy hg
  cases g with
  | nil => exact absurd hg (List.nil_notMem_splitBy _ _)
  | cons a rest =>
      have hconst := List.isChain_eq_iff_eq_replicate.mp hchain a rfl
      refine ⟨(a, rest.length), ?_⟩
      rw [hconst]
      simp

theorem exists_splitBy_eq (l : List α) :
    ∃ rs : List (α × ℕ), l.splitBy (· == ·) =
      rs.map fun r => List.replicate (r.2 + 1) r.1 := by
  have hmem : l.splitBy (· == ·) ∈
      Set.range (List.map fun r : α × ℕ => List.replicate (r.2 + 1) r.1) := by
    rw [Set.range_list_map]
    intro g hg
    exact exists_replicate_of_mem_splitBy hg
  obtain ⟨rs, hrs⟩ := hmem
  exact ⟨rs, hrs.symm⟩

/-- The runs in a form that shows that none is empty. -/
theorem exists_runs_eq (l : List α) :
    ∃ rs : List (α × ℕ), runs l = rs.map (fun r => (r.1, r.2 + 1)) ∧
      l = rs.flatMap (fun r => List.replicate (r.2 + 1) r.1) ∧
      rs.IsChain fun a b => a.1 ≠ b.1 := by
  obtain ⟨rs, hrs⟩ := exists_splitBy_eq l
  refine ⟨rs, ?_, ?_, ?_⟩
  · rw [runs, hrs, List.filterMap_map, ← List.filterMap_eq_map]
    simp [Function.comp_def, List.replicate_succ]
  · rw [List.flatMap_def, ← hrs, List.flatten_splitBy]
  · have hchain := List.isChain_getLast_head_splitBy (· == ·) l
    rw [hrs, List.isChain_map] at hchain
    simpa using hchain

theorem flatMap_expand_runs (l : List α) : (runs l).flatMap expand = l := by
  obtain ⟨rs, hruns, hl, _⟩ := exists_runs_eq l
  rw [hruns, List.flatMap_map]
  exact hl.symm

theorem pos_of_mem_runs {l : List α} {r : α × ℕ} (hr : r ∈ runs l) :
    0 < r.2 := by
  obtain ⟨rs, hruns, _, _⟩ := exists_runs_eq l
  rw [hruns, List.mem_map] at hr
  obtain ⟨r', _, rfl⟩ := hr
  exact Nat.succ_pos _

theorem isChain_runs (l : List α) :
    (runs l).IsChain fun a b => a.1 ≠ b.1 := by
  obtain ⟨rs, hruns, _, hchain⟩ := exists_runs_eq l
  rw [hruns, List.isChain_map]
  exact hchain

end EmbBoard.RunLength
