import Mathlib.Data.List.Sort
import Mathlib.Data.String.Basic
import Kvist.TaskQueue.Validation

/-!
# Normal form of the set lists

The two lists of a task that stand for sets are sorted and made free of duplicates. A list that
passes validation is in this form already.
-/

set_option autoImplicit false

namespace Kvist.Queue

/-- `Vec::dedup`. -/
def dedupAdjacent : List String → List String
  | first :: second :: rest =>
      if first = second then dedupAdjacent (second :: rest)
      else first :: dedupAdjacent (second :: rest)
  | values => values

def sortUnique (values : List String) : List String :=
  dedupAdjacent (values.insertionSort (· ≤ ·))

def normalizeTask (task : Task) : Task :=
  { task with dependsOn := sortUnique task.dependsOn, requirements := sortUnique task.requirements }

/-- `normalize_set_lists`. -/
def normalizeSetLists (queue : TaskQueue) : TaskQueue :=
  { queue with tasks := queue.tasks.map normalizeTask }

theorem mem_dedupAdjacent (values : List String) (value : String) :
    value ∈ dedupAdjacent values ↔ value ∈ values := by
  fun_induction dedupAdjacent values with
  | case1 second rest ih => simp [ih]
  | case2 first second rest different ih => simp [ih]
  | case3 values short => exact Iff.rfl

/-- The normal form lists the same set. -/
@[simp] theorem mem_sortUnique (values : List String) (value : String) :
    value ∈ sortUnique values ↔ value ∈ values := by
  unfold sortUnique
  rw [mem_dedupAdjacent, List.mem_insertionSort]

private theorem pairwise_of_strictlySorted {values : List String}
    (sorted : isStrictlySorted values = true) : values.Pairwise (· < ·) := by
  fun_induction isStrictlySorted values with
  | case1 first second rest ih =>
      simp only [Bool.and_eq_true, decide_eq_true_eq] at sorted
      have tail := ih sorted.2
      refine List.pairwise_cons.mpr ⟨fun other member => ?_, tail⟩
      rcases List.mem_cons.mp member with rfl | later
      · exact sorted.1
      · exact sorted.1.trans (List.rel_of_pairwise_cons tail later)
  | case2 values short =>
      match values with
      | [] => exact List.Pairwise.nil
      | [value] => exact List.pairwise_singleton _ value
      | first :: second :: rest => exact absurd rfl (short first second rest)

private theorem dedupAdjacent_of_pairwise {values : List String}
    (sorted : values.Pairwise (· < ·)) : dedupAdjacent values = values := by
  fun_induction dedupAdjacent values with
  | case1 second rest ih =>
      exact absurd (List.rel_of_pairwise_cons sorted List.mem_cons_self) (lt_irrefl second)
  | case2 first second rest different ih => rw [ih (List.pairwise_cons.mp sorted).2]
  | case3 values short => rfl

theorem sortUnique_of_strictlySorted {values : List String}
    (sorted : isStrictlySorted values = true) : sortUnique values = values := by
  have increasing := pairwise_of_strictlySorted sorted
  unfold sortUnique
  rw [List.Pairwise.insertionSort_eq (increasing.imp fun less => le_of_lt less),
    dedupAdjacent_of_pairwise increasing]

theorem validateSortedUnique_sorted {values : List String} {name : String}
    (valid : validateSortedUnique values name = .ok ()) : isStrictlySorted values = true := by
  unfold validateSortedUnique at valid
  rw [bind_unit_ok_iff] at valid
  simpa [require] using valid.2

private theorem sortedLists_of_validate {task : Task} (valid : validateTask true task = .ok ()) :
    isStrictlySorted task.dependsOn = true ∧ isStrictlySorted task.requirements = true := by
  simp only [validateTask, if_true, bind_unit_ok_iff] at valid
  obtain ⟨_, _, _, dependencies, requirements, _⟩ := valid
  exact ⟨validateSortedUnique_sorted dependencies, validateSortedUnique_sorted requirements⟩

theorem normalizeTask_of_validate {task : Task} (valid : validateTask true task = .ok ()) :
    normalizeTask task = task := by
  obtain ⟨dependencies, requirements⟩ := sortedLists_of_validate valid
  unfold normalizeTask
  rw [sortUnique_of_strictlySorted dependencies, sortUnique_of_strictlySorted requirements]

end Kvist.Queue
