import Mathlib.Data.Option.Basic

/-!
# Assignments

Changes of a table of values that give some of its keys a new value, whatever stood there. They
compose, and repeating one hides that it was made before.
-/

set_option autoImplicit false

namespace Kvist.Assignments

variable {Key Value : Type}

/-- The values after a change that gives new ones to some of the keys. -/
def assign (changes : Key → Option Value) (values : Key → Value) : Key → Value :=
  fun key => (changes key).getD (values key)

def IsAssignment (change : (Key → Value) → Key → Value) : Prop :=
  ∃ changes, ∀ values, change values = assign changes values

variable {first second : (Key → Value) → Key → Value}

theorem isAssignment_assign (changes : Key → Option Value) :
    IsAssignment (assign changes) := ⟨changes, fun _ => rfl⟩

theorem isAssignment_id : IsAssignment fun values : Key → Value => values :=
  ⟨fun _ => none, fun _ => rfl⟩

/-- What comes last counts. -/
theorem IsAssignment.comp (later : IsAssignment second) (earlier : IsAssignment first) :
    IsAssignment fun values => second (first values) := by
  obtain ⟨late, lateEq⟩ := later
  obtain ⟨early, earlyEq⟩ := earlier
  refine ⟨fun key => (late key).or (early key), fun values => ?_⟩
  funext key
  change second (first values) key = _
  rw [lateEq, earlyEq, assign, assign, assign]
  cases late key with
  | none => rfl
  | some value => rfl

theorem isAssignment_foldl {Item : Type} {change : (Key → Value) → Item → Key → Value}
    (items : List Item) (each : ∀ item ∈ items, IsAssignment fun values => change values item) :
    IsAssignment fun values => items.foldl change values := by
  induction items with
  | nil => exact isAssignment_id
  | cons item rest ih =>
      rw [List.forall_mem_cons] at each
      exact (ih each.2).comp each.1

/-- A change that is made again hides that it was made before the other one. -/
theorem IsAssignment.again (outer : IsAssignment second) (inner : IsAssignment first)
    (values : Key → Value) : second (first (second values)) = second (first values) := by
  obtain ⟨changes, changesEq⟩ := outer
  obtain ⟨others, othersEq⟩ := inner
  funext key
  simp only [changesEq, othersEq, assign]
  cases changes key with
  | none => rfl
  | some value => rfl

end Kvist.Assignments
