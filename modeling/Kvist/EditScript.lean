import Mathlib.Data.List.Basic

/-!
# Edit scripts

The hunks of an edit script keep, remove and add lines. The lines between them are kept. A hunk says
behind how many lines it begins, before the edit and after it.
-/

set_option autoImplicit false

namespace Kvist.EditScript

variable {Line : Type}

/-- One part stands behind another. -/
theorem prefix_append_iff {first second whole : List Line} :
    first ++ second <+: whole ↔ first <+: whole ∧ second <+: whole.drop first.length := by
  constructor
  · rintro ⟨rest, rfl⟩
    refine ⟨⟨second ++ rest, (List.append_assoc _ _ _).symm⟩, rest, ?_⟩
    rw [List.append_assoc, List.drop_left]
  · rintro ⟨⟨rest, rfl⟩, later⟩
    rw [List.drop_left] at later
    obtain ⟨last, rfl⟩ := later
    exact ⟨last, List.append_assoc _ _ _⟩

inductive Edit where
  | keep
  | remove
  | add
  deriving DecidableEq, Repr

def Edit.inverse : Edit → Edit
  | .keep => .keep
  | .remove => .add
  | .add => .remove

@[simp] theorem Edit.inverse_inverse (edit : Edit) : edit.inverse.inverse = edit := by
  cases edit <;> rfl

/-- The lines that stand there before the edit. -/
def before : List (Edit × Line) → List Line
  | [] => []
  | (.add, _) :: rest => before rest
  | (.keep, line) :: rest => line :: before rest
  | (.remove, line) :: rest => line :: before rest

/-- The lines that stand there after the edit. -/
def after : List (Edit × Line) → List Line
  | [] => []
  | (.remove, _) :: rest => after rest
  | (.keep, line) :: rest => line :: after rest
  | (.add, line) :: rest => line :: after rest

theorem before_append (items others : List (Edit × Line)) :
    before (items ++ others) = before items ++ before others := by
  induction items with
  | nil => rfl
  | cons item rest ih =>
      obtain ⟨edit, line⟩ := item
      cases edit with
      | keep => exact congrArg (line :: ·) ih
      | remove => exact congrArg (line :: ·) ih
      | add => exact ih

theorem after_append (items others : List (Edit × Line)) :
    after (items ++ others) = after items ++ after others := by
  induction items with
  | nil => rfl
  | cons item rest ih =>
      obtain ⟨edit, line⟩ := item
      cases edit with
      | keep => exact congrArg (line :: ·) ih
      | remove => exact ih
      | add => exact congrArg (line :: ·) ih

def inverse (items : List (Edit × Line)) : List (Edit × Line) :=
  items.map fun item => (item.1.inverse, item.2)

@[simp] theorem inverse_inverse (items : List (Edit × Line)) : inverse (inverse items) = items := by
  simp [inverse, Function.comp_def]

@[simp] theorem before_inverse (items : List (Edit × Line)) :
    before (inverse items) = after items := by
  induction items with
  | nil => rfl
  | cons item rest ih =>
      obtain ⟨edit, line⟩ := item
      cases edit with
      | keep => exact congrArg (line :: ·) ih
      | remove => exact ih
      | add => exact congrArg (line :: ·) ih

@[simp] theorem after_inverse (items : List (Edit × Line)) :
    after (inverse items) = before items := by
  rw [← before_inverse, inverse_inverse]

theorem before_eq_after {items : List (Edit × Line)} (kept : ∀ item ∈ items, item.1 = .keep) :
    before items = after items := by
  induction items with
  | nil => rfl
  | cons item rest ih =>
      obtain ⟨edit, line⟩ := item
      obtain ⟨rfl, others⟩ := List.forall_mem_cons.mp kept
      exact congrArg (line :: ·) (ih others)

structure Hunk (Line : Type) where
  oldIndex : Nat
  newIndex : Nat
  items : List (Edit × Line)

def Hunk.inverse (hunk : Hunk Line) : Hunk Line :=
  ⟨hunk.newIndex, hunk.oldIndex, EditScript.inverse hunk.items⟩

/-- The hunks lead from one text to the other, both from a place on. -/
inductive Script : Nat → Nat → List (Hunk Line) → List Line → List Line → Prop
  | rest {oldIndex newIndex : Nat} (lines : List Line) : Script oldIndex newIndex [] lines lines
  | hunk {oldIndex newIndex : Nat} (kept : List Line) {hunk : Hunk Line} {hunks : List (Hunk Line)}
      {old new : List Line} (oldAt : hunk.oldIndex = oldIndex + kept.length)
      (newAt : hunk.newIndex = newIndex + kept.length)
      (later : Script (hunk.oldIndex + (before hunk.items).length)
        (hunk.newIndex + (after hunk.items).length) hunks old new) :
      Script oldIndex newIndex (hunk :: hunks) (kept ++ before hunk.items ++ old)
        (kept ++ after hunk.items ++ new)

/-- Backwards, the inverse hunks lead from the second text to the first one. -/
theorem Script.inverse {oldIndex newIndex : Nat} {hunks : List (Hunk Line)} {old new : List Line}
    (script : Script oldIndex newIndex hunks old new) :
    Script newIndex oldIndex (hunks.map Hunk.inverse) new old := by
  induction script with
  | rest lines => exact .rest lines
  | @hunk oldIndex newIndex kept hunk hunks old new oldAt newAt _ ih =>
      have turned : Script newIndex oldIndex (hunk.inverse :: hunks.map Hunk.inverse)
          (kept ++ before hunk.inverse.items ++ new) (kept ++ after hunk.inverse.items ++ old) := by
        refine .hunk kept newAt oldAt ?_
        simpa only [Hunk.inverse, before_inverse, after_inverse] using ih
      simpa only [Hunk.inverse, before_inverse, after_inverse, List.map_cons] using turned

theorem Script.changed {oldIndex newIndex : Nat} {hunks : List (Hunk Line)} {old new : List Line}
    (script : Script oldIndex newIndex hunks old new) (different : old ≠ new) :
    ∃ hunk ∈ hunks, ∃ item ∈ hunk.items, item.1 ≠ .keep := by
  induction script with
  | rest lines => exact absurd rfl different
  | @hunk oldIndex newIndex kept hunk hunks old new _ _ _ ih =>
      by_cases here : ∀ item ∈ hunk.items, item.1 = .keep
      · rw [before_eq_after here] at different
        obtain ⟨changed, member, found⟩ := ih fun same => different (same ▸ rfl)
        exact ⟨changed, List.mem_cons_of_mem _ member, found⟩
      · push Not at here
        exact ⟨hunk, List.mem_cons_self, here⟩

end Kvist.EditScript
