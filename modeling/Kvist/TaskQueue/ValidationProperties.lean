import Kvist.TaskQueue.Validation

/-!
# Validation reports its failures

The local checks of a queue give a value or one of the errors of the source: they neither
panic nor run out of the bounds of the model.
-/

set_option autoImplicit false

namespace Kvist.Queue

variable {α β : Type}

/-- The only failures are errors that the source reports. -/
def Reported (result : Except Failure α) : Prop :=
  ∀ failure, result = .error failure → ∃ reason, failure = .error reason

theorem Reported.ok (value : α) : Reported (.ok value) := fun _ failed => by cases failed

theorem Reported.invalid (reason : String) : Reported (invalid (α := α) reason) :=
  fun _ failed => by cases failed; exact ⟨_, rfl⟩

theorem Reported.require (condition : Bool) (reason : String) :
    Reported (require condition reason) := by
  cases condition with
  | true => exact .ok ()
  | false => exact .invalid reason

theorem Reported.bind {first : Except Failure α} {next : α → Except Failure β}
    (reported : Reported first) (continued : ∀ value, first = .ok value → Reported (next value)) :
    Reported (first >>= next) := by
  cases called : first with
  | error failure =>
      intro other failed
      cases failed
      exact reported failure called
  | ok value => exact continued value called

/-- A sequence of checks whose results are not used. -/
theorem Reported.andThen {first : Except Failure Unit} {next : Except Failure α}
    (reported : Reported first) (continued : Reported next) :
    Reported (first >>= fun _ => next) := reported.bind fun _ _ => continued

theorem Reported.checkAll {check : α → Except Failure Unit} {values : List α}
    (each : ∀ value ∈ values, Reported (check value)) : Reported (checkAll check values) := by
  intro failure failed
  obtain ⟨value, member, failed⟩ := checkAll_error failed
  exact each value member failure failed

theorem Timestamp.validate_reported (timestamp : Timestamp) (name : String) :
    Reported (timestamp.validate name) :=
  .andThen (.require _ _) (.require _ _)

theorem validateText_reported (value name : String) (maximumChars : Nat) (singleLine : Bool) :
    Reported (validateText value name maximumChars singleLine) := .require _ _

theorem validateSortedUnique_reported (values : List String) (name : String) :
    Reported (validateSortedUnique values name) := .andThen (.require _ _) (.require _ _)

theorem validateRequirement_reported (taskId requirement : String) :
    Reported (validateRequirement taskId requirement) := by
  rw [validateRequirement]
  split
  · exact .invalid _
  · exact .require _ _

private theorem validateTimestamps_reported (task : Task) : Reported (validateTimestamps task) :=
  .andThen (task.timestamps.createdAt.validate_reported _)
    (.andThen (task.timestamps.updatedAt.validate_reported _) (.require _ _))

private theorem validateCompletion_reported (task : Task) : Reported (validateCompletion task) := by
  rw [validateCompletion]
  split
  · exact .andThen (Timestamp.validate_reported _ _) (.require _ _)
  · exact .require _ _
  · exact .invalid _
  · exact .ok ()

private theorem validateBlockedReason_reported (task : Task) :
    Reported (validateBlockedReason task) := by
  rw [validateBlockedReason]
  split
  · exact .require _ _
  · exact .invalid _
  · exact .ok ()
  · exact .invalid _

private theorem validateRecoveryState_reported (task : Task) :
    Reported (validateRecoveryState task) := by
  rw [validateRecoveryState]
  split
  · exact .andThen (.require _ _) (.andThen (.require _ _) (validateText_reported _ _ _ _))
  · exact .invalid _
  · exact .ok ()

theorem validateTask_reported (setOrder : Bool) (task : Task) :
    Reported (validateTask setOrder task) := by
  have rest : Reported (do
      checkAll (validateRequirement task.id) task.requirements
      validateTimestamps task
      validateCompletion task
      validateBlockedReason task
      validateRecoveryState task) :=
    .andThen (.checkAll fun _ _ => validateRequirement_reported _ _)
      (.andThen (validateTimestamps_reported task) (.andThen (validateCompletion_reported task)
        (.andThen (validateBlockedReason_reported task) (validateRecoveryState_reported task))))
  rw [validateTask]
  refine .andThen (.require _ _) (.andThen (validateText_reported _ _ _ _)
    (.andThen (.checkAll fun _ _ => validateText_reported _ _ _ _) ?_))
  cases setOrder with
  | false => exact rest
  | true =>
      exact .andThen (validateSortedUnique_reported _ _)
        (.andThen (validateSortedUnique_reported _ _) rest)

end Kvist.Queue
