import Mathlib.Data.List.Nodup
import Kvist.Text

/-!
# Task queue

The version-1 component task queue `TODOS.yaml` as the program holds it in memory: the
component's reviewed revisions and the tasks in declared order. `Failure` adds to the
queue errors of the source the two ways in which a call returns no value at all.
-/

set_option autoImplicit false

namespace Kvist.Queue

/-- `TODO_QUEUE_VERSION`. -/
def todoQueueVersion : Nat := 1

def maxTaskIdChars : Nat := 64
def maxTitleChars : Nat := 120
def maxDetailChars : Nat := 4096
def sha256Prefix : String := "sha256:"
def sha256HexLength : Nat := 64

/-- A canonical whole-second UTC RFC 3339 instant; the text is checked by `validate` only. -/
@[ext] structure Timestamp where
  value : String
  deriving DecidableEq, Repr

/-- The derived order on instants is the order of their texts. -/
def Timestamp.before (left right : Timestamp) : Bool := left.value < right.value

/-- `Timestamp::default_instant`. -/
def Timestamp.defaultInstant : Timestamp := ⟨"1970-01-01T00:00:00Z"⟩

structure ParentContract where
  path : String
  revision : String
  deriving DecidableEq, Repr

inductive RevalidationState where
  | current
  | stale
  deriving DecidableEq, Repr

inductive StalenessCauseKind where
  | componentRequirementsRevisionChanged
  | componentContractRevisionChanged
  | componentDesignRevisionChanged
  | parentContractRevisionChanged
  deriving DecidableEq, Repr

structure StalenessCause where
  kind : StalenessCauseKind
  path : String
  expectedRevision : String
  observedRevision : String
  deriving DecidableEq, Repr

structure Revalidation where
  state : RevalidationState
  checkedAt : Timestamp
  staleSince : Option Timestamp
  causes : List StalenessCause
  deriving DecidableEq, Repr

structure ComponentState where
  requirementsRevision : String
  contractRevision : String
  designRevision : String
  parentContract : Option ParentContract
  revalidation : Revalidation
  deriving DecidableEq, Repr

inductive TaskKind where
  | test
  | implementation
  | securityAudit
  | complianceReview
  deriving DecidableEq, Repr

inductive TaskStatus where
  | pending
  | inProgress
  | blocked
  | awaitingDecision
  | completed
  deriving DecidableEq, Repr

/-- `can_transition_to`. -/
def TaskStatus.canTransitionTo : TaskStatus → TaskStatus → Bool
  | .pending, .inProgress | .pending, .blocked => true
  | .inProgress, .pending | .inProgress, .blocked | .inProgress, .completed
  | .inProgress, .awaitingDecision => true
  | .blocked, .pending | .blocked, .inProgress => true
  | .awaitingDecision, .pending | .awaitingDecision, .inProgress => true
  | _, _ => false

inductive RecoveryStateKind where
  | fenced
  deriving DecidableEq, Repr

structure RecoveryState where
  state : RecoveryStateKind
  attemptId : String
  reason : String
  deriving DecidableEq, Repr

inductive FinalizeDispositionArgument where
  | accept
  | block
  deriving DecidableEq, Repr

structure TaskTimestamps where
  createdAt : Timestamp
  updatedAt : Timestamp
  completedAt : Option Timestamp
  recovered : Bool
  deriving DecidableEq, Repr

@[ext] structure Task where
  id : String
  title : String
  description : String
  context : String
  purpose : String
  expectedOutcome : String
  kind : TaskKind
  status : TaskStatus
  dependsOn : List String
  requirements : List String
  timestamps : TaskTimestamps
  blockedReason : Option String
  recoveryState : Option RecoveryState
  acceptanceId : Option String
  disposition : Option FinalizeDispositionArgument
  deriving DecidableEq, Repr

structure TaskQueue where
  schemaVersion : Nat
  component : ComponentState
  tasks : List Task
  deriving DecidableEq, Repr

/-- `TaskQueueError`, with the YAML library's message as text. -/
inductive TaskQueueError where
  | yaml (reason : String)
  | unsupportedVersion (found supported : Nat)
  | invalid (reason : String)
  deriving DecidableEq, Repr

/-- What a queue operation gives instead of a value. `panicked` stands for an index that
is out of range or a map key that is absent, `outOfFuel` for a loop that did not end within
the bound the model gives it. -/
inductive Failure where
  | error (reason : TaskQueueError)
  | panicked
  | outOfFuel
  deriving DecidableEq, Repr

/-- `TaskQueueError::invalid`. -/
def Failure.invalid (reason : String) : Failure := .error (.invalid reason)

def taskKindName : TaskKind → String
  | .test => "test"
  | .implementation => "implementation"
  | .securityAudit => "security-audit"
  | .complianceReview => "compliance-review"

def taskStatusName : TaskStatus → String
  | .pending => "pending"
  | .inProgress => "in-progress"
  | .blocked => "blocked"
  | .awaitingDecision => "awaiting-decision"
  | .completed => "completed"

def revalidationStateName : RevalidationState → String
  | .current => "current"
  | .stale => "stale"

def stalenessCauseKindName : StalenessCauseKind → String
  | .componentRequirementsRevisionChanged => "component-requirements-revision-changed"
  | .componentContractRevisionChanged => "component-contract-revision-changed"
  | .componentDesignRevisionChanged => "component-design-revision-changed"
  | .parentContractRevisionChanged => "parent-contract-revision-changed"

def recoveryStateName : RecoveryStateKind → String
  | .fenced => "fenced"

def dispositionName : FinalizeDispositionArgument → String
  | .accept => "accept"
  | .block => "block"

/-- `task_by_id`: the first task with this identity. -/
def taskById (tasks : List Task) (id : String) : Option Task :=
  tasks.find? fun task => task.id == id

/-- `ready_task_ids`: pending tasks whose recorded dependencies are all completed. -/
def readyTaskIds (tasks : List Task) : List String :=
  (tasks.filter fun task =>
    task.status == .pending &&
      task.dependsOn.all fun dependency =>
        tasks.any fun other => other.id == dependency && other.status == .completed).map (·.id)

/-- `next_ready_task_id`. -/
def nextReadyTaskId (tasks : List Task) : Option String := (readyTaskIds tasks).head?

theorem taskById_some {tasks : List Task} {id : String} {task : Task}
    (found : taskById tasks id = some task) : task ∈ tasks ∧ task.id = id :=
  ⟨List.mem_of_find?_eq_some found, by simpa using List.find?_some found⟩

theorem taskById_isSome_iff {tasks : List Task} {id : String} :
    (taskById tasks id).isSome = true ↔ ∃ task ∈ tasks, task.id = id := by
  simp [taskById, List.find?_isSome]

/-- With distinct identities, looking a task up by its own identity finds that task. -/
theorem taskById_of_mem {tasks : List Task} (unique : (tasks.map (·.id)).Nodup) {task : Task}
    (member : task ∈ tasks) : taskById tasks task.id = some task := by
  have present : (taskById tasks task.id).isSome = true :=
    taskById_isSome_iff.mpr ⟨task, member, rfl⟩
  obtain ⟨other, found⟩ := Option.isSome_iff_exists.mp present
  obtain ⟨otherMember, same⟩ := taskById_some found
  rw [found, List.inj_on_of_nodup_map unique otherMember member same]

theorem canTransitionTo_completed_source (next : TaskStatus) :
    TaskStatus.completed.canTransitionTo next = false := by
  cases next <;> rfl

end Kvist.Queue
