import Kvist.TaskQueue.Decode
import Kvist.TaskQueue.Readiness
import Kvist.TaskQueue.ValidQueue

/-!
# Task commands on the queue

What `task transition`, `task finalize`, the pre-spawn fence and the fenced recovery store in
`TODOS.yaml`. The attempt journals, the lock and the clock are outside: what a command learns
from them is an argument. A command that is refused stores nothing, with one exception, a tampered
acceptance, which stores a fence and is refused.
-/

set_option autoImplicit false

namespace Kvist.Queue

open Text

/-- The failures of the task commands, without the paths in them. -/
inductive KvistError where
  | taskNotFound (taskId : String)
  | taskTransitionInvalid (taskId source target reason : String)
  | taskNotReady (taskId reason : String)
  | taskQueueUnavailable (reason : String)
  | queueRefused (failure : Failure)
  deriving DecidableEq, Repr

/-- `all_states`. -/
def TaskStatus.allStates : List TaskStatus :=
  [.pending, .inProgress, .blocked, .awaitingDecision, .completed]

/-- `transitive_dependencies_completed`: the walk of `dependencies_completed` once more. -/
def transitiveDependenciesCompleted (task : Task) (tasks : List Task) : Bool :=
  dependenciesCompleted task tasks == .ok true

/-- The recorded dependencies alone. -/
def directDependenciesCompleted (task : Task) (tasks : List Task) : Bool :=
  task.dependsOn.all fun dependency =>
    (taskById tasks dependency).any (·.status == .completed)

/-- `task_is_ready`. -/
def taskIsReady (task : Task) (tasks : List Task) : Bool :=
  task.status == .pending && directDependenciesCompleted task tasks &&
    transitiveDependenciesCompleted task tasks

/-- `transition_error`. -/
def transitionError (task : Task) (target : TaskStatus) (reason : String) : KvistError :=
  let legal := (TaskStatus.allStates.filter task.status.canTransitionTo).map taskStatusName
  let legalText := if legal.isEmpty then "(none; terminal state)" else ", ".intercalate legal
  .taskTransitionInvalid task.id (taskStatusName task.status) (taskStatusName target)
    (reason ++ "; legal from `" ++ taskStatusName task.status ++ "`: " ++ legalText ++
      " — see `kvist help task-states`")

/-- The last two arms of `validate_transition`. -/
def refuseReason (task : Task) (target : TaskStatus) (reason : Option String) :
    Except KvistError Unit :=
  ensure reason.isNone (transitionError task target
    "`--reason` is permitted only when status is blocked or awaiting-decision")

/-- `validate_transition`. -/
def validateTransition (task : Task) (tasks : List Task) (target : TaskStatus)
    (reason : Option String) : Except KvistError Unit := do
  ensure (task.status.canTransitionTo target) (transitionError task target
    "the version-1 state machine does not allow this transition")
  match target with
  | .inProgress => do
      ensure ([TaskStatus.pending, .blocked, .awaitingDecision].contains task.status &&
          directDependenciesCompleted task tasks && transitiveDependenciesCompleted task tasks)
        (.taskNotReady task.id ("it must be pending, blocked or awaiting-decision with all " ++
          "dependency-chain tasks completed — see `kvist help task-states`"))
      refuseReason task target reason
  | .completed => do
      ensure (task.status == .inProgress) (transitionError task target
        "only an in-progress task may be completed")
      refuseReason task target reason
  | .blocked | .awaitingDecision =>
      ensure (reason.any fun text => !isBlank text) (transitionError task target
        "`--reason` must be nonblank when status is blocked or awaiting-decision")
  | .pending => refuseReason task target reason

/-! ## The attempts of the component -/

/-- What the commands read outside the queue: whether a decision is pending, and the attempts in
a task's journal that are not recovered at the status of the task. -/
structure Evidence where
  ensureNoPending : Except KvistError Unit
  unresolved : Task → Except KvistError (List String)

/-- `unresolved_attempt_error`. -/
def unresolvedAttemptError (component taskId : String) (attemptIds : List String) : KvistError :=
  let attempts := ", ".intercalate attemptIds
  let command :=
    match attemptIds with
    | [attemptId] =>
        "kvist task finalize " ++ component ++ " " ++ taskId ++ " " ++ attemptId ++
          " block --reason \"<why you are abandoning it>\""
    | _ =>
        "kvist task finalize " ++ component ++ " " ++ taskId ++
          " <ATTEMPT_ID> block --reason \"...\" (one command per attempt: " ++ attempts ++ ")"
  .taskQueueUnavailable ("task `" ++ taskId ++ "` has an unresolved authenticated attempt (" ++
    attempts ++ ") in its journal that must be dispositioned before another transition. " ++
    "Abandon it with: " ++ command ++ ". `kvist task recover " ++ component ++ " " ++ taskId ++
    " <ATTEMPT_ID> --disposition execution-did-not-start` applies only with authenticated " ++
    "no-launch evidence. Do not delete evidence or blindly replay the task")

/-- One turn of the loop of `ensure_component_attempts_recovered_except`, with the check of the
journal in `ensure_task_attempt_recovered`. -/
def ensureTaskAttemptRecovered (evidence : Evidence) (component : String)
    (permitted : Option String) (task : Task) : Except KvistError Unit := do
  match task.recoveryState with
  | some state =>
      ensure (some state.attemptId == permitted)
        (unresolvedAttemptError component task.id [state.attemptId])
  | none => .ok ()
  let attempts ← evidence.unresolved task
  let unresolved := attempts.filter fun attemptId => some attemptId != permitted
  ensure unresolved.isEmpty (unresolvedAttemptError component task.id unresolved)

/-- `ensure_component_attempts_recovered_except`. -/
def ensureComponentAttemptsRecoveredExcept (evidence : Evidence) (component : String)
    (tasks : List Task) (permitted : Option (String × String)) : Except KvistError Unit := do
  evidence.ensureNoPending
  checkAll (fun task => ensureTaskAttemptRecovered evidence component
    (permitted.bind fun attempt => if task.id = attempt.1 then some attempt.2 else none) task)
    tasks

/-- `ensure_other_task_attempts_recovered`. -/
def ensureOtherTaskAttemptsRecovered (evidence : Evidence) (component : String)
    (tasks : List Task) (taskId : String) : Except KvistError Unit := do
  evidence.ensureNoPending
  checkAll (ensureTaskAttemptRecovered evidence component none)
    (tasks.filter fun task => task.id != taskId)

/-! ## The commands -/

/-- The position of a task, and the task there. -/
def locate (queue : TaskQueue) (taskId : String) : Except KvistError (Nat × Task) := do
  let index ← okOr (queue.tasks.findIdx? fun task => task.id == taskId) (.taskNotFound taskId)
  let task ← okOr queue.tasks[index]? (.queueRefused .panicked)
  .ok (index, task)

/-- The queue with another task at a position, which is stored when `serialize` accepts it. -/
def storeTask (queue : TaskQueue) (index : Nat) (task : Task) : Except KvistError TaskQueue :=
  let replaced := { queue with tasks := queue.tasks.set index task }
  match serialize replaced with
  | .ok _ => .ok replaced
  | .error failure => .error (.queueRefused failure)

/-- The fields that `transition_locked` writes. -/
def Task.transitioned (task : Task) (target : TaskStatus) (reason : Option String)
    (timestamp : Timestamp) : Task :=
  { task with
    status := target
    timestamps := { task.timestamps with
      updatedAt := timestamp
      completedAt := if target == .completed then some timestamp else none }
    blockedReason := if target.isPaused then some (reason.getD "") else none }

/-- `transition_locked`. -/
def transitionLocked (evidence : Evidence) (component : String) (queue : TaskQueue)
    (taskId : String) (target : TaskStatus) (reason : Option String) (timestamp : Timestamp)
    (permittedAttempt : Option String) : Except KvistError TaskQueue := do
  ensureComponentAttemptsRecoveredExcept evidence component queue.tasks
    (permittedAttempt.map fun attemptId => (taskId, attemptId))
  let (index, task) ← locate queue taskId
  validateTransition task queue.tasks target reason
  storeTask queue index (task.transitioned target reason timestamp)

/-- The fence that `task finalize` and the pre-spawn failure put on a task. -/
def Task.fenced (task : Task) (attemptId reason : String) : Task :=
  { task with recoveryState := some { state := .fenced, attemptId, reason } }

/-- `already_accepted`. -/
def alreadyAccepted (task : Task) (attemptId : String) : Bool :=
  task.status == .completed && task.disposition == some .accept &&
    task.acceptanceId == some attemptId

/-- The check of `finalize` between the other attempts and the evidence of this one. -/
def checkAcceptance (task : Task) (tasks : List Task) (attemptId : String) (commit : Bool) :
    Except KvistError Unit :=
  if alreadyAccepted task attemptId then
    ensure (!commit) (.taskQueueUnavailable
      ("this task attempt is already accepted; finish missing final evidence without " ++
        "--commit, or retry a reported pending commit with " ++
        "`kvist component commit <ACCEPTANCE_ID>`"))
  else validateTransition task tasks .completed none

/-- The fields that an acceptance writes. -/
def Task.accepted (task : Task) (attemptId : String) (timestamp : Timestamp) : Task :=
  { task with
    status := .completed
    acceptanceId := some attemptId
    disposition := some .accept
    timestamps := { task.timestamps with
      updatedAt := timestamp
      completedAt := some timestamp } }

/-- What `finalize` finds in the journal of the attempt and below the write scope: whether the
attempt may be disposed, and what was tampered with. -/
structure AttemptFindings where
  identity : Except KvistError Unit
  events : Except KvistError Unit
  tampering : Option String

/-- `finalize` with an accept disposition. The first component is the queue that is stored. -/
def finalizeAccept (evidence : Evidence) (component : String) (findings : AttemptFindings)
    (queue : TaskQueue) (taskId attemptId : String) (commit : Bool) (startedAt : Timestamp) :
    TaskQueue × Except KvistError Unit :=
  let checked : Except KvistError (Nat × Task) := do
    findings.identity
    let (index, task) ← locate queue taskId
    ensure task.recoveryState.isNone (.taskQueueUnavailable
      ("an explicit recovery fence cannot be cleared by acceptance; inspect its reason and " ++
        "authenticated recovery evidence"))
    ensureOtherTaskAttemptsRecovered evidence component queue.tasks taskId
    checkAcceptance task queue.tasks attemptId commit
    findings.events
    .ok (index, task)
  match checked with
  | .error failure => (queue, .error failure)
  | .ok (index, task) =>
      match findings.tampering with
      | some tampered =>
          let refused := KvistError.taskQueueUnavailable
            ("evidence tampering detected: " ++ tampered)
          if alreadyAccepted task attemptId then (queue, .error refused)
          else
            match storeTask queue index (task.fenced attemptId "evidence-tampered") with
            | .ok stored => (stored, .error refused)
            | .error failure => (queue, .error failure)
      | none =>
          if alreadyAccepted task attemptId then (queue, .ok ())
          else
            match storeTask queue index (task.accepted attemptId startedAt) with
            | .ok stored => (stored, .ok ())
            | .error failure => (queue, .error failure)

/-- `already_blocked`. -/
def alreadyBlocked (task : Task) (reason : String) : Bool :=
  task.status == .blocked && task.disposition == some .block && task.blockedReason == some reason

def Task.disposedBlocked (task : Task) (reason : String) (timestamp : Timestamp) : Task :=
  { task with
    status := .blocked
    blockedReason := some reason
    disposition := some .block
    timestamps := { task.timestamps with
      updatedAt := timestamp
      completedAt := none } }

/-- `block_attempt_locked`. -/
def blockAttemptLocked (evidence : Evidence) (component : String) (findings : AttemptFindings)
    (queue : TaskQueue) (taskId attemptId : String) (reason : Option String)
    (timestamp : Timestamp) : Except KvistError TaskQueue := do
  let text ← okOr (reason.filter fun text => !isBlank text)
    (.taskQueueUnavailable "block disposition requires a non-blank reason")
  ensure (validAttemptId attemptId)
    (.taskQueueUnavailable "attempt ID must be a bounded `attempt-` identity")
  let (index, task) ← locate queue taskId
  ensure task.recoveryState.isNone (.taskQueueUnavailable
    ("an explicit recovery fence cannot be cleared by a block disposition; inspect its reason " ++
      "and authenticated recovery evidence"))
  ensureOtherTaskAttemptsRecovered evidence component queue.tasks taskId
  findings.identity
  findings.events
  if alreadyBlocked task text then .ok queue
  else do
    validateTransition task queue.tasks .blocked (some text)
    storeTask queue index (task.disposedBlocked text timestamp)

/-- `can_fence_pre_spawn`. -/
def canFencePreSpawn (task : Task) (tasks : List Task) : Bool :=
  match task.status with
  | .pending => taskIsReady task tasks
  | .inProgress => task.recoveryState.isNone
  | .blocked | .awaitingDecision | .completed => false

/-- `fence_pre_spawn_failure`; the attempt is the next one of the task's journal. -/
def fencePreSpawnFailure (evidence : Evidence) (component : String) (queue : TaskQueue)
    (taskId attemptId : String) (timestamp : Timestamp) : Except KvistError TaskQueue := do
  let (index, task) ← locate queue taskId
  ensure (canFencePreSpawn task queue.tasks) (.taskQueueUnavailable
    ("task `" ++ taskId ++ "` cannot be fenced for a pre-spawn failure because it is neither " ++
      "ready-pending nor a legitimate resumable in-progress task"))
  ensureComponentAttemptsRecoveredExcept evidence component queue.tasks none
  storeTask queue index ({ task with
    status := .inProgress
    timestamps := { task.timestamps with updatedAt := timestamp } }.fenced attemptId
      "runner-descriptor-open-failed")

/-- `status_from_recovery`. -/
def statusFromRecovery (status : String) : Except KvistError TaskStatus :=
  if status = "pending" then .ok .pending
  else if status = "in-progress" then .ok .inProgress
  else .error (.taskQueueUnavailable
    "prepared recovery evidence has an unsupported pre-attempt status")

/-- `recover` before a recovery decision is recorded: `preStatus` is the status that the prepared
attempt recorded, `timestamp` the one of the decision. -/
def recoverFenced (evidence : Evidence) (component : String) (queue : TaskQueue)
    (taskId attemptId preStatus : String) (timestamp : Timestamp) :
    Except KvistError TaskQueue := do
  ensure (validAttemptId attemptId)
    (.taskQueueUnavailable "attempt ID must be a bounded `attempt-` identity")
  ensureComponentAttemptsRecoveredExcept evidence component queue.tasks (some (taskId, attemptId))
  let (index, task) ← locate queue taskId
  let status ← statusFromRecovery preStatus
  ensure (task.status == .inProgress && task.recoveryState.any (·.attemptId == attemptId))
    (.taskQueueUnavailable "the requested task and attempt are not currently fenced together")
  storeTask queue index { task with
    status
    timestamps := { task.timestamps with updatedAt := timestamp }
    recoveryState := none }

/-! ## Selection -/

/-- `is_runnable_task`. -/
def isRunnableTask (task : Task) (tasks : List Task) : Bool :=
  task.recoveryState.isNone && (taskIsReady task tasks || task.status == .inProgress)

def firstReady (tasks : List Task) : Option String :=
  (tasks.find? fun task => taskIsReady task tasks).map (·.id)

/-- `select_runnable_task`. -/
def selectRunnableTask (tasks : List Task) (requested : Option String) :
    Except KvistError String := do
  let taskId ← okOr (requested.or (firstReady tasks))
    (.taskQueueUnavailable "no ready tasks available in the queue")
  let task ← okOr (tasks.find? fun task => task.id == taskId) (.taskNotFound taskId)
  ensure (isRunnableTask task tasks)
    (.taskQueueUnavailable ("task `" ++ taskId ++ "` is not ready for execution"))
  .ok taskId

/-! ## Runs -/

/-- A task command with its arguments. -/
inductive Command where
  | transition (taskId : String) (target : TaskStatus) (reason permittedAttempt : Option String)
  | accept (findings : AttemptFindings) (taskId attemptId : String) (commit : Bool)
  | block (findings : AttemptFindings) (taskId attemptId : String) (reason : Option String)
  | fence (taskId attemptId : String)
  | recover (taskId attemptId preStatus : String)

/-- A command, the time of its call, and what it reads outside the queue. -/
structure Call where
  evidence : Evidence
  component : String
  timestamp : Timestamp
  command : Command

/-- What is stored after a command that stores its queue when it succeeds. -/
def stored (queue : TaskQueue) (outcome : Except KvistError TaskQueue) :
    TaskQueue × Except KvistError Unit :=
  match outcome with
  | .ok next => (next, .ok ())
  | .error failure => (queue, .error failure)

/-- One command: the stored queue after it, and whether it is refused. -/
def perform (queue : TaskQueue) (call : Call) : TaskQueue × Except KvistError Unit :=
  match call.command with
  | .transition taskId target reason permitted =>
      stored queue (transitionLocked call.evidence call.component queue taskId target reason
        call.timestamp permitted)
  | .accept findings taskId attemptId commit =>
      finalizeAccept call.evidence call.component findings queue taskId attemptId commit
        call.timestamp
  | .block findings taskId attemptId reason =>
      stored queue (blockAttemptLocked call.evidence call.component findings queue taskId
        attemptId reason call.timestamp)
  | .fence taskId attemptId =>
      stored queue (fencePreSpawnFailure call.evidence call.component queue taskId attemptId
        call.timestamp)
  | .recover taskId attemptId preStatus =>
      stored queue (recoverFenced call.evidence call.component queue taskId attemptId preStatus
        call.timestamp)

/-- The queue after a list of commands, where each works on the record that the one before it
leaves. -/
def performAll (queue : TaskQueue) (calls : List Call) : TaskQueue :=
  calls.foldl (fun current call => (perform current call).1) queue

/-! ## The file -/

section File

variable (fromStr : String → Except String Yaml.Value)

end File

/-- The texts that a command is given and stores as they are. -/
def Command.texts : Command → List String
  | .transition _ _ reason _ | .block _ _ _ reason => reason.toList
  | .accept _ _ attemptId _ => [attemptId]
  | .fence _ _ | .recover _ _ _ => []

end Kvist.Queue
