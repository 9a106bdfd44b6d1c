import Kvist.Closure
import Kvist.Decision.Documents
import Kvist.TaskQueue.Emit
import Kvist.TaskQueue.Normalize

/-!
# The queue of a draft

A draft adds, updates and retires tasks around the one that waits for the decision. Resolving makes
that task pending behind what is added; withdrawing retires it with everything that depends on it.
-/

set_option autoImplicit false

namespace Kvist.Decision

open Json Queue

/-- What the planner asks of the code around it. -/
structure IntentSources where
  digest : List UInt8 → String
  validateDocument : ValidateDocument
  parent : TaskContext → Except Failure (Option ParentContract)

structure Changes where
  outputs : Texts
  retired : List Task
  retirementReasons : Texts
  rationale : String

/-- The task a decision is about, as it is picked when the component is captured. -/
def selectTask (context : TaskContext) (queue : TaskQueue) (task : Option String) :
    Except Failure Task :=
  let paused := queue.tasks.filter fun task =>
    task.status == .awaitingDecision || task.status == .blocked
  match task, paused with
  | some id, paused =>
      okOr (taskById paused id)
        (fail context.componentDir "selected task is not a known paused task")
  | none, [task] => .ok task
  | none, _ =>
      .error (fail context.componentDir
        "expected exactly one paused task; specify --task to resolve ambiguity")

/-! ## Edits -/

def editable (task : Task) (selected : String) (path : PathBytes) : Except Failure Unit :=
  ensure (task.recoveryState.isNone && (task.status == .pending ||
      (task.id == selected && (task.status == .blocked || task.status == .awaitingDecision))))
    (fail path ("cannot update completed, live, fenced or unrelated paused task \x60" ++ task.id ++
      "\x60"))

def authored (existing : Task) (definition : TaskDefinition) : Task :=
  { existing with
    title := definition.title
    description := definition.description
    context := definition.context
    purpose := definition.purpose
    expectedOutcome := definition.expectedOutcome
    kind := definition.kind
    dependsOn := sortUnique definition.dependsOn
    requirements := sortUnique definition.requirements }

def newTask (definition : TaskDefinition) (instant : Timestamp) : Task :=
  authored
    { id := definition.id
      title := ""
      description := ""
      context := ""
      purpose := ""
      expectedOutcome := ""
      kind := definition.kind
      status := .pending
      dependsOn := []
      requirements := []
      timestamps :=
        { createdAt := instant, updatedAt := instant, completedAt := none, recovered := false }
      blockedReason := none
      recoveryState := none
      acceptanceId := none
      disposition := none }
    definition

def updateTask (definition : TaskDefinition) (instant : Timestamp) (existing : Task) : Task :=
  let task := authored existing definition
  { task with timestamps := { task.timestamps with updatedAt := instant } }

def TaskEdit.id : TaskEdit → String
  | .add task | .update task => task.id
  | .retire id _ => id

/-- The edits so far: the tasks as they are updated, and what is added and retired. -/
structure Edited where
  tasks : List Task
  seen : Finset String
  additions : List Task
  retirements : Texts

def applyEdit (context : TaskContext) (selected : String) (instant : Timestamp) (edited : Edited)
    (edit : TaskEdit) : Except Failure Edited := do
  ensure (edit.id ∉ edited.seen)
    (fail context.componentDir ("duplicate/conflicting edit for \x60" ++ edit.id ++ "\x60"))
  let edited := { edited with seen := insert edit.id edited.seen }
  match edit with
  | .add task => do
      ensure (!edited.tasks.any (·.id == task.id))
        (fail context.componentDir ("added task \x60" ++ task.id ++ "\x60 already exists"))
      return { edited with additions := edited.additions ++ [newTask task instant] }
  | .update task => do
      let existing ← okOr (taskById edited.tasks task.id)
        (fail context.componentDir ("unknown updated task \x60" ++ task.id ++ "\x60"))
      editable existing selected context.componentDir
      let place := edited.tasks.findIdx (·.id == task.id)
      return { edited with tasks := edited.tasks.modify place (updateTask task instant) }
  | .retire id reason => do
      let task ← okOr (taskById edited.tasks id)
        (fail context.componentDir ("unknown retired task \x60" ++ id ++ "\x60"))
      ensure (task.recoveryState.isNone && task.status != .completed &&
          task.status != .inProgress && !Text.isBlank reason && (bytesOf reason).length ≤ 4096)
        (fail context.componentDir ("retirement requires an uncompleted, non-live, non-fenced " ++
          "task and a bounded explicit reason"))
      return { edited with retirements := edited.retirements.insert id reason }

def applyEdits (context : TaskContext) (selected : String) (instant : Timestamp)
    (tasks : List Task) (edits : List TaskEdit) : Except Failure Edited :=
  edits.foldlM (applyEdit context selected instant)
    { tasks := tasks, seen := ∅, additions := [], retirements := OrderedMap.empty }

/-! ## Disposition -/

def resolveTask (additions : List Task) (instant : Timestamp) (task : Task) : Task :=
  { task with
    status := .pending
    blockedReason := none
    timestamps := { task.timestamps with updatedAt := instant, completedAt := none }
    dependsOn := sortUnique (task.dependsOn ++ additions.map (·.id)) }

def dependants (tasks : List Task) (selected : String) : Finset String :=
  Closure.closure (tasks.map fun task => (task.id, task.dependsOn)) {selected}

def dispose (context : TaskContext) (input : Capture) (disposition : Disposition)
    (selected : Nat) (instant : Timestamp) (edited : Edited) :
    Except Failure (List Task × List Task) :=
  match disposition with
  | .resolve => do
      ensure edited.retirements.keys.isEmpty
        (fail context.componentDir
          "resolve cannot retire work; use an explicit withdraw disposition")
      return (edited.tasks.modify selected (resolveTask edited.additions instant), [])
  | .withdraw => do
      let closure := dependants input.queue.tasks input.task.id
      ensure (closure = edited.retirements.keys.toFinset)
        (fail context.componentDir ("withdraw must explicitly retire the selected task and its " ++
          "entire affected dependant closure, and no unrelated tasks"))
      return (edited.tasks, input.queue.tasks.filter (·.id ∈ closure))

/-- The additions go in front of the selected task, and what is retired goes out. -/
def rescheduled (tasks : List Task) (selected : Nat) (edited : Edited) : List Task :=
  (tasks.take selected ++ edited.additions ++ tasks.drop selected).filter fun task =>
    (edited.retirements.get task.id).isNone

/-! ## The whole change -/

def revisedComponent (around : IntentSources) (component : ComponentState) (documents : Texts)
    (parent : Option ParentContract) (instant : Timestamp) : ComponentState :=
  let revision name := around.digest (bytesOf ((documents.get name).getD ""))
  { requirementsRevision := revision "REQUIREMENTS.md"
    contractRevision := revision "CONTRACT.md"
    designRevision := revision "DESIGN.md"
    parentContract := parent
    revalidation :=
      { component.revalidation with
        state := .current, checkedAt := instant, staleSince := none, causes := [] } }

def queueErrorText : Queue.Failure → String
  | .error (.yaml reason) => "invalid TODO queue YAML: " ++ reason
  | .error (.unsupportedVersion found supported) =>
      "unsupported TODO queue version " ++ toString found ++ "; this binary supports version " ++
        toString supported
  | .error (.invalid reason) => "invalid TODO queue: " ++ reason
  | .panicked => "panicked"
  | .outOfFuel => "out of fuel"

def todosName : String := "TODOS.yaml"

def serializeQueue (context : TaskContext) (queue : TaskQueue) : Except Failure String :=
  match serialize queue with
  | .ok text => .ok text
  | .error failure =>
      .error (fail (joinPath context.componentDir (bytesOf todosName)) (queueErrorText failure))

def outputs (around : IntentSources) (context : TaskContext) (input : Capture) (draft : Draft)
    (instant : Timestamp) : Except Failure Changes := do
  ensure (draft.schemaVersion == 1 && !Text.isBlank draft.rationale)
    (fail context.componentDir "draft requires schema_version 1 and a nonblank rationale")
  bounded (encode draft.toJson) (bytesOf "draft")
  let documents ←
    materialize around.validateDocument input.files draft.documents draft.documentEdits
  let selected ← okOr (input.queue.tasks.findIdx? (·.id == input.task.id))
    (fail context.componentDir "selected task disappeared")
  let edited ← applyEdits context input.task.id instant input.queue.tasks draft.tasks
  let (tasks, retired) ← dispose context input draft.disposition selected instant edited
  let parent ← around.parent context
  let queue :=
    { input.queue with
      tasks := rescheduled tasks selected edited
      component := revisedComponent around input.queue.component documents parent instant }
  let text ← serializeQueue context queue
  bounded (bytesOf text) (bytesOf todosName)
  return {
    outputs := (documents.insert todosName text).retain fun name text =>
      input.files.get name != some text
    retired := retired
    retirementReasons := edited.retirements
    rationale := draft.rationale }

/-- The text of a file after the change, which leaves out what stays as it is. -/
def Changes.after (changes : Changes) (input : Capture) (name : String) : Option String :=
  (changes.outputs.get name).or (input.files.get name)

end Kvist.Decision
