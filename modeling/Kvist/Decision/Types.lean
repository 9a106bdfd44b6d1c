import Kvist.Decision.Storage
import Kvist.OrderedMap
import Kvist.TaskQueue.Basic

/-!
# Drafts and plans

What an author or an agent proposes, what is captured of the component before, and the plan that is
approved, with their JSON. The maps are ordered by their keys.
-/

set_option autoImplicit false

namespace Kvist.Decision

open Json Queue

structure TaskContext where
  projectDir : PathBytes
  componentDir : PathBytes
  componentPath : PathBytes

/-- The authored fields of one task. -/
structure TaskDefinition where
  id : String
  title : String
  description : String
  context : String
  purpose : String
  expectedOutcome : String
  kind : TaskKind
  dependsOn : List String
  requirements : List String
  deriving DecidableEq, Repr

inductive TaskEdit where
  | add (task : TaskDefinition)
  | update (task : TaskDefinition)
  | retire (id reason : String)
  deriving DecidableEq, Repr

inductive Disposition where
  | resolve
  | withdraw
  deriving DecidableEq, Repr

structure DocumentEdit where
  path : String
  before : String
  after : String
  deriving DecidableEq, Repr

abbrev Texts := OrderedMap String String

structure Draft where
  schemaVersion : Nat
  rationale : String
  documents : Texts
  documentEdits : List DocumentEdit
  tasks : List TaskEdit
  disposition : Disposition

structure Selection where
  option : Option String
  guidance : String

structure IntentReview where
  report : String
  exception : Bool

structure Capture where
  schemaVersion : Nat
  component : PathBytes
  task : Task
  queue : TaskQueue
  files : Texts
  bindings : Texts

structure Plan where
  schemaVersion : Nat
  id : String
  approval : String
  input : Capture
  selection : Selection
  rationale : String
  review : IntentReview
  outputs : Texts
  retired : List Task
  retirementReasons : Texts
  disposition : Disposition
  createdAt : Timestamp
  authenticationTag : String

/-! ## JSON -/

def optionalJson {α : Type} (toJson : α → Value) : Option α → Value
  | some value => toJson value
  | none => .null

def textsJson (texts : Texts) : Value :=
  .object (texts.entries.map fun entry => (entry.1, .string entry.2))

def stringsJson (strings : List String) : Value := .array (strings.map .string)

def timestampJson (timestamp : Timestamp) : Value := .string timestamp.value

def timestampsJson (timestamps : TaskTimestamps) : Value :=
  .object ([("created_at", timestampJson timestamps.createdAt),
    ("updated_at", timestampJson timestamps.updatedAt),
    ("completed_at", optionalJson timestampJson timestamps.completedAt)] ++
      if timestamps.recovered then [("recovered", .boolean true)] else [])

def recoveryJson (recovery : RecoveryState) : Value :=
  .object [("state", .string (recoveryStateName recovery.state)),
    ("attempt_id", .string recovery.attemptId), ("reason", .string recovery.reason)]

def taskJson (task : Task) : Value :=
  .object [("id", .string task.id), ("title", .string task.title),
    ("description", .string task.description), ("context", .string task.context),
    ("purpose", .string task.purpose), ("expected_outcome", .string task.expectedOutcome),
    ("kind", .string (taskKindName task.kind)), ("status", .string (taskStatusName task.status)),
    ("depends_on", stringsJson task.dependsOn), ("requirements", stringsJson task.requirements),
    ("timestamps", timestampsJson task.timestamps),
    ("blocked_reason", optionalJson .string task.blockedReason),
    ("recovery_state", optionalJson recoveryJson task.recoveryState),
    ("acceptance_id", optionalJson .string task.acceptanceId),
    ("disposition", optionalJson (fun disposition => .string (dispositionName disposition))
      task.disposition)]

def causeJson (cause : StalenessCause) : Value :=
  .object [("kind", .string (stalenessCauseKindName cause.kind)), ("path", .string cause.path),
    ("expected_revision", .string cause.expectedRevision),
    ("observed_revision", .string cause.observedRevision)]

def revalidationJson (revalidation : Revalidation) : Value :=
  .object [("state", .string (revalidationStateName revalidation.state)),
    ("checked_at", timestampJson revalidation.checkedAt),
    ("stale_since", optionalJson timestampJson revalidation.staleSince),
    ("causes", .array (revalidation.causes.map causeJson))]

def parentContractJson (parent : ParentContract) : Value :=
  .object [("path", .string parent.path), ("revision", .string parent.revision)]

def componentJson (component : ComponentState) : Value :=
  .object [("requirements_revision", .string component.requirementsRevision),
    ("contract_revision", .string component.contractRevision),
    ("design_revision", .string component.designRevision),
    ("parent_contract", optionalJson parentContractJson component.parentContract),
    ("revalidation", revalidationJson component.revalidation)]

def queueJson (queue : TaskQueue) : Value :=
  .object [("schema_version", natural queue.schemaVersion),
    ("component", componentJson queue.component), ("tasks", .array (queue.tasks.map taskJson))]

def definitionJson (task : TaskDefinition) : Value :=
  .object [("id", .string task.id), ("title", .string task.title),
    ("description", .string task.description), ("context", .string task.context),
    ("purpose", .string task.purpose), ("expected_outcome", .string task.expectedOutcome),
    ("kind", .string (taskKindName task.kind)), ("depends_on", stringsJson task.dependsOn),
    ("requirements", stringsJson task.requirements)]

def TaskEdit.toJson : TaskEdit → Value
  | .add task => .object [("action", .string "add"), ("task", definitionJson task)]
  | .update task => .object [("action", .string "update"), ("task", definitionJson task)]
  | .retire id reason =>
      .object [("action", .string "retire"), ("id", .string id), ("reason", .string reason)]

def Disposition.name : Disposition → String
  | .resolve => "resolve"
  | .withdraw => "withdraw"

def DocumentEdit.toJson (edit : DocumentEdit) : Value :=
  .object [("path", .string edit.path), ("before", .string edit.before),
    ("after", .string edit.after)]

def Draft.toJson (draft : Draft) : Value :=
  .object [("schema_version", natural draft.schemaVersion), ("rationale", .string draft.rationale),
    ("documents", textsJson draft.documents),
    ("document_edits", .array (draft.documentEdits.map DocumentEdit.toJson)),
    ("tasks", .array (draft.tasks.map TaskEdit.toJson)),
    ("disposition", .string draft.disposition.name)]

def Selection.toJson (selection : Selection) : Value :=
  .object [("option", optionalJson .string selection.option),
    ("guidance", .string selection.guidance)]

def IntentReview.toJson (review : IntentReview) : Value :=
  .object [("report", .string review.report), ("exception", .boolean review.exception)]

def pathJson (path : PathBytes) : Except Failure Value :=
  match Utf8.fromUtf8 path with
  | some text => .ok (.string (String.ofList text))
  | none => .error (fail directoryName "path contains invalid UTF-8 characters")

def captureMembers (capture : Capture) (component : Value) : List (String × Value) :=
  [("schema_version", natural capture.schemaVersion), ("component", component),
    ("task", taskJson capture.task), ("queue", queueJson capture.queue),
    ("files", textsJson capture.files), ("bindings", textsJson capture.bindings)]

def Capture.toJson (capture : Capture) : Except Failure Value := do
  let component ← pathJson capture.component
  return .object (captureMembers capture component)

/-- The members of a plan around what was captured. -/
def planMembers (plan : Plan) (input : Value) : List (String × Value) :=
  [("schema_version", natural plan.schemaVersion), ("id", .string plan.id),
    ("approval", .string plan.approval), ("input", input),
    ("selection", plan.selection.toJson), ("rationale", .string plan.rationale),
    ("review", plan.review.toJson), ("outputs", textsJson plan.outputs),
    ("retired", .array (plan.retired.map taskJson)),
    ("retirement_reasons", textsJson plan.retirementReasons),
    ("disposition", .string plan.disposition.name), ("created_at", timestampJson plan.createdAt),
    ("authentication_tag", .string plan.authenticationTag)]

def Plan.toJson (plan : Plan) : Except Failure Value := do
  let input ← plan.input.toJson
  return .object (planMembers plan input)

end Kvist.Decision
