import Kvist.TaskQueue.Validation
import Kvist.Yaml.Value

/-!
# Reading a queue

The typed reading of a loaded document, as the derived deserializers of the queue's record
types do it, and `parse` over a YAML library. Each function takes the view with which it reads
texts and sequences, since the program reads queues both straight from their text and from
untyped documents.
-/

set_option autoImplicit false

namespace Kvist.Queue

open Yaml

/-- The bound of a 32-bit unsigned field. -/
def u32Bound : Nat := 4294967296

def taskKindChoices : List (String × TaskKind) :=
  [TaskKind.test, .implementation, .securityAudit, .complianceReview].map fun kind =>
    (taskKindName kind, kind)

def taskStatusChoices : List (String × TaskStatus) :=
  [TaskStatus.pending, .inProgress, .blocked, .awaitingDecision, .completed].map fun status =>
    (taskStatusName status, status)

def revalidationStateChoices : List (String × RevalidationState) :=
  [RevalidationState.current, .stale].map fun state => (revalidationStateName state, state)

def stalenessCauseKindChoices : List (String × StalenessCauseKind) :=
  [StalenessCauseKind.componentRequirementsRevisionChanged, .componentContractRevisionChanged,
    .componentDesignRevisionChanged, .parentContractRevisionChanged].map fun kind =>
    (stalenessCauseKindName kind, kind)

def recoveryStateChoices : List (String × RecoveryStateKind) :=
  [(recoveryStateName .fenced, .fenced)]

def dispositionChoices : List (String × FinalizeDispositionArgument) :=
  [FinalizeDispositionArgument.accept, .block].map fun disposition =>
    (dispositionName disposition, disposition)

section View

variable (view : View)

def decodeTimestamp (value : Value) : Option Timestamp := (view.text value).map Timestamp.mk

def decodeParentContract (value : Value) : Option ParentContract := do
  let fields ← view.fields ["path", "revision"] value
  let path ← requiredField fields "path" view.text
  let revision ← requiredField fields "revision" view.text
  some { path, revision }

def decodeCause (value : Value) : Option StalenessCause := do
  let fields ← view.fields ["kind", "path", "expected_revision", "observed_revision"] value
  let kind ← requiredField fields "kind" (view.choice stalenessCauseKindChoices)
  let path ← requiredField fields "path" view.text
  let expectedRevision ← requiredField fields "expected_revision" view.text
  let observedRevision ← requiredField fields "observed_revision" view.text
  some { kind, path, expectedRevision, observedRevision }

def decodeRevalidation (value : Value) : Option Revalidation := do
  let fields ← view.fields ["state", "checked_at", "stale_since", "causes"] value
  let state ← requiredField fields "state" (view.choice revalidationStateChoices)
  let checkedAt ← requiredField fields "checked_at" (decodeTimestamp view)
  let staleSince ← optionalField fields "stale_since" (decodeTimestamp view)
  let causes ← requiredField fields "causes" (view.list (decodeCause view))
  some { state, checkedAt, staleSince, causes }

def decodeComponent (value : Value) : Option ComponentState := do
  let fields ← view.fields ["requirements_revision", "contract_revision", "design_revision",
    "parent_contract", "revalidation"] value
  let requirementsRevision ← requiredField fields "requirements_revision" view.text
  let contractRevision ← requiredField fields "contract_revision" view.text
  let designRevision ← requiredField fields "design_revision" view.text
  let parentContract ← optionalField fields "parent_contract" (decodeParentContract view)
  let revalidation ← requiredField fields "revalidation" (decodeRevalidation view)
  some { requirementsRevision, contractRevision, designRevision, parentContract, revalidation }

def decodeTimestamps (value : Value) : Option TaskTimestamps := do
  let fields ← view.fields ["created_at", "updated_at", "completed_at", "recovered"] value
  let createdAt ← requiredField fields "created_at" (decodeTimestamp view)
  let updatedAt ← requiredField fields "updated_at" (decodeTimestamp view)
  let completedAt ← optionalField fields "completed_at" (decodeTimestamp view)
  let recovered ← defaultField fields "recovered" false Value.boolean
  some { createdAt, updatedAt, completedAt, recovered }

def decodeRecoveryState (value : Value) : Option RecoveryState := do
  let fields ← view.fields ["state", "attempt_id", "reason"] value
  let state ← requiredField fields "state" (view.choice recoveryStateChoices)
  let attemptId ← requiredField fields "attempt_id" view.text
  let reason ← requiredField fields "reason" view.text
  some { state, attemptId, reason }

def taskFields : List String :=
  ["id", "title", "description", "context", "purpose", "expected_outcome", "kind", "status",
    "depends_on", "requirements", "timestamps", "blocked_reason", "recovery_state",
    "acceptance_id", "disposition"]

def decodeTask (value : Value) : Option Task := do
  let fields ← view.fields taskFields value
  let id ← requiredField fields "id" view.text
  let title ← requiredField fields "title" view.text
  let description ← requiredField fields "description" view.text
  let context ← requiredField fields "context" view.text
  let purpose ← requiredField fields "purpose" view.text
  let expectedOutcome ← requiredField fields "expected_outcome" view.text
  let kind ← requiredField fields "kind" (view.choice taskKindChoices)
  let status ← requiredField fields "status" (view.choice taskStatusChoices)
  let dependsOn ← requiredField fields "depends_on" (view.list view.text)
  let requirements ← requiredField fields "requirements" (view.list view.text)
  let timestamps ← requiredField fields "timestamps" (decodeTimestamps view)
  let blockedReason ← optionalField fields "blocked_reason" view.text
  let recoveryState ← optionalField fields "recovery_state" (decodeRecoveryState view)
  let acceptanceId ← optionalField fields "acceptance_id" view.text
  let disposition ← optionalField fields "disposition" (view.choice dispositionChoices)
  some { id, title, description, context, purpose, expectedOutcome, kind, status, dependsOn,
         requirements, timestamps, blockedReason, recoveryState, acceptanceId, disposition }

def decodeQueue (value : Value) : Option TaskQueue := do
  let fields ← view.fields ["schema_version", "component", "tasks"] value
  let schemaVersion ← requiredField fields "schema_version" (Value.unsigned u32Bound)
  let component ← requiredField fields "component" (decodeComponent view)
  let tasks ← requiredField fields "tasks" (view.list (decodeTask view))
  some { schemaVersion, component, tasks }

/-- `VersionProbe`, which passes over every field but the version. -/
def decodeVersion (value : Value) : Option Nat := do
  let fields ← view.lenientFields ["schema_version"] value
  requiredField fields "schema_version" (Value.unsigned u32Bound)

end View

/-- `serde_yaml::from_str` at a type. The library's message for a value of another type is
not represented. -/
def fromStrAs {α : Type} (fromStr : String → Except String Value) (decode : Value → Option α)
    (contents : String) : Except Failure α :=
  match fromStr contents with
  | .error reason => .error (.error (.yaml reason))
  | .ok value =>
      match decode value with
      | none => .error (.error (.yaml "invalid type"))
      | some decoded => .ok decoded

/-- The part of `parse` and `parse_repairable` before validation. -/
def parseTyped (fromStr : String → Except String Value) (contents : String) :
    Except Failure TaskQueue := do
  let version ← fromStrAs fromStr (decodeVersion typedView) contents
  ensure (version == todoQueueVersion) (.error (.unsupportedVersion version todoQueueVersion))
  fromStrAs fromStr (decodeQueue typedView) contents

/-- `parse`. -/
def parse (fromStr : String → Except String Value) (contents : String) :
    Except Failure TaskQueue := do
  let queue ← parseTyped fromStr contents
  validate queue
  .ok queue

/-- `parse_repairable`. -/
def parseRepairable (fromStr : String → Except String Value) (contents : String) :
    Except Failure TaskQueue := do
  let queue ← parseTyped fromStr contents
  validateRepairable queue
  .ok queue

end Kvist.Queue
