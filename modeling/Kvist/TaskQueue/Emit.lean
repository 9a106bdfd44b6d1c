import Kvist.TaskQueue.Validation

/-!
# The canonical text of a queue

`serialize` and the functions that write the queue line by line. Each returns the text that
the source appends to its output.
-/

set_option autoImplicit false

namespace Kvist.Queue

def line (indentation : Nat) (contents : String) : String :=
  String.ofList (List.replicate indentation ' ') ++ contents ++ "\n"

/-- A line `name: contents`. -/
def namedLine (indentation : Nat) (name contents : String) : String :=
  line indentation (name ++ ": " ++ contents)

/-- A lower-case hexadecimal digit of a value below 16. -/
def hexCharacter (value : Nat) : Char :=
  if value < 10 then Char.ofNat (48 + value) else Char.ofNat (87 + value)

/-- What `yaml_string` pushes for one character. -/
def escapeCharacter (character : Char) : List Char :=
  if character = '"' then ['\\', '"']
  else if character = '\\' then ['\\', '\\']
  else if character = '\n' then ['\\', 'n']
  else if character = '\r' then ['\\', 'r']
  else if character = '\t' then ['\\', 't']
  else if character.toNat ≤ 0x1f then
    ['\\', 'u', '0', '0', hexCharacter (character.toNat / 16), hexCharacter (character.toNat % 16)]
  else [character]

def yamlString (value : String) : String :=
  "\"" ++ String.ofList (value.toList.flatMap escapeCharacter) ++ "\""

def appendStringList (indentation : Nat) (name : String) (values : List String) : String :=
  if values.isEmpty then namedLine indentation name "[]"
  else
    line indentation (name ++ ":") ++
      String.join (values.map fun value => line (indentation + 2) ("- " ++ yamlString value))

/-- A field that is `null` when it has no value. -/
def appendOptional (indentation : Nat) (name : String) (value : Option String) : String :=
  match value with
  | some value => namedLine indentation name (yamlString value)
  | none => namedLine indentation name "null"

def appendCause (indentation : Nat) (cause : StalenessCause) : String :=
  line indentation ("- kind: " ++ stalenessCauseKindName cause.kind) ++
  namedLine (indentation + 2) "path" (yamlString cause.path) ++
  namedLine (indentation + 2) "expected_revision" (yamlString cause.expectedRevision) ++
  namedLine (indentation + 2) "observed_revision" (yamlString cause.observedRevision)

def appendParentContract (indentation : Nat) (parent : Option ParentContract) : String :=
  match parent with
  | some parent =>
      line indentation "parent_contract:" ++
      namedLine (indentation + 2) "path" (yamlString parent.path) ++
      namedLine (indentation + 2) "revision" (yamlString parent.revision)
  | none => namedLine indentation "parent_contract" "null"

def appendCauses (indentation : Nat) (causes : List StalenessCause) : String :=
  if causes.isEmpty then namedLine indentation "causes" "[]"
  else line indentation "causes:" ++ String.join (causes.map (appendCause (indentation + 2)))

def appendComponent (component : ComponentState) (indentation : Nat) : String :=
  namedLine indentation "requirements_revision" (yamlString component.requirementsRevision) ++
  namedLine indentation "contract_revision" (yamlString component.contractRevision) ++
  namedLine indentation "design_revision" (yamlString component.designRevision) ++
  appendParentContract indentation component.parentContract ++
  line indentation "revalidation:" ++
  namedLine (indentation + 2) "state" (revalidationStateName component.revalidation.state) ++
  namedLine (indentation + 2) "checked_at" (yamlString component.revalidation.checkedAt.value) ++
  appendOptional (indentation + 2) "stale_since"
    (component.revalidation.staleSince.map (·.value)) ++
  appendCauses (indentation + 2) component.revalidation.causes

def appendRecoveryState (recovery : Option RecoveryState) : String :=
  match recovery with
  | some recovery =>
      line 4 "recovery_state:" ++
      namedLine 6 "state" (recoveryStateName recovery.state) ++
      namedLine 6 "attempt_id" (yamlString recovery.attemptId) ++
      namedLine 6 "reason" (yamlString recovery.reason)
  | none => namedLine 4 "recovery_state" "null"

def appendTimestamps (timestamps : TaskTimestamps) : String :=
  line 4 "timestamps:" ++
  namedLine 6 "created_at" (yamlString timestamps.createdAt.value) ++
  namedLine 6 "updated_at" (yamlString timestamps.updatedAt.value) ++
  appendOptional 6 "completed_at" (timestamps.completedAt.map (·.value)) ++
  (if timestamps.recovered then namedLine 6 "recovered" "true" else "")

/-- The two finalization fields, which are left out when they have no value. -/
def appendFinalization (task : Task) : String :=
  (match task.acceptanceId with
    | some acceptanceId => namedLine 4 "acceptance_id" (yamlString acceptanceId)
    | none => "") ++
  (match task.disposition with
    | some disposition => namedLine 4 "disposition" (dispositionName disposition)
    | none => "")

def appendTask (task : Task) : String :=
  line 2 ("- id: " ++ yamlString task.id) ++
  String.join ([("title", task.title), ("description", task.description),
    ("context", task.context), ("purpose", task.purpose),
    ("expected_outcome", task.expectedOutcome)].map fun entry =>
      namedLine 4 entry.1 (yamlString entry.2)) ++
  namedLine 4 "kind" (taskKindName task.kind) ++
  namedLine 4 "status" (taskStatusName task.status) ++
  appendStringList 4 "depends_on" task.dependsOn ++
  appendStringList 4 "requirements" task.requirements ++
  appendTimestamps task.timestamps ++
  appendOptional 4 "blocked_reason" task.blockedReason ++
  appendRecoveryState task.recoveryState ++
  appendFinalization task

/-- The text of `serialize` after its validation. -/
def canonicalText (queue : TaskQueue) : String :=
  namedLine 0 "schema_version" (toString queue.schemaVersion) ++ line 0 "component:" ++
  appendComponent queue.component 2 ++
  (if queue.tasks.isEmpty then namedLine 0 "tasks" "[]"
   else line 0 "tasks:" ++ String.join (queue.tasks.map appendTask))

def serialize (queue : TaskQueue) : Except Failure String := do
  validate queue
  .ok (canonicalText queue)

end Kvist.Queue
