import Kvist.TaskQueue.Emit
import Kvist.TaskQueue.Decode
import Kvist.TaskQueue.Normalize
import Kvist.Yaml.Mapping

/-!
# Queue repair

`candidate` and the passes it is made of: the recovery of fragments from a text that does not
load, the fill-in of timestamp metadata, the salvage of single entries, the reordering and the
validation of every prefix. A pass returns its result with the reasons it appends, in order;
a reason keeps the data that its message names.
-/

set_option autoImplicit false

namespace Kvist.Repair

open Yaml Text Queue

/-! ## Reasons and constants -/

inductive TimestampChange where
  | createdAt (lowerBound : Timestamp)
  | updatedAt (creation : Value)
  | completionUnknown
  deriving Repr

/-- An entry of `reasons`. -/
inductive Reason where
  | filledTimestamps (id status : String) (changes : List TimestampChange)
  | ambiguousFragment (number : Nat)
  | unreadableFragment (number : Nat) (error : String)
  | segmentation
  | unknownTopLevelField (key : Value)
  | replacedComponent (error : Failure)
  | unknownTaskField (index : Nat) (id : String) (key : Value)
  | clearedAuthority (id field : String)
  | unknownTimestamps (id status : String)
  | trimmed (id name value : String)
  | raisedUpdate (id : String) (update creation : Timestamp)
  | raisedCompletion (id : String) (completion update : Timestamp)
  | droppedCompletion (id : String)
  | addedBlocker (id : String) (reason : Option String)
  | droppedBlocker (id reason : String) (status : TaskStatus)
  | removedTaskEntry (index : Nat) (id : String) (error : Failure)
  | conflictingDuplicate (id : String)
  | mergedDuplicate (id : String)
  | staleRevalidation
  | unorderedTask (id : String)
  | removedTask (id : String) (error : Failure)
  | normalized
  deriving Repr

structure Candidate where
  contents : String
  reasons : List Reason
  deriving Repr

/-- The display of `TaskQueueError`. -/
def errorText : TaskQueueError → String
  | .yaml reason => "invalid TODO queue YAML: " ++ reason
  | .unsupportedVersion found supported =>
      "unsupported TODO queue version " ++ toString found ++ "; this binary supports version " ++
        toString supported
  | .invalid reason => "invalid TODO queue: " ++ reason

/-- The message of a failed validation, which is always an error of the source. -/
def failureText : Failure → String
  | .error reason => errorText reason
  | .panicked | .outOfFuel => ""

/-- The failure of reading a document at a type; the library's message is not represented. -/
def invalidType : Failure := .error (.yaml "invalid type")

def repeatedRevision (digit : Char) : String :=
  sha256Prefix ++ String.ofList (List.replicate sha256HexLength digit)

/-- `unaccepted_component`. -/
def unacceptedComponent : ComponentState where
  requirementsRevision := repeatedRevision '0'
  contractRevision := repeatedRevision '0'
  designRevision := repeatedRevision '0'
  parentContract := none
  revalidation := {
    state := .stale
    checkedAt := Timestamp.defaultInstant
    staleSince := some Timestamp.defaultInstant
    causes := [{
      kind := .componentRequirementsRevisionChanged
      path := "recovery:unaccepted-draft (synthetic sentinel, not observed intent)"
      expectedRevision := repeatedRevision '0'
      observedRevision := repeatedRevision '1' }] }

/-- The bound of `as_u64`. -/
def u64Bound : Nat := 18446744073709551616

/-- `value["schema_version"].as_u64() == Some(1)`. -/
def hasSchemaVersion (value : Value) : Bool :=
  (value.index "schema_version").unsigned u64Bound == some 1

def entryId (entry : Value) : String := (entry.index "id").str?.getD "<missing ID>"

def entryStatus (entry : Value) : String := (entry.index "status").str?.getD "<unknown>"

/-! ## Missing timestamp metadata -/

def isAbsent (name : String) (entries : List (Value × Value)) : Bool :=
  (getField name entries).all Value.isNull

def startingTimestamps (fields : List (Value × Value)) : Option (List (Value × Value)) :=
  match getField "timestamps" fields with
  | none => some []
  | some (.mapping timestamps) => some timestamps
  | some value => if value.isNull then some [] else none

/-- The loop that computes `lower_bound`, and `none` where it clears `valid`. -/
def lowerBound (timestamps : List (Value × Value)) : Option Timestamp :=
  ["created_at", "updated_at", "completed_at"].foldlM (fun bound name =>
    match getField name timestamps with
    | none => some bound
    | some value =>
        if value.isNull then some bound
        else do
          let date ← decodeTimestamp untypedView value
          if (date.validate name).isOk then some (if date.before bound then date else bound)
          else none) Timestamp.defaultInstant

/-- The timestamps that one entry gets, or `none` where the loop passes over the entry. -/
def fillTimestamps (status : String) (fields : List (Value × Value)) :
    Option (List (Value × Value) × List TimestampChange) := do
  let timestamps ← startingTimestamps fields
  let recovered := getField "recovered" timestamps
  if !(recovered.all fun value => value.boolean.isSome) then none
  let missingCreation := isAbsent "created_at" timestamps
  let missingUpdate := isAbsent "updated_at" timestamps
  let unknownCompletion := isAbsent "completed_at" timestamps
  if !missingCreation && !missingUpdate &&
      !(status == "completed" && unknownCompletion && recovered.bind Value.boolean != some true) then
    none
  let bound ← lowerBound timestamps
  let created :=
    if missingCreation then insertField "created_at" (.quoted bound.value) timestamps
    else timestamps
  let creation := (getField "created_at" created).getD .null
  let updated := if missingUpdate then insertField "updated_at" creation created else created
  let changes :=
    (if missingCreation then [TimestampChange.createdAt bound] else []) ++
    (if missingUpdate then [TimestampChange.updatedAt creation] else []) ++
    (if status == "completed" && unknownCompletion then [.completionUnknown] else [])
  some (insertField "recovered" (.bool true) (insertMissing "completed_at" .null updated), changes)

def fillEntry (entry : Value) : Value × List Reason :=
  match entry with
  | .mapping fields =>
      match fillTimestamps (entryStatus entry) fields with
      | none => (entry, [])
      | some (timestamps, changes) =>
          (.mapping (insertField "timestamps" (.mapping timestamps) fields),
            [.filledTimestamps (entryId entry) (entryStatus entry) changes])
  | _ => (entry, [])

/-- `fill_missing_timestamp_metadata`. Access to the tasks of a document without them adds a
null field. -/
def fillMissingTimestampMetadata (value : Value) : Value × List Reason :=
  match value with
  | .mapping entries =>
      let entries := insertMissing "tasks" .null entries
      match getField "tasks" entries with
      | some (.sequence items) =>
          let filled := items.map fillEntry
          (.mapping (insertField "tasks" (.sequence (filled.map (·.1))) entries),
            filled.flatMap (·.2))
      | _ => (.mapping entries, [])
  | _ => (value, [])

/-! ## Fragments of a text that does not load -/

def readsInProgress (fromStr : String → Except String Value) (value : List Char) : Bool :=
  match fromStr (String.ofList value) with
  | .ok value => value.str? == some "in-progress"
  | .error _ => false

/-- The guard of `recover_fragments` on one line. -/
def scanLine (fromStr : String → Except String Value) (line : List Char) : Except String Unit :=
  match splitOnce ':' (trimList line) with
  | none => .ok ()
  | some (field, value) => do
      ensure (!(field == "recovery_state".toList && trimList value != "null".toList))
        "unreadable queue may contain fenced execution; use approved --clean-slate"
      ensure (!(field == "status".toList && readsInProgress fromStr value))
        "unreadable queue may contain active execution; use approved --clean-slate"

def isTasksHeader (line : List Char) : Bool :=
  match stripLeading "tasks:".toList line with
  | none => false
  | some suffix => (trimList suffix).isEmpty || (trimList suffix).head? == some '#'

def dash : List Char := ['-', ' ']

def entryIndent (line : List Char) : Option Nat :=
  let trimmed := line.dropWhile (· == ' ')
  if dash.isPrefixOf trimmed then some (line.length - trimmed.length) else none

def startsEntry (indent : Nat) (line : List Char) : Bool :=
  (line.take indent).all (· == ' ') && dash.isPrefixOf (line.drop indent)

/-- The runs of lines from each start to the next. -/
def fragments (indent : Nat) (body : List (List Char)) : List (List (List Char)) :=
  let starts := (body.zipIdx.filter fun entry => startsEntry indent entry.1).map (·.2)
  starts.zipIdx.map fun entry =>
    (body.take (starts[entry.2 + 1]?.getD body.length)).drop entry.1

def fragmentEntries (fromStr : String → Except String Value) (fragment : List (List Char)) :
    Except String (List Value) :=
  match fromStr (String.ofList (joinLines fragment)) with
  | .error error => .error error
  | .ok value =>
      match typedView.sequence value with
      | none => .error "invalid type"
      | some entries => .ok entries

def recoverFragment (fromStr : String → Except String Value)
    (entry : List (List Char) × Nat) : List Value × List Reason :=
  match fragmentEntries fromStr entry.1 with
  | .ok [value] => ([value], [])
  | .ok _ => ([], [.ambiguousFragment entry.2])
  | .error error => ([], [.unreadableFragment entry.2 error])

/-- `recover_fragments`. -/
def recoverFragments (fromStr : String → Except String Value) (contents : String) :
    Except String (Value × List Reason) := do
  let found := lines contents.toList
  checkAll (scanLine fromStr) found
  match found.findIdx? isTasksHeader with
  | none => .error "no standalone top-level tasks header; use --reset"
  | some boundary =>
      match fromStr (String.ofList (joinLines (found.take boundary))) with
      | .error error => .error ("unreadable queue header: " ++ error ++ "; use --reset")
      | .ok header => do
          ensure (hasSchemaVersion header)
            "unsupported/missing schema; reset explicitly instead of migrating"
          let body := found.drop (boundary + 1)
          match (body.filterMap entryIndent).min? with
          | none => .error "no independently parseable task entries; use --reset"
          | some indent =>
              let recovered := (fragments indent body).zipIdx.map (recoverFragment fromStr)
              match header.entries? with
              | none => .error "queue header must be a mapping"
              | some entries =>
                  .ok (.mapping (insertField "tasks" (.sequence (recovered.flatMap (·.1))) entries),
                    recovered.flatMap (·.2) ++ [.segmentation])

/-! ## Salvage of single entries -/

def hasValidTimestamps (status : String) (value : Value) : Bool :=
  match decodeTimestamps untypedView value with
  | none => false
  | some timestamps =>
      (timestamps.createdAt.validate "created_at").isOk &&
        (timestamps.updatedAt.validate "updated_at").isOk &&
        timestamps.completedAt.all (fun date => (date.validate "completed_at").isOk) &&
        (status != "completed" || timestamps.completedAt.isSome || timestamps.recovered)

def recoveryReason (status priorReason : String) : String :=
  "Recovery: original timestamp history is unknown or invalid (original claimed status: " ++
    status ++ "); epoch timestamps are synthetic unknowns, not observed dates or completion " ++
    "evidence. Review the backup before explicit resumption." ++ priorReason

def priorReason (fields : List (Value × Value)) : String :=
  match (getField "blocked_reason" fields).bind Value.str? with
  | some reason => if isBlank reason then "" else " Original blocker: " ++ reason
  | none => ""

def clearAuthority (id : String) (state : List (Value × Value) × List Reason) (field : String) :
    List (Value × Value) × List Reason :=
  if isAbsent field state.1 then state
  else (insertField field .null state.1, state.2 ++ [.clearedAuthority id field])

def syntheticTimestamps : Value :=
  .mapping [(.quoted "created_at", .quoted Timestamp.defaultInstant.value),
    (.quoted "updated_at", .quoted Timestamp.defaultInstant.value),
    (.quoted "completed_at", .null), (.quoted "recovered", .bool true)]

/-- `recover_timestamps`. -/
def recoverTimestamps (entry : Value) (id : String) : Value × List Reason :=
  let status := entryStatus entry
  if hasValidTimestamps status (entry.index "timestamps") then (entry, [])
  else
    match entry with
    | .mapping fields =>
        let reason := recoveryReason status (priorReason fields)
        let blocked := insertField "blocked_reason" (.quoted reason)
          (insertField "status" (.quoted "blocked") fields)
        let cleared := ["acceptance_id", "disposition"].foldl (clearAuthority id) (blocked, [])
        (.mapping (insertField "timestamps" syntheticTimestamps cleared.1),
          cleared.2 ++ [.unknownTimestamps id status])
    | _ => (entry, [])

def trimReason (id : String) (entry : String × String) : List Reason :=
  if entry.2 == trim entry.2 then [] else [.trimmed id entry.1 entry.2]

/-- The first loop of `reconcile`. -/
def reconcileTexts (task : Task) : Task × List Reason :=
  ({ task with
      title := trim task.title
      description := trim task.description
      context := trim task.context
      purpose := trim task.purpose
      expectedOutcome := trim task.expectedOutcome },
    [("title", task.title), ("description", task.description), ("context", task.context),
      ("purpose", task.purpose), ("expected_outcome", task.expectedOutcome)].flatMap
      (trimReason task.id))

def reconcileUpdate (task : Task) : Task × List Reason :=
  let timestamps := task.timestamps
  if (timestamps.createdAt.validate "created_at").isOk &&
      (timestamps.updatedAt.validate "updated_at").isOk &&
      timestamps.updatedAt.before timestamps.createdAt then
    ({ task with timestamps := { timestamps with updatedAt := timestamps.createdAt } },
      [.raisedUpdate task.id timestamps.updatedAt timestamps.createdAt])
  else (task, [])

def reconcileCompletion (task : Task) : Task × List Reason :=
  let timestamps := task.timestamps
  match task.status, timestamps.completedAt with
  | .completed, some completed =>
      if (completed.validate "completed_at").isOk &&
          (timestamps.updatedAt.validate "updated_at").isOk &&
          completed.before timestamps.updatedAt then
        ({ task with timestamps := { timestamps with completedAt := some timestamps.updatedAt } },
          [.raisedCompletion task.id completed timestamps.updatedAt])
      else (task, [])
  | .completed, none => (task, [])
  | _, some _ =>
      ({ task with timestamps := { timestamps with completedAt := none } },
        [.droppedCompletion task.id])
  | _, none => (task, [])

def missingBlocker : String :=
  "Recovery: the original blocker reason was missing; inspect the retained backup before resuming."

def reconcileBlocker (task : Task) : Task × List Reason :=
  if task.status.isPaused then
    if task.blockedReason.all isBlank then
      ({ task with blockedReason := some missingBlocker },
        [.addedBlocker task.id task.blockedReason])
    else (task, [])
  else
    match task.blockedReason with
    | some reason =>
        ({ task with blockedReason := none }, [.droppedBlocker task.id reason task.status])
    | none => (task, [])

/-- `reconcile`. -/
def reconcile (task : Task) : Task × List Reason :=
  let texts := reconcileTexts task
  let update := reconcileUpdate texts.1
  let completion := reconcileCompletion update.1
  let blocker := reconcileBlocker completion.1
  (normalizeTask blocker.1, texts.2 ++ update.2 ++ completion.2 ++ blocker.2)

/-- An entry that may have active or fenced execution. -/
def isLive (entry : Value) : Bool :=
  !(entry.index "recovery_state").isNull || (entry.index "status").str? == some "in-progress"

def hasKnownKey (known : List String) (entry : Value × Value) : Bool :=
  match entry.1.str? with
  | some name => name ∈ known
  | none => false

def retainKnown (index : Nat) (id : String) (entry : Value) : Value × List Reason :=
  match entry with
  | .mapping fields =>
      (.mapping (fields.filter (hasKnownKey taskFields)),
        (fields.filter (!hasKnownKey taskFields ·)).map fun field =>
          .unknownTaskField index id field.1)
  | _ => (entry, [])

/-- The body of the loop over entries, for an entry that is not live. -/
def salvageEntry (index : Nat) (entry : Value) : Option Task × List Reason :=
  let id := entryId entry
  let known := retainKnown index id entry
  let recovered := recoverTimestamps known.1 id
  match decodeTask untypedView recovered.1 with
  | none => (none, known.2 ++ recovered.2 ++ [.removedTaskEntry index id invalidType])
  | some task =>
      let reconciled := reconcile task
      match validateTask true reconciled.1 with
      | .ok () => (some reconciled.1, known.2 ++ recovered.2 ++ reconciled.2)
      | .error error =>
          (none, known.2 ++ recovered.2 ++ reconciled.2 ++ [.removedTaskEntry index id error])

def salvageEntries : Nat → List Value → Except String (List Task × List Reason)
  | _, [] => .ok ([], [])
  | index, entry :: rest => do
      ensure (!isLive entry)
        ("task entry " ++ toString index ++ " may have active/fenced execution; use `kvist task " ++
          "recover` when evidence permits or approved --clean-slate; effects remain unknown")
      let salvaged := salvageEntry index entry
      let (tasks, reasons) ← salvageEntries (index + 1) rest
      .ok (salvaged.1.toList ++ tasks, salvaged.2 ++ reasons)

/-- The loop that fills `first` and `conflicting`. -/
def collectConflicting : List Task → List Task → List String → List String
  | [], _, conflicting => conflicting
  | task :: rest, first, conflicting =>
      match taskById first task.id with
      | some previous =>
          if previous == task then collectConflicting rest first conflicting
          else collectConflicting rest first (task.id :: conflicting)
      | none => collectConflicting rest (first ++ [task]) conflicting

/-- The `retain` over `tasks`. -/
def retainDistinct (conflicting : List String) :
    List Task → List String → List Task × List Reason
  | [], _ => ([], [])
  | task :: rest, retained =>
      if conflicting.contains task.id then
        let others := retainDistinct conflicting rest retained
        (others.1, .conflictingDuplicate task.id :: others.2)
      else if retained.contains task.id then
        let others := retainDistinct conflicting rest retained
        (others.1, .mergedDuplicate task.id :: others.2)
      else
        let others := retainDistinct conflicting rest (task.id :: retained)
        (task :: others.1, others.2)

def salvageComponent (value : Value) : ComponentState × List Reason :=
  match decodeComponent untypedView value with
  | none => (unacceptedComponent, [.replacedComponent invalidType])
  | some component =>
      match validateComponent component with
      | .ok () => (component, [])
      | .error error => (unacceptedComponent, [.replacedComponent error])

/-- `salvage_queue`. -/
def salvageQueue (value : Value) : Except String (TaskQueue × List Reason) :=
  match value.entries? with
  | none => .error "queue must be a mapping"
  | some entries => do
      let unknown := (entries.filter
        (!hasKnownKey ["schema_version", "component", "tasks"] ·)).map fun entry =>
          Reason.unknownTopLevelField entry.1
      let component := salvageComponent (value.index "component")
      match (value.index "tasks").items? with
      | none =>
          .error ("tasks must be a sequence; use an approved --reset to replace an unreadable " ++
            "queue")
      | some items => do
          let (tasks, reasons) ← salvageEntries 0 items
          let distinct := retainDistinct (collectConflicting tasks [] []) tasks []
          .ok ({ schemaVersion := 1, component := component.1, tasks := distinct.1 },
            unknown ++ component.2 ++ reasons ++ distinct.2)

/-! ## Reordering and validation of the prefixes -/

/-- A task that the loop of `ordered_tasks` may take next. -/
def isNext (ordered : List Task) (task : Task) : Bool :=
  !(ordered.map (·.id)).contains task.id &&
    task.dependsOn.all fun dependency => (ordered.map (·.id)).contains dependency

/-- The loop of `ordered_tasks`, which takes one pending task in every round. -/
def orderTasks : Nat → List Task → List Task → List Task × List Task
  | 0, ordered, pending => (ordered, pending)
  | rounds + 1, ordered, pending =>
      match pending.find? (isNext ordered) with
      | none => (ordered, pending)
      | some task => orderTasks rounds (ordered ++ [task]) (pending.eraseP (isNext ordered))

/-- `ordered_tasks`. -/
def orderedTasks (tasks : List Task) : List Task × List Task := orderTasks tasks.length [] tasks

/-- The last loop of `candidate`, which validates the queue after every task. -/
def pushTasks (salvage : Bool) : TaskQueue → List Task → Except String (TaskQueue × List Reason)
  | queue, [] => .ok (queue, [])
  | queue, task :: rest =>
      let extended := { queue with tasks := queue.tasks ++ [task] }
      match validate extended with
      | .ok () => pushTasks salvage extended rest
      | .error error =>
          if salvage then do
            let (queue, reasons) ← pushTasks salvage queue rest
            .ok (queue, .removedTask task.id error :: reasons)
          else .error (failureText error)

/-! ## The candidate -/

/-- The document that the other passes work on. -/
def loadDocument (fromStr : String → Except String Value) (contents : String) (salvage : Bool) :
    Except String (Value × List Reason) :=
  match fromStr contents with
  | .ok value => .ok (value, [])
  | .error error =>
      if salvage then
        match recoverFragments fromStr contents with
        | .ok recovered => .ok recovered
        | .error reason => .error (error ++ "; fragment recovery unavailable: " ++ reason)
      else .error error

def decodeDocument (salvage : Bool) (value : Value) : Except String (TaskQueue × List Reason) :=
  if salvage then do
    let (queue, reasons) ← salvageQueue value
    .ok ({ queue with
        component := { queue.component with revalidation := unacceptedComponent.revalidation } },
      reasons ++ [.staleRevalidation])
  else
    match decodeQueue untypedView value with
    | none => .error "invalid type"
    | some queue => .ok (queue, [])

def isActive (task : Task) : Bool := task.recoveryState.isSome || task.status == .inProgress

/-- The part of `candidate` behind the typed queue. -/
def finish (salvage : Bool) (queue : TaskQueue) : Except String Candidate := do
  ensure (!queue.tasks.any isActive)
    ("active/fenced tasks require `kvist task recover` when evidence permits, explicit " ++
      "disposition otherwise, or an approved --clean-slate; execution effects remain unknown")
  let normalized := normalizeSetLists queue
  let (ordered, remaining) := orderedTasks normalized.tasks
  ensure (remaining.isEmpty || salvage)
    ("duplicate IDs, missing dependencies or a dependency cycle require --salvage or --reset")
  let (final, reasons) ← pushTasks salvage { normalized with tasks := [] } ordered
  match serialize final with
  | .error error => .error (failureText error)
  | .ok contents =>
      .ok { contents, reasons := remaining.map (.unorderedTask ·.id) ++ reasons ++ [.normalized] }

/-- `candidate`. -/
def candidate (fromStr : String → Except String Value) (contents : String) (salvage : Bool) :
    Except String Candidate := do
  let (value, loaded) ← loadDocument fromStr contents salvage
  ensure (hasSchemaVersion value)
    "unsupported or missing schema; use an approved --reset, not migration"
  let filled := fillMissingTimestampMetadata value
  let (queue, decoded) ← decodeDocument salvage filled.1
  let finished ← finish salvage queue
  .ok { finished with reasons := loaded ++ filled.2 ++ decoded ++ finished.reasons }

end Kvist.Repair
