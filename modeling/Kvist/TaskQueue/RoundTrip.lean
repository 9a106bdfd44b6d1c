import Kvist.TaskQueue.Decode
import Kvist.TaskQueue.QueueTree
import Kvist.Yaml.Reader

/-!
# Reading back an emitted queue

A YAML reader loads the document of the queue's presentation tree from the emitted text, and
the typed reading of that document is the queue with every quoted text read back. A
character that is neither escaped nor printable makes the reader fail.
-/

set_option autoImplicit false

namespace Kvist.Queue

open Yaml

/-! ## The typed reading of the tree -/

def Timestamp.mapTexts (change : String → String) (timestamp : Timestamp) : Timestamp :=
  ⟨change timestamp.value⟩

def ParentContract.mapTexts (change : String → String) (parent : ParentContract) :
    ParentContract :=
  ⟨change parent.path, change parent.revision⟩

def StalenessCause.mapTexts (change : String → String) (cause : StalenessCause) :
    StalenessCause :=
  { cause with
    path := change cause.path
    expectedRevision := change cause.expectedRevision
    observedRevision := change cause.observedRevision }

def Revalidation.mapTexts (change : String → String) (revalidation : Revalidation) :
    Revalidation :=
  { revalidation with
    checkedAt := revalidation.checkedAt.mapTexts change
    staleSince := revalidation.staleSince.map (·.mapTexts change)
    causes := revalidation.causes.map (·.mapTexts change) }

def ComponentState.mapTexts (change : String → String) (component : ComponentState) :
    ComponentState where
  requirementsRevision := change component.requirementsRevision
  contractRevision := change component.contractRevision
  designRevision := change component.designRevision
  parentContract := component.parentContract.map (·.mapTexts change)
  revalidation := component.revalidation.mapTexts change

def TaskTimestamps.mapTexts (change : String → String) (timestamps : TaskTimestamps) :
    TaskTimestamps :=
  { timestamps with
    createdAt := timestamps.createdAt.mapTexts change
    updatedAt := timestamps.updatedAt.mapTexts change
    completedAt := timestamps.completedAt.map (·.mapTexts change) }

def RecoveryState.mapTexts (change : String → String) (recovery : RecoveryState) :
    RecoveryState :=
  { recovery with attemptId := change recovery.attemptId, reason := change recovery.reason }

def Task.mapTexts (change : String → String) (task : Task) : Task :=
  { task with
    id := change task.id
    title := change task.title
    description := change task.description
    context := change task.context
    purpose := change task.purpose
    expectedOutcome := change task.expectedOutcome
    dependsOn := task.dependsOn.map change
    requirements := task.requirements.map change
    timestamps := task.timestamps.mapTexts change
    blockedReason := task.blockedReason.map change
    recoveryState := task.recoveryState.map (·.mapTexts change)
    acceptanceId := task.acceptanceId.map change }

/-- The queue with another text in the place of each text that `serialize` quotes. -/
def TaskQueue.mapTexts (change : String → String) (queue : TaskQueue) : TaskQueue :=
  { queue with
    component := queue.component.mapTexts change
    tasks := queue.tasks.map (·.mapTexts change) }

@[simp] private theorem text_quotedNode (value : String) :
    typedView.text (quotedNode value).value = some (readBack value) := by
  simp [quotedNode, Node.value, unquote_escape, typedView]

@[simp] private theorem isNull_quotedNode (value : String) :
    (quotedNode value).value.isNull = false := by
  simp [quotedNode, Node.value, Value.isNull]

@[simp] private theorem isNull_name_null : (Node.name "null").value.isNull = true := by
  simp [Node.value_name, resolveWord, isNumber, isDigit, Value.isNull]

@[simp] private theorem isNull_record (entries : List (String × Node)) :
    (Node.record entries).value.isNull = false := by
  simp [Node.value_record, Value.isNull]

@[simp] private theorem choice_name {α : Type} (choices : List (String × α)) (name : String) :
    typedView.choice choices (Node.name name).value = choices.lookup name := by
  simp [View.choice, Node.value_name, typedView]

@[simp] private theorem decodeTimestamp_quotedNode (value : String) :
    decodeTimestamp typedView (quotedNode value).value = some ⟨readBack value⟩ := by
  simp [decodeTimestamp]

private theorem mapM_map_some {α β : Type} {decode : Value → Option β} {node : α → Node}
    {result : α → β} (decoded : ∀ value, decode (node value).value = some (result value))
    (values : List α) :
    ((values.map node).map Node.value).mapM decode = some (values.map result) := by
  induction values with
  | nil => rfl
  | cons value rest ih =>
      rw [List.map_cons, List.map_cons, List.mapM_cons, decoded, ih]
      rfl

private theorem list_listNode {α β : Type} {decode : Value → Option β} {node : α → Node}
    {result : α → β} (decoded : ∀ value, decode (node value).value = some (result value))
    (values : List α) :
    typedView.list decode (listNode node values).value = some (values.map result) := by
  cases values with
  | nil => exact list_emptySequence
  | cons value rest => exact list_sequence (mapM_map_some decoded (value :: rest))

private theorem optionalField_text {fields : List (String × Value)} {name : String}
    {value : Option String} (found : fields.lookup name = some (optionalNode value).value) :
    optionalField fields name typedView.text = some (value.map readBack) := by
  rw [optionalField, found]
  cases value with
  | none => simp [optionalNode]
  | some value => simp [optionalNode]

private theorem optionalField_timestamp {fields : List (String × Value)} {name : String}
    {value : Option Timestamp}
    (found : fields.lookup name = some (optionalNode (value.map (·.value))).value) :
    optionalField fields name (decodeTimestamp typedView) =
      some (value.map (·.mapTexts readBack)) := by
  rw [optionalField, found]
  cases value with
  | none => simp [optionalNode]
  | some value => simp [optionalNode, Timestamp.mapTexts]

private theorem decodeParentContract_node (parent : ParentContract) :
    decodeParentContract typedView (Node.record [("path", quotedNode parent.path),
      ("revision", quotedNode parent.revision)]).value = some (parent.mapTexts readBack) := by
  rw [decodeParentContract, fields_record (by simp) (by simp)]
  simp [requiredField, List.lookup_cons, ParentContract.mapTexts]

private theorem stalenessCauseKind_lookup (kind : StalenessCauseKind) :
    stalenessCauseKindChoices.lookup (stalenessCauseKindName kind) = some kind := by
  cases kind <;> rfl

private theorem decodeCause_node (cause : StalenessCause) :
    decodeCause typedView (causeNode cause).value = some (cause.mapTexts readBack) := by
  rw [decodeCause, causeNode, fields_record (by simp) (by simp)]
  simp [requiredField, List.lookup_cons, StalenessCause.mapTexts, stalenessCauseKind_lookup]

private theorem revalidationState_lookup (state : RevalidationState) :
    revalidationStateChoices.lookup (revalidationStateName state) = some state := by
  cases state <;> rfl

private theorem decodeRevalidation_node (revalidation : Revalidation) :
    decodeRevalidation typedView (revalidationNode revalidation).value =
      some (revalidation.mapTexts readBack) := by
  rw [decodeRevalidation, revalidationNode, fields_record (by simp) (by simp)]
  simp only [Option.bind_eq_bind, Option.bind_some, List.map_cons, List.map_nil, requiredField,
    List.lookup_cons, String.reduceBEq, choice_name, revalidationState_lookup,
    decodeTimestamp_quotedNode, list_listNode decodeCause_node]
  rw [optionalField_timestamp rfl]
  rfl

private theorem decodeComponent_node (component : ComponentState) :
    decodeComponent typedView (componentNode component).value =
      some (component.mapTexts readBack) := by
  rw [decodeComponent, componentNode, fields_record (by simp) (by simp)]
  have revalidation : ∀ revalidation, (revalidationNode revalidation).value.isNull = false :=
    fun revalidation => isNull_record _
  simp only [Option.bind_eq_bind, Option.bind_some, List.map_cons, List.map_nil, requiredField,
    List.lookup_cons, String.reduceBEq, text_quotedNode,
    decodeRevalidation_node]
  cases parent : component.parentContract with
  | none => simp [optionalField, List.lookup_cons, parentContractNode, ComponentState.mapTexts,
      parent]
  | some found => simp [optionalField, List.lookup_cons, parentContractNode,
      decodeParentContract_node, ComponentState.mapTexts, parent]

private theorem decodeRecoveryState_node (recovery : RecoveryState) :
    decodeRecoveryState typedView (Node.record [("state", .name (recoveryStateName recovery.state)),
      ("attempt_id", quotedNode recovery.attemptId),
      ("reason", quotedNode recovery.reason)]).value = some (recovery.mapTexts readBack) := by
  obtain ⟨⟨⟩, attemptId, reason⟩ := recovery
  rw [decodeRecoveryState, fields_record (by simp) (by simp)]
  simp [requiredField, List.lookup_cons, RecoveryState.mapTexts, recoveryStateChoices]

private theorem optionalField_recoveryState {fields : List (String × Value)} {name : String}
    {value : Option RecoveryState}
    (found : fields.lookup name = some (recoveryStateNode value).value) :
    optionalField fields name (decodeRecoveryState typedView) =
      some (value.map (·.mapTexts readBack)) := by
  rw [optionalField, found]
  cases value with
  | none => simp [recoveryStateNode]
  | some value => simp [recoveryStateNode, decodeRecoveryState_node]

private theorem decodeTimestamps_node (timestamps : TaskTimestamps) :
    decodeTimestamps typedView (timestampsNode timestamps).value =
      some (timestamps.mapTexts readBack) := by
  obtain ⟨createdAt, updatedAt, completedAt, recovered⟩ := timestamps
  cases recovered with
  | false =>
      rw [decodeTimestamps, timestampsNode, fields_record (by simp) (by simp)]
      simp only [Bool.false_eq_true, if_false, List.append_nil, Option.bind_eq_bind,
        Option.bind_some, List.map_cons, List.map_nil, requiredField, List.lookup_cons,
        String.reduceBEq, decodeTimestamp_quotedNode]
      rw [optionalField_timestamp rfl]
      rfl
  | true =>
      rw [decodeTimestamps, timestampsNode, fields_record (by simp) (by simp)]
      simp only [if_true, List.cons_append, List.nil_append, Option.bind_eq_bind,
        Option.bind_some, List.map_cons, List.map_nil, requiredField, List.lookup_cons,
        String.reduceBEq, decodeTimestamp_quotedNode]
      rw [optionalField_timestamp rfl]
      rfl

private theorem taskKind_lookup (kind : TaskKind) :
    taskKindChoices.lookup (taskKindName kind) = some kind := by
  cases kind <;> rfl

private theorem taskStatus_lookup (status : TaskStatus) :
    taskStatusChoices.lookup (taskStatusName status) = some status := by
  cases status <;> rfl

private theorem disposition_lookup (disposition : FinalizeDispositionArgument) :
    dispositionChoices.lookup (dispositionName disposition) = some disposition := by
  cases disposition <;> rfl

/-- The fields that a reader finds in a task's record. -/
def taskValues (task : Task) : List (String × Value) :=
  (taskEntries task).map fun entry => (entry.1, entry.2.value)

private theorem taskNode_fields (task : Task) :
    typedView.fields taskFields (taskNode task).value = some (taskValues task) := by
  refine fields_record ?_ ?_
  · rw [taskEntries, finalizationEntries]
    cases task.acceptanceId <;> cases task.disposition <;> simp [taskFields]
  · rw [taskEntries, finalizationEntries]
    cases task.acceptanceId <;> cases task.disposition <;> simp

private theorem requiredField_of_lookup {α : Type} {fields : List (String × Value)} {name : String}
    {decode : Value → Option α} {value : Value} {result : α}
    (found : fields.lookup name = some value) (decoded : decode value = some result) :
    requiredField fields name decode = some result := by
  simp [requiredField, found, decoded]

private theorem bind_of_some {α β : Type} {first : Option α} {value : α} (next : α → Option β)
    (found : first = some value) : (first >>= next) = next value := by
  rw [found]
  rfl

/-- The finalization fields stand behind the others, when they are there. -/
private theorem finalization_lookup (task : Task) (name : String)
    (absent : name ∉ ["id", "title", "description", "context", "purpose", "expected_outcome",
      "kind", "status", "depends_on", "requirements", "timestamps", "blocked_reason",
      "recovery_state"]) :
    (taskValues task).lookup name =
      ((finalizationEntries task).map fun entry => (entry.1, entry.2.value)).lookup name := by
  rw [taskValues, taskEntries, List.map_append, List.lookup_append,
    List.lookup_eq_none_iff.mpr, Option.none_or]
  intro entry member
  refine bne_iff_ne.mpr fun same => absent ?_
  simp only [List.map_cons, List.map_nil] at member
  have names := List.mem_map_of_mem (f := (·.1)) member
  simpa [same] using names

private theorem acceptanceId_field (task : Task) :
    optionalField (taskValues task) "acceptance_id" typedView.text =
      some (task.acceptanceId.map readBack) := by
  rw [optionalField, finalization_lookup task "acceptance_id" (by simp), finalizationEntries]
  cases task.acceptanceId with
  | none => cases task.disposition <;> rfl
  | some acceptanceId => simp

private theorem disposition_field (task : Task) :
    optionalField (taskValues task) "disposition" (typedView.choice dispositionChoices) =
      some task.disposition := by
  have isWord : ∀ disposition, (Node.name (dispositionName disposition)).value.isNull = false := by
    intro disposition
    cases disposition <;> rfl
  rw [optionalField, finalization_lookup task "disposition" (by simp), finalizationEntries]
  cases task.disposition with
  | none => cases task.acceptanceId <;> rfl
  | some disposition =>
      cases task.acceptanceId <;> simp [List.lookup_cons, disposition_lookup, isWord]

private theorem decodeTask_node (task : Task) :
    decodeTask typedView (taskNode task).value = some (task.mapTexts readBack) := by
  have id : requiredField (taskValues task) "id" typedView.text = some (readBack task.id) :=
    requiredField_of_lookup rfl (text_quotedNode _)
  have title : requiredField (taskValues task) "title" typedView.text =
      some (readBack task.title) := requiredField_of_lookup rfl (text_quotedNode _)
  have description : requiredField (taskValues task) "description" typedView.text =
      some (readBack task.description) := requiredField_of_lookup rfl (text_quotedNode _)
  have context : requiredField (taskValues task) "context" typedView.text =
      some (readBack task.context) := requiredField_of_lookup rfl (text_quotedNode _)
  have purpose : requiredField (taskValues task) "purpose" typedView.text =
      some (readBack task.purpose) := requiredField_of_lookup rfl (text_quotedNode _)
  have expectedOutcome : requiredField (taskValues task) "expected_outcome" typedView.text =
      some (readBack task.expectedOutcome) := requiredField_of_lookup rfl (text_quotedNode _)
  have kind : requiredField (taskValues task) "kind" (typedView.choice taskKindChoices) =
      some task.kind :=
    requiredField_of_lookup rfl ((choice_name _ _).trans (taskKind_lookup _))
  have status : requiredField (taskValues task) "status" (typedView.choice taskStatusChoices) =
      some task.status :=
    requiredField_of_lookup rfl ((choice_name _ _).trans (taskStatus_lookup _))
  have dependsOn : requiredField (taskValues task) "depends_on" (typedView.list typedView.text) =
      some (task.dependsOn.map readBack) :=
    requiredField_of_lookup rfl (list_listNode text_quotedNode _)
  have requirements : requiredField (taskValues task) "requirements"
      (typedView.list typedView.text) = some (task.requirements.map readBack) :=
    requiredField_of_lookup rfl (list_listNode text_quotedNode _)
  have timestamps : requiredField (taskValues task) "timestamps" (decodeTimestamps typedView) =
      some (task.timestamps.mapTexts readBack) :=
    requiredField_of_lookup rfl (decodeTimestamps_node _)
  have blockedReason : optionalField (taskValues task) "blocked_reason" typedView.text =
      some (task.blockedReason.map readBack) := optionalField_text rfl
  have recoveryState : optionalField (taskValues task) "recovery_state"
      (decodeRecoveryState typedView) = some (task.recoveryState.map (·.mapTexts readBack)) :=
    optionalField_recoveryState rfl
  rw [decodeTask, bind_of_some _ (taskNode_fields task), bind_of_some _ id, bind_of_some _ title,
    bind_of_some _ description, bind_of_some _ context, bind_of_some _ purpose,
    bind_of_some _ expectedOutcome, bind_of_some _ kind, bind_of_some _ status,
    bind_of_some _ dependsOn, bind_of_some _ requirements, bind_of_some _ timestamps,
    bind_of_some _ blockedReason, bind_of_some _ recoveryState,
    bind_of_some _ (acceptanceId_field task), bind_of_some _ (disposition_field task)]
  rfl

private theorem unsigned_one : (Node.name "1").value.unsigned u32Bound = some 1 := by
  decide

private theorem queueNode_distinct (queue : TaskQueue) :
    ([("schema_version", Node.name "1"), ("component", componentNode queue.component),
      ("tasks", listNode taskNode queue.tasks)].map (·.1)).Nodup := by
  simp

theorem decodeQueue_node {queue : TaskQueue} (version : queue.schemaVersion = todoQueueVersion) :
    decodeQueue typedView (queueNode queue).value = some (queue.mapTexts readBack) := by
  rw [decodeQueue, queueNode, fields_record (by simp) (queueNode_distinct queue)]
  simp only [Option.bind_eq_bind, Option.bind_some, List.map_cons, List.map_nil]
  rw [requiredField_of_lookup rfl unsigned_one, Option.bind_some,
    requiredField_of_lookup rfl (decodeComponent_node _), Option.bind_some,
    requiredField_of_lookup rfl (list_listNode decodeTask_node _), Option.bind_some,
    TaskQueue.mapTexts, version]
  rfl

theorem decodeVersion_node (queue : TaskQueue) :
    decodeVersion typedView (queueNode queue).value = some todoQueueVersion := by
  rw [decodeVersion, queueNode, lenientFields_record (queueNode_distinct queue), Option.bind_eq_bind,
    Option.bind_some]
  exact requiredField_of_lookup rfl unsigned_one

/-! ## Queues that a change of their texts keeps -/

def Fixes (change : String → String) (texts : List String) : Prop :=
  ∀ text ∈ texts, change text = text

section Fixes

variable {change : String → String}

@[simp] private theorem fixes_nil : Fixes change [] ↔ True := by simp [Fixes]

@[simp] private theorem fixes_cons {text : String} {rest : List String} :
    Fixes change (text :: rest) ↔ change text = text ∧ Fixes change rest := by simp [Fixes]

@[simp] private theorem fixes_append {left right : List String} :
    Fixes change (left ++ right) ↔ Fixes change left ∧ Fixes change right := by
  simp only [Fixes, List.mem_append, or_imp, forall_and]

private theorem map_eq_self_iff {α : Type} {next : α → α} {texts : α → List String}
    (each : ∀ value, next value = value ↔ Fixes change (texts value)) {values : List α} :
    values.map next = values ↔ Fixes change (values.flatMap texts) := by
  induction values with
  | nil => simp
  | cons value rest ih => simp [ih, each]

private theorem option_map_eq_self_iff {α : Type} {next : α → α} {texts : α → List String}
    (each : ∀ value, next value = value ↔ Fixes change (texts value)) {value : Option α} :
    value.map next = value ↔ Fixes change (value.toList.flatMap texts) := by
  cases value <;> simp [each]

private theorem texts_eq_self_iff {values : List String} :
    values.map change = values ↔ Fixes change values := by
  induction values with
  | nil => simp
  | cons value rest ih => simp [ih]

private theorem option_text_eq_self_iff {value : Option String} :
    value.map change = value ↔ Fixes change value.toList := by
  cases value <;> simp

private theorem Timestamp.mapTexts_eq_iff (timestamp : Timestamp) :
    timestamp.mapTexts change = timestamp ↔ Fixes change timestamp.texts := by
  simp [Timestamp.ext_iff, Timestamp.mapTexts, Timestamp.texts]

private theorem ParentContract.mapTexts_eq_iff (parent : ParentContract) :
    parent.mapTexts change = parent ↔ Fixes change parent.texts := by
  cases parent
  simp [ParentContract.mapTexts, ParentContract.texts]

private theorem StalenessCause.mapTexts_eq_iff (cause : StalenessCause) :
    cause.mapTexts change = cause ↔ Fixes change cause.texts := by
  cases cause
  simp [StalenessCause.mapTexts, StalenessCause.texts]

private theorem Revalidation.mapTexts_eq_iff (revalidation : Revalidation) :
    revalidation.mapTexts change = revalidation ↔ Fixes change revalidation.texts := by
  cases revalidation
  simp only [Revalidation.mapTexts, Revalidation.texts, Revalidation.mk.injEq, true_and,
    Timestamp.mapTexts_eq_iff, option_map_eq_self_iff Timestamp.mapTexts_eq_iff,
    map_eq_self_iff StalenessCause.mapTexts_eq_iff, fixes_append, and_assoc]

private theorem ComponentState.mapTexts_eq_iff (component : ComponentState) :
    component.mapTexts change = component ↔ Fixes change component.texts := by
  cases component
  simp only [ComponentState.mapTexts, ComponentState.texts, ComponentState.mk.injEq,
    option_map_eq_self_iff ParentContract.mapTexts_eq_iff, Revalidation.mapTexts_eq_iff,
    fixes_append, fixes_cons, fixes_nil, and_true, and_assoc]

private theorem TaskTimestamps.mapTexts_eq_iff (timestamps : TaskTimestamps) :
    timestamps.mapTexts change = timestamps ↔ Fixes change timestamps.texts := by
  cases timestamps
  simp only [TaskTimestamps.mapTexts, TaskTimestamps.texts, TaskTimestamps.mk.injEq, and_true,
    Timestamp.mapTexts_eq_iff, option_map_eq_self_iff Timestamp.mapTexts_eq_iff, fixes_append,
    and_assoc]

private theorem RecoveryState.mapTexts_eq_iff (recovery : RecoveryState) :
    recovery.mapTexts change = recovery ↔ Fixes change recovery.texts := by
  cases recovery
  simp [RecoveryState.mapTexts, RecoveryState.texts]

private theorem Task.mapTexts_eq_iff (task : Task) :
    task.mapTexts change = task ↔ Fixes change task.texts := by
  cases task
  simp only [Task.mapTexts, Task.texts, Task.mk.injEq, true_and, and_true, texts_eq_self_iff,
    option_text_eq_self_iff, TaskTimestamps.mapTexts_eq_iff,
    option_map_eq_self_iff RecoveryState.mapTexts_eq_iff, fixes_append, fixes_cons, fixes_nil,
    and_assoc]

/-- A change of the quoted texts keeps the queue exactly when it keeps each of them. -/
theorem TaskQueue.mapTexts_eq_iff (queue : TaskQueue) :
    queue.mapTexts change = queue ↔ Fixes change queue.texts := by
  cases queue
  simp only [TaskQueue.mapTexts, TaskQueue.texts, TaskQueue.mk.injEq, true_and,
    ComponentState.mapTexts_eq_iff, map_eq_self_iff Task.mapTexts_eq_iff, fixes_append]

end Fixes

/-! ## The round trip -/

/-- A character comes back from the emitted queue: it is escaped or printable, and no line
separator. -/
def survives (character : Char) : Bool := isEmittable character && !isSeparator character

section Reader

variable {fromStr : String → Except String Value}

/-- What `parse` reads from the text of a queue of the supported version. -/
theorem parse_canonicalText (rules : BlockRules fromStr) {queue : TaskQueue}
    (version : queue.schemaVersion = todoQueueVersion)
    (printable : ∀ text ∈ queue.texts, ∀ character ∈ text.toList, isEmittable character = true) :
    parse fromStr (canonicalText queue) = (do
      validate (queue.mapTexts readBack)
      .ok (queue.mapTexts readBack)) := by
  have loaded : fromStr (canonicalText queue) = .ok (queueNode queue).value := by
    have printed := (canonicalText_printable version).mpr printable
    rw [canonicalText_eq_render version] at printed ⊢
    rw [String.toList_ofList] at printed
    exact rules.block _ rfl (wellFormed_queueNode queue) printed
  simp only [parse, parseTyped, fromStrAs, loaded, decodeVersion_node, decodeQueue_node version,
    ok_bind, beq_self_eq_true, ensure_true]

theorem parse_unprintable (rules : BlockRules fromStr) {queue : TaskQueue}
    (version : queue.schemaVersion = todoQueueVersion)
    (unprintable : ¬ ∀ text ∈ queue.texts, ∀ character ∈ text.toList,
      isEmittable character = true) :
    ∃ failure, parse fromStr (canonicalText queue) = .error failure := by
  have refused : (canonicalText queue).toList.all isPrintable = false := by
    rw [← Bool.not_eq_true, canonicalText_printable version]
    exact unprintable
  obtain ⟨reason, failed⟩ := rules.reader _ refused
  exact ⟨.error (.yaml reason), by simp [parse, parseTyped, fromStrAs, failed]⟩

theorem version_of_validate {queue : TaskQueue} (valid : validate queue = .ok ()) :
    queue.schemaVersion = todoQueueVersion := by
  simp only [validate, validateWith, bind_unit_ok_iff, ensure_ok_iff, beq_iff_eq] at valid
  exact valid.1

theorem survives_texts_iff {texts : List String} :
    (∀ text ∈ texts, ∀ character ∈ text.toList, survives character = true) ↔
      (∀ text ∈ texts, ∀ character ∈ text.toList, isEmittable character = true) ∧
        Fixes readBack texts := by
  simp only [survives, Bool.and_eq_true, Bool.not_eq_true', forall_and, Fixes, readBack_eq_iff]

theorem parse_of_survives (rules : BlockRules fromStr) {queue : TaskQueue}
    (valid : validate queue = .ok ())
    (survive : ∀ text ∈ queue.texts, ∀ character ∈ text.toList, survives character = true) :
    parse fromStr (canonicalText queue) = .ok queue := by
  obtain ⟨printable, fixed⟩ := survives_texts_iff.mp survive
  rw [parse_canonicalText rules (version_of_validate valid) printable,
    queue.mapTexts_eq_iff.mpr fixed, valid]
  rfl

/-- A valid queue comes back from its emitted text exactly when every character of every
quoted text survives. -/
theorem parse_serialize_iff (rules : BlockRules fromStr) {queue : TaskQueue}
    (valid : validate queue = .ok ()) :
    (∃ text, serialize queue = .ok text ∧ parse fromStr text = .ok queue) ↔
      ∀ text ∈ queue.texts, ∀ character ∈ text.toList, survives character = true := by
  have version := version_of_validate valid
  have emitted : serialize queue = .ok (canonicalText queue) := by simp [serialize, valid]
  rw [emitted]
  simp only [Except.ok.injEq, exists_eq_left']
  constructor
  · intro read
    by_cases printable : ∀ text ∈ queue.texts, ∀ character ∈ text.toList,
        isEmittable character = true
    · rw [parse_canonicalText rules version printable, bind_unit_ok_iff, Except.ok.injEq] at read
      exact survives_texts_iff.mpr ⟨printable, queue.mapTexts_eq_iff.mp read.2⟩
    · obtain ⟨failure, failed⟩ := parse_unprintable rules version printable
      rw [failed] at read
      cases read
  · exact parse_of_survives rules valid

end Reader

/-- A queue with one pending test task of this title. -/
def singleTaskQueue (title : String) : TaskQueue where
  schemaVersion := 1
  component :=
    { requirementsRevision :=
        "sha256:0000000000000000000000000000000000000000000000000000000000000000"
      contractRevision :=
        "sha256:1111111111111111111111111111111111111111111111111111111111111111"
      designRevision :=
        "sha256:2222222222222222222222222222222222222222222222222222222222222222"
      parentContract := none
      revalidation :=
        { state := .current, checkedAt := ⟨"2026-01-02T03:04:05Z"⟩, staleSince := none,
          causes := [] } }
  tasks := [{
    id := "cover-parser", title, description := "Cover the parser.", context := "None yet.",
    purpose := "Confidence.", expectedOutcome := "The parser is covered.", kind := .test,
    status := .pending, dependsOn := [], requirements := ["REQUIREMENTS.md#parser"],
    timestamps :=
      { createdAt := ⟨"2026-01-02T03:04:05Z"⟩, updatedAt := ⟨"2026-01-02T03:04:05Z"⟩,
        completedAt := none, recovered := false },
    blockedReason := none, recoveryState := none, acceptanceId := none, disposition := none }]

theorem singleTaskQueue_component (title : String) :
    validateComponent (singleTaskQueue title).component = .ok () := by
  have same : (singleTaskQueue title).component = (singleTaskQueue "").component := rfl
  rw [same]
  decide

theorem singleTaskQueue_valid {title : String}
    (tasks : validateTasks true (singleTaskQueue title).tasks = .ok ()) :
    validate (singleTaskQueue title) = .ok () := by
  unfold validate validateWith
  rw [singleTaskQueue_component, tasks]
  rfl

theorem parse_serialize_single :
    validate (singleTaskQueue "Cover the parser") = .ok () ∧
    ((∃ text, serialize (singleTaskQueue "Cover the parser") = .ok text ∧
        parse readDocument text = .ok (singleTaskQueue "Cover the parser")) ↔
      ∀ text ∈ (singleTaskQueue "Cover the parser").texts, ∀ character ∈ text.toList,
        survives character = true) :=
  have valid := singleTaskQueue_valid (by decide)
  ⟨valid, parse_serialize_iff readDocument_rules valid⟩

/-- A title may hold the delete character, which is neither escaped nor printable. -/
theorem parse_serialize_delete :
    ¬ ∀ fromStr, BlockRules fromStr → ∀ queue, validate queue = .ok () →
      ∃ text, serialize queue = .ok text ∧ parse fromStr text = .ok queue := by
  intro roundTrip
  have valid : validate (singleTaskQueue "Cover \x7f the parser") = .ok () :=
    singleTaskQueue_valid (by decide)
  obtain ⟨text, emitted, parsed⟩ := roundTrip readDocument readDocument_rules _ valid
  have canonical : text = canonicalText (singleTaskQueue "Cover \x7f the parser") := by
    simpa [serialize, valid] using emitted.symm
  obtain ⟨failure, failed⟩ := parse_unprintable readDocument_rules (version_of_validate valid)
    fun emittable => absurd (emittable "Cover \x7f the parser" (by decide) '\x7f' (by decide))
      (by decide)
  rw [canonical, failed] at parsed
  cases parsed

end Kvist.Queue
