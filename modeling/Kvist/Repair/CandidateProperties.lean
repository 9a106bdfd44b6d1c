import Kvist.Repair.QueueProperties
import Kvist.TaskQueue.RoundTrip

/-!
# What a repair candidate is

A candidate is the text of a valid queue whose tasks all come from the input, and the candidate
of a valid queue without active tasks is its own text.
-/

set_option autoImplicit false

namespace Kvist.Repair

open Yaml Text Queue

variable {fromStr : String → Except String Value} {contents : String} {salvage : Bool}

/-- A task of a repaired queue: it comes from an entry of the input and is not active. -/
structure Recovered (fromStr : String → Except String Value) (contents : String) (salvage : Bool)
    (task : Task) : Prop where
  entry : ∃ entry, InputEntry fromStr contents entry ∧ Retains salvage entry task
  idle : task.status ≠ .inProgress
  unfenced : task.recoveryState = none

private theorem isActive_normalizeTask (task : Task) :
    isActive (normalizeTask task) = isActive task := rfl

private theorem idle_of_not_active {task : Task} (idle : isActive task = false) :
    task.status ≠ .inProgress ∧ task.recoveryState = none := by
  unfold isActive at idle
  simp only [Bool.or_eq_false_iff, Option.isSome_eq_false_iff, Option.isNone_iff_eq_none,
    beq_eq_false_iff_ne] at idle
  exact ⟨idle.2, idle.1⟩

theorem candidate_recovered {found : Candidate}
    (repaired : candidate fromStr contents salvage = .ok found) :
    ∃ queue, validate queue = .ok () ∧ found.contents = canonicalText queue ∧
      ∀ task ∈ queue.tasks, Recovered fromStr contents salvage task := by
  unfold candidate at repaired
  obtain ⟨⟨value, reasons⟩, loaded, repaired⟩ := bind_ok_iff.mp repaired
  dsimp only at repaired
  obtain ⟨_, repaired⟩ := bind_unit_ok_iff.mp repaired
  obtain ⟨⟨queue, others⟩, decoded, repaired⟩ := bind_ok_iff.mp repaired
  dsimp only at repaired
  obtain ⟨finished, finish, gathered⟩ := bind_ok_iff.mp repaired
  cases gathered
  obtain ⟨idle, final, valid, text, originals⟩ := finish_ok finish
  refine ⟨final, valid, text, fun task member => ?_⟩
  obtain ⟨original, present, rfl⟩ := originals task member
  obtain ⟨items, tasks, entry, inside, retains⟩ := decodeDocument_tasks decoded present
  obtain ⟨sources, sourceTasks, rfl⟩ := fillMissing_tasks tasks
  obtain ⟨source, sourceMember, rfl⟩ := List.mem_map.mp inside
  have idleTask : isActive (normalizeTask original) = false := by
    rw [isActive_normalizeTask]
    exact idle original present
  exact {
    entry := ⟨source, loadDocument_input loaded sourceTasks sourceMember,
      ((fillEntry_same source).retains retains).normalize⟩
    idle := (idle_of_not_active idleTask).1
    unfenced := (idle_of_not_active idleTask).2 }

/-! ## A valid queue is its own candidate -/

private theorem read_some {α : Type} {value : Value} {name : String} {decode : Value → Option α}
    {result : α} (read : value.read name decode = some result) :
    ∃ field, value.get name = some field ∧ decode field = some result :=
  Option.bind_eq_some_iff.mp read

private theorem isNull_of_text {value : Value} {text : String}
    (read : untypedView.text value = some text) : value.isNull = false := by
  cases null : value.isNull with
  | false => rfl
  | true =>
      have absent := Value.isNull_eq_true null
      unfold Value.str? at absent
      rw [absent] at read
      cases read

private theorem status_of_completed {status : TaskStatus}
    (named : taskStatusChoices.lookup "completed" = some status) : status = .completed := by
  have completed : taskStatusChoices.lookup "completed" = some TaskStatus.completed := by decide
  rw [completed] at named
  exact (Option.some.inj named).symm

private theorem completed_of_entryStatus {entry : Value} {status : TaskStatus}
    (read : entry.read "status" (untypedView.choice taskStatusChoices) = some status)
    (completed : entryStatus entry = "completed") : status = .completed := by
  obtain ⟨field, found, chosen⟩ := read_some read
  obtain ⟨name, text, named⟩ := Option.bind_eq_some_iff.mp chosen
  unfold entryStatus Value.index at completed
  have same : name = "completed" := by
    rw [found, Option.getD_some, Value.str?, text, Option.getD_some] at completed
    exact completed
  rw [same] at named
  exact status_of_completed named

/-- What `fill_missing_timestamp_metadata` looks at in timestamps that were read. -/
private structure ReadTimestamps (entries : List (Value × Value)) (timestamps : TaskTimestamps) :
    Prop where
  creation : isAbsent "created_at" entries = false
  update : isAbsent "updated_at" entries = false
  completion : isAbsent "completed_at" entries = true → timestamps.completedAt = none
  recovered : timestamps.recovered = true →
    (getField "recovered" entries).bind Value.boolean = some true

private theorem present_of_required {entries : List (Value × Value)}
    {fields : List (String × Value)} {known : List String} {name : String} {timestamp : Timestamp}
    (record : untypedView.fields known (.mapping entries) = some fields)
    (read : requiredField fields name (decodeTimestamp untypedView) = some timestamp) :
    isAbsent name entries = false := by
  rw [requiredField_untyped record] at read
  obtain ⟨field, found, decoded⟩ := read_some read
  obtain ⟨text, spelled, _⟩ := Option.map_eq_some_iff.mp decoded
  rw [Value.get_mapping] at found
  unfold isAbsent
  rw [found, Option.all_some, isNull_of_text spelled]

private theorem readTimestamps {value : Value} {timestamps : TaskTimestamps}
    (read : decodeTimestamps untypedView value = some timestamps) :
    ∃ entries, value = .mapping entries ∧ ReadTimestamps entries timestamps := by
  simp only [decodeTimestamps, Option.bind_eq_bind, Option.bind_eq_some_iff,
    Option.some.injEq] at read
  obtain ⟨fields, record, created, creation, updated, update, completed, completion, recovered,
    recovery, rfl⟩ := read
  cases value with
  | plain _ _ | quoted _ | sequence _ => cases record
  | mapping entries =>
      refine ⟨entries, rfl, present_of_required record creation, present_of_required record update,
        ?_, ?_⟩
      · intro absent
        unfold optionalField at completion
        rw [lookup_untyped_fields record, Value.get_mapping] at completion
        unfold isAbsent at absent
        cases found : getField "completed_at" entries with
        | none =>
            simp only [found, Option.some.injEq] at completion
            exact completion.symm
        | some field =>
            rw [found, Option.all_some] at absent
            simp only [found, absent, if_true, Option.some.injEq] at completion
            exact completion.symm
      · intro isRecovered
        have chosen : recovered = true := isRecovered
        unfold defaultField at recovery
        rw [lookup_untyped_fields record, Value.get_mapping] at recovery
        cases found : getField "recovered" entries with
        | none =>
            simp only [found, Option.some.injEq] at recovery
            rw [chosen] at recovery
            cases recovery
        | some field =>
            simp only [found] at recovery
            rw [Option.bind_some, recovery, chosen]

private theorem fillTimestamps_none {status : String} {fields entries : List (Value × Value)}
    {timestamps : TaskTimestamps} (starting : startingTimestamps fields = some entries)
    (read : ReadTimestamps entries timestamps)
    (settled : status = "completed" → timestamps.completedAt = none →
      timestamps.recovered = true) : fillTimestamps status fields = none := by
  have enough : (status == "completed" && isAbsent "completed_at" entries &&
      (getField "recovered" entries).bind Value.boolean != some true) = false := by
    by_cases completed : status = "completed"
    · cases absent : isAbsent "completed_at" entries with
      | false => rw [Bool.and_false, Bool.false_and]
      | true =>
          rw [read.recovered (settled completed (read.completion absent)), bne_self_eq_false,
            Bool.and_false]
    · rw [beq_eq_false_iff_ne.mpr completed, Bool.false_and, Bool.false_and]
  unfold fillTimestamps
  simp only [starting, read.creation, read.update, enough, Option.bind_eq_bind, Option.bind_some]
  split
  · rfl
  · rfl

private theorem fillEntry_of_valid {entry : Value} {task : Task}
    (read : decodeTask untypedView entry = some task) (valid : validateTask true task = .ok ()) :
    fillEntry entry = (entry, []) := by
  obtain ⟨fields, record, reads⟩ := decodeTask_some read
  have status := reads.status
  have timestamps := reads.timestamps
  rw [requiredField_untyped record] at status timestamps
  obtain ⟨field, found, decoded⟩ := read_some timestamps
  obtain ⟨entries, rfl, known⟩ := readTimestamps decoded
  cases entry with
  | plain _ _ | quoted _ | sequence _ => cases record
  | mapping entryFields =>
      have starting : startingTimestamps entryFields = some entries := by
        rw [Value.get_mapping] at found
        unfold startingTimestamps
        rw [found]
      have nothing : fillTimestamps (entryStatus (.mapping entryFields)) entryFields = none :=
        fillTimestamps_none starting known fun completed unknown =>
          recovered_of_valid valid (completed_of_entryStatus status completed) unknown
      unfold fillEntry
      dsimp only
      rw [nothing]

private theorem fillEntries_of_valid {items : List Value} {tasks : List Task}
    (read : items.mapM (decodeTask untypedView) = some tasks)
    (valid : ∀ task ∈ tasks, validateTask true task = .ok ()) :
    items.map fillEntry = items.map fun entry => (entry, []) := by
  induction items generalizing tasks with
  | nil => rfl
  | cons entry rest ih =>
      simp only [List.mapM_cons, Option.bind_eq_bind, Option.bind_eq_some_iff, Option.pure_def,
        Option.some.injEq] at read
      obtain ⟨first, readFirst, others, readOthers, rfl⟩ := read
      have restValid : ∀ task ∈ others, validateTask true task = .ok () := by
        intro task member
        exact valid task (List.mem_cons_of_mem first member)
      rw [List.map_cons, List.map_cons, ih readOthers restValid,
        fillEntry_of_valid readFirst (valid first List.mem_cons_self)]

private theorem decodeQueue_document {value : Value} {queue : TaskQueue}
    (read : decodeQueue untypedView value = some queue) :
    (value.read "schema_version" (Value.unsigned u32Bound) = some queue.schemaVersion) ∧
    ∃ entries field items, value = .mapping entries ∧ getField "tasks" entries = some field ∧
      untypedView.sequence field = some items ∧
      items.mapM (decodeTask untypedView) = some queue.tasks := by
  simp only [decodeQueue, Option.bind_eq_bind, Option.bind_eq_some_iff, Option.some.injEq] at read
  obtain ⟨fields, record, version, versionRead, component, _, tasks, tasksRead, rfl⟩ := read
  rw [requiredField_untyped record] at versionRead tasksRead
  refine ⟨versionRead, ?_⟩
  obtain ⟨field, found, listed⟩ := read_some tasksRead
  simp only [View.list, Option.bind_eq_bind, Option.bind_eq_some_iff] at listed
  obtain ⟨items, sequence, readItems⟩ := listed
  cases value with
  | plain _ _ | quoted _ | sequence _ => cases record
  | mapping entries => exact ⟨entries, field, items, rfl, found, sequence, readItems⟩

private theorem fillMissing_of_valid {value : Value} {queue : TaskQueue}
    (read : decodeQueue untypedView value = some queue)
    (valid : ∀ task ∈ queue.tasks, validateTask true task = .ok ()) :
    fillMissingTimestampMetadata value = (value, []) := by
  obtain ⟨_, entries, field, items, rfl, found, sequence, readItems⟩ := decodeQueue_document read
  have kept : insertMissing "tasks" .null entries = entries := by
    unfold insertMissing
    rw [found]
    rfl
  unfold fillMissingTimestampMetadata
  dsimp only
  rw [kept, found]
  cases field with
  | plain _ _ | quoted _ | mapping _ => rfl
  | sequence _ =>
      cases sequence
      have same : items.map fillEntry = items.map fun entry => (entry, []) :=
        fillEntries_of_valid readItems valid
      have values : (items.map fillEntry).map (·.1) = items := by
        rw [same, List.map_map]
        exact List.map_id items
      have reasons : (items.map fillEntry).flatMap (·.2) = [] := by
        rw [same, List.flatMap_map]
        exact List.flatMap_eq_nil_iff.mpr fun _ _ => rfl
      dsimp only
      rw [values, reasons, insertField_self found]

private theorem unsigned_mono {small large : Nat} (le : small ≤ large) {value : Value} {number : Nat}
    (read : value.unsigned small = some number) : value.unsigned large = some number := by
  unfold Value.unsigned at read ⊢
  split at read
  · next text inner =>
      split at read
      · next less =>
          cases read
          exact if_pos (less.trans_le le)
      · cases read
  · cases read

private theorem hasSchemaVersion_of_read {value : Value}
    (read : value.read "schema_version" (Value.unsigned u32Bound) = some 1) :
    hasSchemaVersion value = true := by
  obtain ⟨field, found, version⟩ := read_some read
  unfold hasSchemaVersion Value.index
  rw [found, Option.getD_some, unsigned_mono (by decide) version]
  rfl

private theorem normalize_of_valid {queue : TaskQueue}
    (valid : ∀ task ∈ queue.tasks, validateTask true task = .ok ()) :
    normalizeSetLists queue = queue := by
  have same : queue.tasks.map normalizeTask = queue.tasks := by
    conv_rhs => rw [← List.map_id queue.tasks]
    exact List.map_congr_left fun task member => normalizeTask_of_validate (valid task member)
  unfold normalizeSetLists
  rw [same]

/-- The passes behind the typed queue keep a valid queue that has no active task. -/
theorem finish_of_valid {queue : TaskQueue} (valid : validate queue = .ok ())
    (idle : ∀ task ∈ queue.tasks, task.status ≠ .inProgress) :
    finish salvage queue = .ok { contents := canonicalText queue, reasons := [.normalized] } := by
  obtain ⟨_, _, each, sound⟩ := (validate_ok_iff queue).mp valid
  have inactive : queue.tasks.any isActive = false := by
    rw [List.any_eq_false]
    intro task member
    unfold isActive
    rw [recoveryState_of_valid (each task member) (idle task member)]
    simpa using idle task member
  have pushed : pushTasks salvage { queue with tasks := [] } queue.tasks = .ok (queue, []) :=
    pushTasks_of_valid { queue with tasks := [] } valid
  unfold finish
  dsimp only
  rw [inactive, normalize_of_valid each, orderedTasks_of_sound sound]
  simp only [Bool.not_false, ensure_true, ok_bind, List.isEmpty_nil, Bool.true_or, pushed,
    serialize_of_validate valid, List.map_nil, List.nil_append]

/-- A queue that is valid, has no active task and is read alike from the untyped document is
its own candidate. -/
theorem candidate_of_valid {queue : TaskQueue} {document : Value}
    (parsed : parse fromStr contents = .ok queue)
    (idle : ∀ task ∈ queue.tasks, task.status ≠ .inProgress)
    (loaded : fromStr contents = .ok document)
    (readable : (decodeQueue untypedView document).isSome = true) :
    candidate fromStr contents false =
      .ok { contents := canonicalText queue, reasons := [.normalized] } := by
  unfold parse at parsed
  obtain ⟨_, typed, parsed⟩ := bind_ok_iff.mp parsed
  obtain ⟨valid, same⟩ := bind_unit_ok_iff.mp parsed
  cases same
  unfold parseTyped at typed
  obtain ⟨_, _, typed⟩ := bind_ok_iff.mp typed
  obtain ⟨_, typed⟩ := bind_unit_ok_iff.mp typed
  have typedRead : decodeQueue typedView document = some queue := by
    unfold fromStrAs at typed
    rw [loaded] at typed
    dsimp only at typed
    cases read : decodeQueue typedView document with
    | none =>
        rw [read] at typed
        cases typed
    | some decoded =>
        rw [read] at typed
        cases typed
        rfl
  obtain ⟨other, untyped⟩ := Option.isSome_iff_exists.mp readable
  obtain rfl := decodeQueue_agree typed_untyped_agree document queue other typedRead untyped
  obtain ⟨version, _, each, _⟩ := (validate_ok_iff queue).mp valid
  have versionRead := (decodeQueue_document untyped).1
  rw [version] at versionRead
  unfold candidate loadDocument decodeDocument
  simp only [loaded, ok_bind, hasSchemaVersion_of_read versionRead, ensure_true,
    fillMissing_of_valid untyped each, Bool.false_eq_true, if_false, untyped,
    finish_of_valid valid idle, List.nil_append]

/-- Repair neither invents nor weakens work, in both modes and on every text. -/
theorem candidate_faithful (fromStr : String → Except String Value) (contents : String) :
    (∀ salvage found, candidate fromStr contents salvage = .ok found →
      ∃ queue, validate queue = .ok () ∧ found.contents = canonicalText queue ∧
        ∀ task ∈ queue.tasks, Recovered fromStr contents salvage task ∧
          ∀ dependency ∈ task.dependsOn, ∃ other ∈ queue.tasks, other.id = dependency) ∧
    (∀ queue document, parse fromStr contents = .ok queue →
      (∀ task ∈ queue.tasks, task.status ≠ .inProgress) → fromStr contents = .ok document →
      (decodeQueue untypedView document).isSome = true →
      candidate fromStr contents false =
        .ok { contents := canonicalText queue, reasons := [.normalized] }) := by
  constructor
  · intro salvage found repaired
    obtain ⟨queue, valid, text, recovered⟩ := candidate_recovered repaired
    obtain ⟨_, _, _, sound⟩ := (validate_ok_iff queue).mp valid
    exact ⟨queue, valid, text, fun task member =>
      ⟨recovered task member, sound.declared.known task member⟩⟩
  · intro queue document parsed idle loaded readable
    exact candidate_of_valid parsed idle loaded readable

/-! ## Two documents with a title that repair does not keep -/

def titledTask (title : String) : Task :=
  { id := "one", title := title, description := "d", context := "c", purpose := "p"
    expectedOutcome := "e", kind := .test, status := .pending, dependsOn := [], requirements := []
    timestamps :=
      { createdAt := Timestamp.defaultInstant, updatedAt := Timestamp.defaultInstant
        completedAt := none, recovered := false }
    blockedReason := none, recoveryState := none, acceptanceId := none, disposition := none }

def titledQueue (component : ComponentState) (title : String) : TaskQueue :=
  { schemaVersion := 1, component, tasks := [titledTask title] }

/-- The tree of a list of one task. -/
def titledTasks (title : Node) : Node :=
  .sequence [.record
    [("id", quotedNode "one"), ("title", title), ("description", quotedNode "d"),
      ("context", quotedNode "c"), ("purpose", quotedNode "p"),
      ("expected_outcome", quotedNode "e"), ("kind", .name "test"), ("status", .name "pending"),
      ("depends_on", .emptySequence), ("requirements", .emptySequence),
      ("timestamps", .record [("created_at", quotedNode "1970-01-01T00:00:00Z"),
        ("updated_at", quotedNode "1970-01-01T00:00:00Z"), ("completed_at", .name "null")]),
      ("blocked_reason", .name "null"), ("recovery_state", .name "null")]]

def titledNode (component : List (String × Node)) (title : Node) : Node :=
  .record (("schema_version", .name "1") :: component ++ [("tasks", titledTasks title)])

def word (text : String) : Value := .plain text (resolveWord text.toList)

/-- The document of such a tree. -/
def titledDocument (component : List (Value × Value)) (title : Value) : Value :=
  .mapping ((word "schema_version", word "1") :: component ++ [(word "tasks", .sequence [.mapping
    [(word "id", .quoted "one"), (word "title", title), (word "description", .quoted "d"),
      (word "context", .quoted "c"), (word "purpose", .quoted "p"),
      (word "expected_outcome", .quoted "e"), (word "kind", word "test"),
      (word "status", word "pending"), (word "depends_on", .sequence []),
      (word "requirements", .sequence []),
      (word "timestamps", .mapping [(word "created_at", .quoted "1970-01-01T00:00:00Z"),
        (word "updated_at", .quoted "1970-01-01T00:00:00Z"), (word "completed_at", word "null")]),
      (word "blocked_reason", word "null"), (word "recovery_state", word "null")]])])

private theorem value_quoted {text : String}
    (ordinary : text.toList.all (fun character => !isSeparator character) = true) :
    (quotedNode text).value = .quoted text := by
  have same : readBack text = text := (readBack_eq_iff text).mpr fun character member => by
    simpa using List.all_eq_true.mp ordinary character member
  unfold quotedNode
  rw [Node.value, unquote_escape, same, Option.getD_some, String.ofList_toList]

private theorem value_emptySequence : Node.emptySequence.value = .sequence [] := rfl

private theorem titledNode_value (component : List (String × Node)) (title : Node) :
    (titledNode component title).value =
      titledDocument (component.map fun entry => (word entry.1, entry.2.value)) title.value := by
  have one : (quotedNode "one").value = .quoted "one" := value_quoted (by decide)
  have d : (quotedNode "d").value = .quoted "d" := value_quoted (by decide)
  have c : (quotedNode "c").value = .quoted "c" := value_quoted (by decide)
  have p : (quotedNode "p").value = .quoted "p" := value_quoted (by decide)
  have e : (quotedNode "e").value = .quoted "e" := value_quoted (by decide)
  have instant : (quotedNode "1970-01-01T00:00:00Z").value = .quoted "1970-01-01T00:00:00Z" :=
    value_quoted (by decide)
  simp only [titledNode, titledTasks, Node.value_record, List.map_append, List.map_cons, List.map_nil,
    Node.value_sequence, Node.value_name, value_emptySequence, one, d, c, p, e, instant]
  rfl

def currentField : List (String × Node) :=
  [("component", componentNode (singleTaskQueue "").component)]

def currentDocument : Value :=
  .mapping [
    (word "requirements_revision",
      .quoted "sha256:0000000000000000000000000000000000000000000000000000000000000000"),
    (word "contract_revision",
      .quoted "sha256:1111111111111111111111111111111111111111111111111111111111111111"),
    (word "design_revision",
      .quoted "sha256:2222222222222222222222222222222222222222222222222222222222222222"),
    (word "parent_contract", word "null"),
    (word "revalidation", .mapping [(word "state", word "current"),
      (word "checked_at", .quoted "2026-01-02T03:04:05Z"), (word "stale_since", word "null"),
      (word "causes", .sequence [])])]

private theorem currentField_value :
    (currentField.map fun entry => (word entry.1, entry.2.value)) =
      [(word "component", currentDocument)] := by
  have requirements : (quotedNode
      "sha256:0000000000000000000000000000000000000000000000000000000000000000").value =
      .quoted "sha256:0000000000000000000000000000000000000000000000000000000000000000" :=
    value_quoted (by decide)
  have contract : (quotedNode
      "sha256:1111111111111111111111111111111111111111111111111111111111111111").value =
      .quoted "sha256:1111111111111111111111111111111111111111111111111111111111111111" :=
    value_quoted (by decide)
  have design : (quotedNode
      "sha256:2222222222222222222222222222222222222222222222222222222222222222").value =
      .quoted "sha256:2222222222222222222222222222222222222222222222222222222222222222" :=
    value_quoted (by decide)
  have checked : (quotedNode "2026-01-02T03:04:05Z").value = .quoted "2026-01-02T03:04:05Z" :=
    value_quoted (by decide)
  simp only [currentField, List.map_cons, List.map_nil, componentNode, singleTaskQueue,
    parentContractNode, Option.elim_none, revalidationNode, optionalNode, Option.map_none, listNode,
    List.isEmpty_nil, if_true, revalidationStateName, Node.value_record, Node.value_name,
    value_emptySequence, requirements, contract, design, checked]
  rfl

private theorem repeatedRevision_valid {digit : Char} (hex : isLowerHex digit = true)
    (name : String) : validateRevision (repeatedRevision digit) name = .ok () := by
  have parts : (repeatedRevision digit).toList =
      sha256Prefix.toList ++ List.replicate sha256HexLength digit := by
    simp [repeatedRevision]
  unfold validateRevision
  rw [parts, stripLeading_append]
  simp [require, sha256HexLength, hex]

private theorem repeatedRevision_ne : repeatedRevision '0' ≠ repeatedRevision '1' := by
  intro same
  have texts := congrArg String.toList same
  simp [repeatedRevision, sha256HexLength] at texts

theorem unacceptedRevalidation_valid :
    (do
      unacceptedComponent.revalidation.checkedAt.validate "component.revalidation.checked_at"
      validateRevalidationState unacceptedComponent.revalidation
      checkAll validateCause unacceptedComponent.revalidation.causes.zipIdx) = .ok () := by
  have instant : ∀ name, Timestamp.defaultInstant.validate name = .ok () := fun name => by
    unfold Timestamp.validate
    rfl
  have causes : checkAll validateCause unacceptedComponent.revalidation.causes.zipIdx = .ok () := by
    refine checkAll_ok_iff.mpr fun entry member => ?_
    obtain rfl := List.mem_singleton.mp member
    unfold validateCause
    have expected := @repeatedRevision_valid '0' rfl
    have observed := @repeatedRevision_valid '1' rfl
    simp only [expected, observed, ok_bind]
    simp [require, repeatedRevision_ne]
  have state : validateRevalidationState unacceptedComponent.revalidation = .ok () :=
    bind_unit_ok_iff.mpr ⟨instant _, bind_unit_ok_iff.mpr ⟨by decide, rfl⟩⟩
  exact bind_unit_ok_iff.mpr ⟨instant _, bind_unit_ok_iff.mpr ⟨state, causes⟩⟩

theorem unacceptedComponent_valid : validateComponent unacceptedComponent = .ok () := by
  have revision : ∀ name, validateRevision (repeatedRevision '0') name = .ok () :=
    repeatedRevision_valid rfl
  unfold validateComponent
  rw [bind_unit_ok_iff, bind_unit_ok_iff, bind_unit_ok_iff]
  exact ⟨revision _, revision _, revision _,
    bind_unit_ok_iff.mpr ⟨rfl, unacceptedRevalidation_valid⟩⟩

/-- A title with a space before it, in a document without a component. -/
def spacedText : String := String.ofList (titledNode [] (quotedNode " One")).render

def spacedDocument : Value := titledDocument [] (.quoted " One")

private theorem spacedText_loads : readDocument spacedText = .ok spacedDocument := by
  have spaced : (quotedNode " One").value = .quoted " One" := value_quoted (by decide)
  have loaded := readDocument_rules.block (titledNode [] (quotedNode " One")) rfl
    (by decide +kernel) (by decide +kernel)
  rwa [titledNode_value, spaced] at loaded

/-- A complete queue with this title. -/
def currentText (title : Node) : String :=
  String.ofList (titledNode currentField title).render

private theorem currentText_loads {title : Node}
    (tasks : (titledTasks title).wellFormed = true)
    (printable : (titledNode currentField title).render.all isPrintable = true) :
    readDocument (currentText title) =
      .ok (titledDocument [(word "component", currentDocument)] title.value) := by
  have wellFormed : (titledNode currentField title).wellFormed = true := by
    refine Node.wellFormed_record (by simp [currentField]) (by simp [currentField]) ?_
      fun node member => ?_
    · simp only [currentField, List.cons_append, List.nil_append, List.map_cons, List.map_nil]
      decide
    · simp only [currentField, List.cons_append, List.nil_append, List.mem_cons, List.not_mem_nil,
        or_false] at member
      rcases member with rfl | rfl | rfl
      · rfl
      · exact wellFormed_componentNode _
      · exact tasks
  have loaded := readDocument_rules.block (titledNode currentField title) rfl wellFormed printable
  rwa [titledNode_value, currentField_value] at loaded

private theorem titledQueue_valid {component : ComponentState} {title : String}
    (valid : validateComponent component = .ok ())
    (tasks : validateTasks true [titledTask title] = .ok ()) :
    validate (titledQueue component title) = .ok () := by
  unfold validate validateWith titledQueue
  dsimp only
  rw [valid, tasks]
  rfl

private theorem parse_of_decode {document : Value} {queue : TaskQueue}
    (loaded : fromStr contents = .ok document) (version : decodeVersion typedView document = some 1)
    (decoded : decodeQueue typedView document = some queue) (valid : validate queue = .ok ()) :
    parse fromStr contents = .ok queue := by
  unfold parse parseTyped fromStrAs
  rw [loaded]
  dsimp only
  rw [version]
  simp only [ok_bind, todoQueueVersion, beq_self_eq_true, ensure_true, decoded, valid]

private theorem candidate_of_decode {document : Value} {queue : TaskQueue}
    (loaded : fromStr contents = .ok document) (version : hasSchemaVersion document = true)
    (decoded : (decodeDocument salvage (fillMissingTimestampMetadata document).1).toOption.map
      (·.1) = some queue)
    (valid : validate queue = .ok ()) (idle : ∀ task ∈ queue.tasks, task.status ≠ .inProgress) :
    ∃ found, candidate fromStr contents salvage = .ok found ∧
      found.contents = canonicalText queue := by
  cases read : decodeDocument salvage (fillMissingTimestampMetadata document).1 with
  | error error =>
      rw [read] at decoded
      cases decoded
  | ok result =>
      obtain ⟨other, reasons⟩ := result
      rw [read] at decoded
      obtain rfl := Option.some.inj decoded
      unfold candidate loadDocument
      simp only [loaded, ok_bind, version, ensure_true, read, finish_of_valid valid idle]
      exact ⟨_, rfl, rfl⟩

private theorem candidate_unreadable {document : Value} (loaded : fromStr contents = .ok document)
    (unreadable : decodeQueue untypedView (fillMissingTimestampMetadata document).1 = none)
    (found : Candidate) : candidate fromStr contents false ≠ .ok found := by
  intro repaired
  unfold candidate loadDocument decodeDocument at repaired
  simp only [loaded, ok_bind, Bool.false_eq_true, if_false, unreadable, error_bind] at repaired
  obtain ⟨_, refused⟩ := bind_unit_ok_iff.mp repaired
  cases refused

private theorem spacedText_candidate :
    ∃ found, candidate readDocument spacedText true = .ok found ∧
      found.contents = canonicalText (titledQueue unacceptedComponent "One") :=
  candidate_of_decode spacedText_loads (by decide) (by decide)
    (titledQueue_valid unacceptedComponent_valid (by decide)) (by decide)

private theorem plainText_loads :
    readDocument (currentText (quotedNode "One")) =
      .ok (titledDocument [(word "component", currentDocument)] (.quoted "One")) := by
  have plain : (quotedNode "One").value = .quoted "One" := value_quoted (by decide)
  have loaded := @currentText_loads (quotedNode "One") (by decide +kernel) (by decide +kernel)
  rwa [plain] at loaded

private theorem plainText_parse :
    parse readDocument (currentText (quotedNode "One")) =
      .ok (titledQueue (singleTaskQueue "").component "One") :=
  parse_of_decode plainText_loads (by decide) (by decide)
    (titledQueue_valid (singleTaskQueue_component "") (by decide))

private theorem numberedText_loads :
    readDocument (currentText (.name "1")) =
      .ok (titledDocument [(word "component", currentDocument)] (word "1")) := by
  have loaded := @currentText_loads (.name "1") (by decide +kernel) (by decide +kernel)
  rwa [Node.value_name] at loaded

private theorem numberedText_parse :
    parse readDocument (currentText (.name "1")) =
      .ok (titledQueue (singleTaskQueue "").component "1") :=
  parse_of_decode numberedText_loads (by decide) (by decide)
    (titledQueue_valid (singleTaskQueue_component "") (by decide))

/-- Both halves at a document of each kind. -/
theorem candidate_faithful_titles :
    (∃ queue, validate queue = .ok () ∧
      canonicalText (titledQueue unacceptedComponent "One") = canonicalText queue ∧
      ∀ task ∈ queue.tasks, Recovered readDocument spacedText true task ∧
        ∀ dependency ∈ task.dependsOn, ∃ other ∈ queue.tasks, other.id = dependency) ∧
    candidate readDocument (currentText (quotedNode "One")) false =
      .ok { contents := canonicalText (titledQueue (singleTaskQueue "").component "One")
            reasons := [.normalized] } := by
  constructor
  · obtain ⟨found, repaired, text⟩ := spacedText_candidate
    rw [← text]
    exact (candidate_faithful readDocument spacedText).1 true found repaired
  · exact (candidate_faithful readDocument _).2 _ _ plainText_parse (by decide) plainText_loads
      (by decide)

/-- Salvage trims a title that starts with a space. A title that is a number is a text of the
typed reading only, so that the other mode refuses a valid queue. -/
theorem candidate_changes_titles :
    (∃ found queue, candidate readDocument spacedText true = .ok found ∧
      found.contents = canonicalText queue ∧
      ∃ task ∈ queue.tasks, ∀ entry, InputEntry readDocument spacedText entry →
        entry.read "title" untypedView.text ≠ some task.title) ∧
    ∃ queue, parse readDocument (currentText (.name "1")) = .ok queue ∧
      (∀ task ∈ queue.tasks, task.status ≠ .inProgress) ∧
      ∀ found, candidate readDocument (currentText (.name "1")) false ≠ .ok found := by
  constructor
  · obtain ⟨found, repaired, text⟩ := spacedText_candidate
    refine ⟨found, _, repaired, text, titledTask "One", List.mem_cons_self, ?_⟩
    intro entry input
    cases input with
    | fragment error before fragment after unreadable =>
        rw [spacedText_loads] at unreadable
        cases unreadable
    | item document items loaded tasks member =>
        rw [spacedText_loads] at loaded
        cases loaded
        have titles : ((spacedDocument.index "tasks").items?.map fun items =>
            items.map fun entry => entry.read "title" untypedView.text) = some [some " One"] := by
          decide
        unfold Value.index at titles
        rw [tasks] at titles
        have single : items.map (fun entry => entry.read "title" untypedView.text) =
            [some " One"] := Option.some.inj titles
        have here : entry.read "title" untypedView.text ∈ [some " One"] := by
          rw [← single]
          exact List.mem_map_of_mem member
        rw [List.mem_singleton.mp here]
        simp [titledTask]
  · exact ⟨_, numberedText_parse, by decide, candidate_unreadable numberedText_loads
      (by decide)⟩

end Kvist.Repair
