import Kvist.TaskQueue.Emit
import Kvist.Yaml.Block

/-!
# The presentation tree of a queue

The text of `serialize` is the rendering of a well-formed presentation tree of the queue, and
it is printable exactly when the quoted texts are emittable. A quoted text is read back
unchanged exactly when it has no line separator.
-/

set_option autoImplicit false

namespace Kvist.Queue

open Yaml

/-! ## Quoted texts -/

def emittedPiece (character : Char) : Piece :=
  if character = ' ' then .blank ' '
  else if isSeparator character then .lineBreak
  else .text character

private theorem hexCharacter_escape :
    ∀ code < 32, unicodeEscape '0' '0' (hexCharacter (code / 16)) (hexCharacter (code % 16)) =
      some (Char.ofNat code) := by decide

theorem spells_escapeCharacter (character : Char) :
    Spells (escapeCharacter character) (emittedPiece character) := by
  by_cases quote : character = '"'
  · subst quote
    exact spells_simple (by decide) rfl
  by_cases backslash : character = '\\'
  · subst backslash
    exact spells_simple (by decide) rfl
  by_cases lineFeed : character = '\n'
  · subst lineFeed
    exact spells_simple (by decide) rfl
  by_cases carriageReturn : character = '\r'
  · subst carriageReturn
    exact spells_simple (by decide) rfl
  by_cases tab : character = '\t'
  · subst tab
    exact spells_simple (by decide) rfl
  by_cases control : character.toNat ≤ 0x1f
  · have notSpace : character ≠ ' ' := by
      rintro rfl
      revert control
      decide
    have notSeparator : isSeparator character = false := by
      simp only [isSeparator, Bool.or_eq_false_iff, beq_eq_false_iff_ne]
      omega
    have decoded := hexCharacter_escape character.toNat (by omega)
    rw [Char.ofNat_toNat] at decoded
    simp only [escapeCharacter, quote, backslash, lineFeed, carriageReturn, tab, control, if_true,
      if_false, emittedPiece, notSpace, notSeparator, Bool.false_eq_true]
    exact spells_unicode decoded
  · simp only [escapeCharacter, quote, backslash, lineFeed, carriageReturn, tab, control, if_false]
    refine spells_plain backslash ?_
    simp only [plainPiece, quote, lineFeed, carriageReturn, tab, or_false, if_false, emittedPiece]
    by_cases space : character = ' '
    · subst space
      rfl
    · simp only [space, if_false]
      split <;> rfl

def readBack (value : String) : String :=
  String.ofList (fold (.blanks []) (value.toList.map emittedPiece))

theorem unquote_escape (value : String) :
    unquote (value.toList.flatMap escapeCharacter) = some (readBack value).toList := by
  rw [unquote, pieces_flatMap spells_escapeCharacter, readBack, String.toList_ofList]
  rfl

private theorem emittedPiece_characters {character : Char}
    (ordinary : isSeparator character = false) :
    emittedPiece character ≠ .lineBreak ∧ (emittedPiece character).characters = [character] := by
  by_cases space : character = ' '
  · simp [emittedPiece, space, Piece.characters]
  · simp [emittedPiece, space, ordinary, Piece.characters]

/-- A text is read back unchanged exactly when no line separator is in it. -/
theorem readBack_eq_iff (value : String) :
    readBack value = value ↔ ∀ character ∈ value.toList, isSeparator character = false := by
  constructor
  · intro same character member
    -- Folding leaves no separator in its result.
    have folded : ∀ other ∈ fold (.blanks []) (value.toList.map emittedPiece),
        isSeparator other = false := by
      refine mem_fold (by decide) (by decide) (fun piece present other inside => ?_) (by
        intro other inside
        cases inside)
      obtain ⟨source, _, rfl⟩ := List.mem_map.mp present
      cases separator : isSeparator source with
      | true =>
          have notSpace : source ≠ ' ' := by
            rintro rfl
            revert separator
            decide
          simp [emittedPiece, notSpace, separator, Piece.characters] at inside
      | false =>
          rw [(emittedPiece_characters separator).2, List.mem_singleton] at inside
          rw [inside, separator]
    refine folded character ?_
    have texts := congrArg String.toList same
    rw [readBack, String.toList_ofList] at texts
    rwa [texts]
  · intro ordinary
    have free : Piece.lineBreak ∉ value.toList.map emittedPiece := by
      intro present
      obtain ⟨source, member, isBreak⟩ := List.mem_map.mp present
      exact (emittedPiece_characters (ordinary source member)).1 isBreak
    have restored : (value.toList.map emittedPiece).flatMap Piece.characters = value.toList := by
      rw [List.flatMap_map]
      refine (List.flatMap_congr fun source member =>
        (emittedPiece_characters (ordinary source member)).2).trans ?_
      simp
    rw [readBack, fold_eq_of_no_break free, restored, List.nil_append, String.ofList_toList]

def isEmittable (character : Char) : Bool := character.toNat ≤ 0x1f || isPrintable character

private theorem hexCharacter_printable :
    ∀ code < 16, isPrintable (hexCharacter code) = true := by decide

theorem escapeCharacter_printable (character : Char) :
    (escapeCharacter character).all isPrintable = isEmittable character := by
  by_cases quote : character = '"'
  · subst quote
    decide
  by_cases backslash : character = '\\'
  · subst backslash
    decide
  by_cases lineFeed : character = '\n'
  · subst lineFeed
    decide
  by_cases carriageReturn : character = '\r'
  · subst carriageReturn
    decide
  by_cases tab : character = '\t'
  · subst tab
    decide
  by_cases control : character.toNat ≤ 0x1f
  · have high := hexCharacter_printable (character.toNat / 16) (by omega)
    have low := hexCharacter_printable (character.toNat % 16) (by omega)
    have leading : isPrintable '\\' = true ∧ isPrintable 'u' = true ∧ isPrintable '0' = true := by
      decide
    simp [escapeCharacter, quote, backslash, lineFeed, carriageReturn, tab, control, isEmittable,
      high, low, leading]
  · simp [escapeCharacter, quote, backslash, lineFeed, carriageReturn, tab, control, isEmittable]

/-! ## The tree of a queue -/

def quotedNode (value : String) : Node := .quoted (value.toList.flatMap escapeCharacter)

def optionalNode (value : Option String) : Node := value.elim (.name "null") quotedNode

def listNode {α : Type} (node : α → Node) (values : List α) : Node :=
  if values.isEmpty then .emptySequence else .sequence (values.map node)

def parentContractNode (parent : Option ParentContract) : Node :=
  parent.elim (.name "null") fun parent =>
    .record [("path", quotedNode parent.path), ("revision", quotedNode parent.revision)]

def causeNode (cause : StalenessCause) : Node :=
  .record [("kind", .name (stalenessCauseKindName cause.kind)), ("path", quotedNode cause.path),
    ("expected_revision", quotedNode cause.expectedRevision),
    ("observed_revision", quotedNode cause.observedRevision)]

def revalidationNode (revalidation : Revalidation) : Node :=
  .record [("state", .name (revalidationStateName revalidation.state)),
    ("checked_at", quotedNode revalidation.checkedAt.value),
    ("stale_since", optionalNode (revalidation.staleSince.map (·.value))),
    ("causes", listNode causeNode revalidation.causes)]

def componentNode (component : ComponentState) : Node :=
  .record [("requirements_revision", quotedNode component.requirementsRevision),
    ("contract_revision", quotedNode component.contractRevision),
    ("design_revision", quotedNode component.designRevision),
    ("parent_contract", parentContractNode component.parentContract),
    ("revalidation", revalidationNode component.revalidation)]

def recoveryStateNode (recovery : Option RecoveryState) : Node :=
  recovery.elim (.name "null") fun recovery =>
    .record [("state", .name (recoveryStateName recovery.state)),
      ("attempt_id", quotedNode recovery.attemptId), ("reason", quotedNode recovery.reason)]

def timestampsNode (timestamps : TaskTimestamps) : Node :=
  .record ([("created_at", quotedNode timestamps.createdAt.value),
    ("updated_at", quotedNode timestamps.updatedAt.value),
    ("completed_at", optionalNode (timestamps.completedAt.map (·.value)))] ++
    if timestamps.recovered then [("recovered", .name "true")] else [])

def finalizationEntries (task : Task) : List (String × Node) :=
  (task.acceptanceId.elim [] fun acceptanceId => [("acceptance_id", quotedNode acceptanceId)]) ++
  task.disposition.elim [] fun disposition =>
    [("disposition", .name (dispositionName disposition))]

def taskEntries (task : Task) : List (String × Node) :=
  [("id", quotedNode task.id), ("title", quotedNode task.title),
    ("description", quotedNode task.description), ("context", quotedNode task.context),
    ("purpose", quotedNode task.purpose), ("expected_outcome", quotedNode task.expectedOutcome),
    ("kind", .name (taskKindName task.kind)), ("status", .name (taskStatusName task.status)),
    ("depends_on", listNode quotedNode task.dependsOn),
    ("requirements", listNode quotedNode task.requirements),
    ("timestamps", timestampsNode task.timestamps),
    ("blocked_reason", optionalNode task.blockedReason),
    ("recovery_state", recoveryStateNode task.recoveryState)] ++ finalizationEntries task

def taskNode (task : Task) : Node := .record (taskEntries task)

/-- The presentation tree of a queue of the supported version. -/
def queueNode (queue : TaskQueue) : Node :=
  .record [("schema_version", .name "1"), ("component", componentNode queue.component),
    ("tasks", listNode taskNode queue.tasks)]

/-! ## The emitted text is the rendered tree -/

private theorem line_toList (indentation : Nat) (contents : String) :
    (line indentation contents).toList = Line.characters ⟨indentation, contents.toList⟩ := by
  simp [line, Line.characters]

def recordText (indentation : Nat) (entries : List (String × Node)) : List Char :=
  (entryLines indentation (entries.map fun entry => (entry.1.toList, entry.2))).flatMap
    Line.characters

/-- The text of one entry of a sequence. -/
def itemText (indentation : Nat) (node : Node) : List Char :=
  (itemLines indentation [node]).flatMap Line.characters

private theorem recordText_cons (indentation : Nat) (entry : String × Node)
    (rest : List (String × Node)) :
    recordText indentation (entry :: rest) =
      recordText indentation [entry] ++ recordText indentation rest := by
  simp [recordText, entryLines]

private theorem recordText_append (indentation : Nat) (left right : List (String × Node)) :
    recordText indentation (left ++ right) =
      recordText indentation left ++ recordText indentation right := by
  induction left with
  | nil => simp [recordText, entryLines]
  | cons entry rest ih =>
      rw [List.cons_append, recordText_cons, ih, recordText_cons indentation entry rest,
        List.append_assoc]

private theorem recordText_inline {indentation : Nat} {name : String} {node : Node}
    {text : List Char} (inline : node.inline = some text) :
    recordText indentation [(name, node)] =
      (namedLine indentation name (String.ofList text)).toList := by
  simp [recordText, entryLines, inline, namedLine, line_toList]

private theorem recordText_quoted (indentation : Nat) (name value : String) :
    recordText indentation [(name, quotedNode value)] =
      (namedLine indentation name (yamlString value)).toList := by
  have inline : (quotedNode value).inline =
    some ('"' :: (value.toList.flatMap escapeCharacter ++ ['"'])) := rfl
  have quoted : yamlString value =
      String.ofList ('"' :: (value.toList.flatMap escapeCharacter ++ ['"'])) := by
    simp [yamlString, String.ext_iff]
  rw [recordText_inline inline, quoted]

private theorem recordText_name (indentation : Nat) (name word : String) :
    recordText indentation [(name, .name word)] =
      (namedLine indentation name word).toList := by
  have inline : (Node.name word).inline = some word.toList := rfl
  rw [recordText_inline inline, String.ofList_toList]

private theorem recordText_record (indentation : Nat) (name : String)
    (entries : List (String × Node)) :
    recordText indentation [(name, .record entries)] =
      (line indentation (name ++ ":")).toList ++ recordText (indentation + 2) entries := by
  simp [recordText, entryLines, line_toList]

private theorem itemLines_flatMap (indentation : Nat) (nodes : List Node) :
    (itemLines indentation nodes).flatMap Line.characters = nodes.flatMap (itemText indentation) := by
  induction nodes with
  | nil => simp [itemLines]
  | cons node rest ih =>
      rw [itemLines, List.flatMap_append, ih, List.flatMap_cons, itemText, itemLines, itemLines,
        List.append_nil]

private theorem recordText_list {α : Type} (indentation : Nat) (name : String) (node : α → Node)
    (values : List α) :
    recordText indentation [(name, listNode node values)] =
      if values.isEmpty then (namedLine indentation name "[]").toList
      else (line indentation (name ++ ":")).toList ++
        values.flatMap fun value => itemText (indentation + 2) (node value) := by
  cases values with
  | nil => simp [recordText, entryLines, listNode, Node.inline, namedLine, line_toList]
  | cons value rest =>
      simp only [listNode, List.isEmpty_cons, Bool.false_eq_true, if_false, recordText,
        List.map_cons, List.map_nil, entryLines, Node.inline, Node.blockLines, List.append_nil,
        List.flatMap_cons, itemLines_flatMap, List.flatMap_map]
      simp [line_toList]

/-- The first entry of a record in a sequence stands behind the dash. -/
private theorem itemText_record {indentation : Nat} {name : String} {node : Node}
    {text : List Char} (inline : node.inline = some text) (rest : List (String × Node)) :
    itemText indentation (.record ((name, node) :: rest)) =
      (line indentation ("- " ++ (name ++ ": " ++ String.ofList text))).toList ++
        recordText (indentation + 2) rest := by
  simp [itemText, itemLines, entryLines, inline, dashFirst, line_toList, recordText]

private theorem itemText_quoted (indentation : Nat) (value : String) :
    itemText indentation (quotedNode value) =
      (line indentation ("- " ++ yamlString value)).toList := by
  simp [itemText, itemLines, quotedNode, Node.inline, line_toList, yamlString]

private theorem appendStringList_toList (indentation : Nat) (name : String)
    (values : List String) :
    (appendStringList indentation name values).toList =
      recordText indentation [(name, listNode quotedNode values)] := by
  rw [recordText_list, appendStringList]
  split
  · rfl
  · simp only [String.toList_append, String.toList_join, List.flatMap_map, itemText_quoted]

private theorem appendOptional_toList (indentation : Nat) (name : String)
    (value : Option String) :
    (appendOptional indentation name value).toList =
      recordText indentation [(name, optionalNode value)] := by
  cases value with
  | none => rw [optionalNode, Option.elim_none, recordText_name]; rfl
  | some value => rw [optionalNode, Option.elim_some, recordText_quoted]; rfl

private theorem appendParentContract_toList (indentation : Nat) (parent : Option ParentContract) :
    (appendParentContract indentation parent).toList =
      recordText indentation [("parent_contract", parentContractNode parent)] := by
  cases parent with
  | none => rw [parentContractNode, Option.elim_none, recordText_name]; rfl
  | some parent =>
      rw [parentContractNode, Option.elim_some, recordText_record, recordText_cons,
        recordText_quoted, recordText_quoted]
      simp only [appendParentContract, String.toList_append, List.append_assoc]
      rfl

private theorem appendCause_toList (indentation : Nat) (cause : StalenessCause) :
    (appendCause indentation cause).toList = itemText indentation (causeNode cause) := by
  have inline : (Node.name (stalenessCauseKindName cause.kind)).inline =
    some (stalenessCauseKindName cause.kind).toList := rfl
  have first : line indentation ("- " ++ ("kind" ++ ": " ++
      String.ofList (stalenessCauseKindName cause.kind).toList)) =
      line indentation ("- kind: " ++ stalenessCauseKindName cause.kind) := by
    rw [String.ofList_toList, ← String.append_assoc]
    rfl
  rw [causeNode, itemText_record inline, first]
  simp only [recordText_cons _ _ (_ :: _), recordText_quoted, appendCause, String.toList_append,
    List.append_assoc]

private theorem appendCauses_toList (indentation : Nat) (causes : List StalenessCause) :
    (appendCauses indentation causes).toList =
      recordText indentation [("causes", listNode causeNode causes)] := by
  rw [recordText_list, appendCauses]
  split
  · rfl
  · simp only [String.toList_append, String.toList_join, List.flatMap_map, appendCause_toList]
    rfl

private theorem appendComponent_toList (component : ComponentState) (indentation : Nat) :
    (line indentation "component:").toList ++ (appendComponent component (indentation + 2)).toList =
      recordText indentation [("component", componentNode component)] := by
  rw [componentNode, recordText_record]
  simp only [recordText_cons _ _ (_ :: _), recordText_quoted, revalidationNode, recordText_record,
    recordText_name, ← appendParentContract_toList, ← appendOptional_toList,
    ← appendCauses_toList, appendComponent, String.toList_append, List.append_assoc]
  rfl

private theorem appendRecoveryState_toList (recovery : Option RecoveryState) :
    (appendRecoveryState recovery).toList =
      recordText 4 [("recovery_state", recoveryStateNode recovery)] := by
  cases recovery with
  | none => rw [recoveryStateNode, Option.elim_none, recordText_name]; rfl
  | some recovery =>
      rw [recoveryStateNode, Option.elim_some, recordText_record]
      simp only [recordText_cons _ _ (_ :: _), recordText_quoted, recordText_name,
        appendRecoveryState, String.toList_append, List.append_assoc]
      rfl

private theorem appendTimestamps_toList (timestamps : TaskTimestamps) :
    (appendTimestamps timestamps).toList =
      recordText 4 [("timestamps", timestampsNode timestamps)] := by
  have recovered : (if timestamps.recovered then line 6 "recovered: true" else "").toList =
      recordText 6 (if timestamps.recovered then [("recovered", .name "true")] else []) := by
    cases timestamps.recovered with
    | false => rfl
    | true => simp only [if_true, recordText_name]; rfl
  rw [timestampsNode, recordText_record, recordText_append, ← recovered]
  simp only [recordText_cons _ _ (_ :: _), recordText_quoted, ← appendOptional_toList,
    appendTimestamps, String.toList_append, List.append_assoc]
  rfl

private theorem appendFinalization_toList (task : Task) :
    (appendFinalization task).toList = recordText 4 (finalizationEntries task) := by
  rw [appendFinalization, finalizationEntries, recordText_append, String.toList_append]
  congr 1
  · cases task.acceptanceId with
    | none => rfl
    | some acceptanceId => rw [Option.elim_some, recordText_quoted]
  · cases task.disposition with
    | none => rfl
    | some disposition => rw [Option.elim_some, recordText_name]

theorem appendTask_toList (task : Task) : (appendTask task).toList = itemText 2 (taskNode task) := by
  have inline : (quotedNode task.id).inline =
    some ('"' :: (task.id.toList.flatMap escapeCharacter ++ ['"'])) := rfl
  have first : line 2 ("- " ++ ("id" ++ ": " ++
      String.ofList ('"' :: (task.id.toList.flatMap escapeCharacter ++ ['"'])))) =
      line 2 ("- id: " ++ yamlString task.id) := by
    rw [← String.append_assoc]
    congr 2
    simp [yamlString, String.ext_iff]
  rw [taskNode, taskEntries, List.cons_append, itemText_record inline, first, recordText_append]
  simp only [Nat.reduceAdd, recordText_cons _ _ (_ :: _), recordText_quoted, recordText_name,
    ← appendFinalization_toList, ← appendStringList_toList, ← appendTimestamps_toList, ← appendOptional_toList,
    ← appendRecoveryState_toList, appendTask, String.toList_append, String.toList_join,
    List.map_cons, List.map_nil, List.flatMap_cons, List.flatMap_nil, List.append_assoc,
    List.append_nil]

theorem canonicalText_eq_render {queue : TaskQueue}
    (version : queue.schemaVersion = todoQueueVersion) :
    canonicalText queue = String.ofList (queueNode queue).render := by
  have rendered : (queueNode queue).render =
      recordText 0 [("schema_version", .name "1"), ("component", componentNode queue.component),
        ("tasks", listNode taskNode queue.tasks)] := by
    simp [queueNode, Node.render, recordText]
  have tasks : (if queue.tasks.isEmpty then namedLine 0 "tasks" "[]"
      else line 0 "tasks:" ++ String.join (queue.tasks.map appendTask)).toList =
      recordText 0 [("tasks", listNode taskNode queue.tasks)] := by
    rw [recordText_list]
    split
    · rfl
    · simp only [String.toList_append, String.toList_join, List.flatMap_map, appendTask_toList]
      rfl
  rw [String.ext_iff, String.toList_ofList, rendered, recordText_cons, recordText_cons _ _ [_],
    ← tasks, ← appendComponent_toList, recordText_name, canonicalText, version]
  simp only [String.toList_append, List.append_assoc]
  rfl

/-! ## The quoted texts of a queue -/

def Timestamp.texts (timestamp : Timestamp) : List String := [timestamp.value]

def ParentContract.texts (parent : ParentContract) : List String := [parent.path, parent.revision]

def StalenessCause.texts (cause : StalenessCause) : List String :=
  [cause.path, cause.expectedRevision, cause.observedRevision]

def Revalidation.texts (revalidation : Revalidation) : List String :=
  revalidation.checkedAt.texts ++ revalidation.staleSince.toList.flatMap Timestamp.texts ++
    revalidation.causes.flatMap StalenessCause.texts

def ComponentState.texts (component : ComponentState) : List String :=
  [component.requirementsRevision, component.contractRevision, component.designRevision] ++
    component.parentContract.toList.flatMap ParentContract.texts ++ component.revalidation.texts

def TaskTimestamps.texts (timestamps : TaskTimestamps) : List String :=
  timestamps.createdAt.texts ++ timestamps.updatedAt.texts ++
    timestamps.completedAt.toList.flatMap Timestamp.texts

def RecoveryState.texts (recovery : RecoveryState) : List String :=
  [recovery.attemptId, recovery.reason]

def Task.texts (task : Task) : List String :=
  [task.id, task.title, task.description, task.context, task.purpose, task.expectedOutcome] ++
    task.dependsOn ++ task.requirements ++ task.timestamps.texts ++ task.blockedReason.toList ++
    task.recoveryState.toList.flatMap RecoveryState.texts ++ task.acceptanceId.toList

/-- Every text that `serialize` quotes, in the order in which it writes them. -/
def TaskQueue.texts (queue : TaskQueue) : List String :=
  queue.component.texts ++ queue.tasks.flatMap Task.texts

/-! ## The tree is well formed, and prints when its texts do -/

private def rawText (value : String) : List Char := value.toList.flatMap escapeCharacter

private theorem raws_quotedNode (value : String) : (quotedNode value).raws = [rawText value] := by
  simp [quotedNode, Node.raws, rawText]

private theorem raws_name (word : String) : (Node.name word).raws = [] := by
  simp [Node.name, Node.raws]

private theorem raws_listNode {α : Type} {node : α → Node} {texts : α → List String}
    (each : ∀ value, (node value).raws = (texts value).map rawText) (values : List α) :
    (listNode node values).raws = (values.flatMap texts).map rawText := by
  cases values with
  | nil => simp [listNode, Node.raws]
  | cons value rest =>
      simp only [listNode, List.isEmpty_cons, Bool.false_eq_true, if_false, Node.raws_sequence,
        List.flatMap_map, each, List.map_flatMap]

private theorem raws_texts (values : List String) :
    (listNode quotedNode values).raws = values.map rawText := by
  rw [raws_listNode (fun value => (raws_quotedNode value).trans (List.map_singleton).symm)]
  simp

private theorem raws_optionalNode (value : Option String) :
    (optionalNode value).raws = value.toList.map rawText := by
  cases value <;> simp [optionalNode, raws_name, raws_quotedNode]

private theorem raws_timestamp (value : Option Timestamp) :
    (optionalNode (value.map (·.value))).raws =
      (value.toList.flatMap Timestamp.texts).map rawText := by
  cases value <;> simp [raws_optionalNode, Timestamp.texts]

private theorem raws_parentContractNode (parent : Option ParentContract) :
    (parentContractNode parent).raws =
      (parent.toList.flatMap ParentContract.texts).map rawText := by
  cases parent <;>
    simp [parentContractNode, Node.raws_record, raws_name, raws_quotedNode, ParentContract.texts]

private theorem raws_causeNode (cause : StalenessCause) :
    (causeNode cause).raws = cause.texts.map rawText := by
  simp [causeNode, Node.raws_record, raws_name, raws_quotedNode, StalenessCause.texts]

private theorem raws_componentNode (component : ComponentState) :
    (componentNode component).raws = component.texts.map rawText := by
  simp [componentNode, revalidationNode, Node.raws_record, raws_name, raws_quotedNode,
    raws_parentContractNode, raws_timestamp, raws_listNode raws_causeNode, ComponentState.texts,
    Revalidation.texts, Timestamp.texts]

private theorem raws_timestampsNode (timestamps : TaskTimestamps) :
    (timestampsNode timestamps).raws = timestamps.texts.map rawText := by
  cases recovered : timestamps.recovered <;>
    simp [timestampsNode, Node.raws_record, raws_name, raws_quotedNode, raws_timestamp,
      TaskTimestamps.texts, Timestamp.texts, recovered]

private theorem raws_recoveryStateNode (recovery : Option RecoveryState) :
    (recoveryStateNode recovery).raws =
      (recovery.toList.flatMap RecoveryState.texts).map rawText := by
  cases recovery <;>
    simp [recoveryStateNode, Node.raws_record, raws_name, raws_quotedNode, RecoveryState.texts]

private theorem raws_taskNode (task : Task) : (taskNode task).raws = task.texts.map rawText := by
  have finalization : (finalizationEntries task).flatMap (fun entry => entry.2.raws) =
      task.acceptanceId.toList.map rawText := by
    rw [finalizationEntries]
    cases task.acceptanceId <;> cases task.disposition <;> simp [raws_name, raws_quotedNode]
  rw [taskNode, taskEntries, Node.raws_record, List.flatMap_append, finalization]
  simp [raws_name, raws_quotedNode, raws_texts, raws_optionalNode, raws_timestampsNode,
    raws_recoveryStateNode, Task.texts]

private theorem raws_queueNode (queue : TaskQueue) :
    (queueNode queue).raws = queue.texts.map rawText := by
  simp [queueNode, Node.raws_record, raws_name, raws_componentNode, raws_listNode raws_taskNode,
    TaskQueue.texts]

private theorem wellFormed_quotedNode (value : String) : (quotedNode value).wellFormed = true := by
  rw [quotedNode, Node.wellFormed, unquote_escape]
  rfl

private theorem wellFormed_optionalNode (value : Option String) :
    (optionalNode value).wellFormed = true := by
  cases value with
  | none => rfl
  | some value => exact wellFormed_quotedNode value

private theorem wellFormed_listNode {α : Type} {node : α → Node}
    (each : ∀ value, (node value).wellFormed = true) (values : List α) :
    (listNode node values).wellFormed = true := by
  cases values with
  | nil => rfl
  | cons value rest =>
      refine Node.wellFormed_sequence (by simp) fun other member => ?_
      obtain ⟨source, _, rfl⟩ := List.mem_map.mp member
      exact each source

private theorem wellFormed_parentContractNode (parent : Option ParentContract) :
    (parentContractNode parent).wellFormed = true := by
  cases parent with
  | none => rfl
  | some parent =>
      exact Node.wellFormed_record (by simp) (by simp)
        (by simp only [List.map_cons, List.map_nil]; decide) (by simp [wellFormed_quotedNode])

private theorem wellFormed_causeNode (cause : StalenessCause) :
    (causeNode cause).wellFormed = true := by
  have kind : (Node.name (stalenessCauseKindName cause.kind)).wellFormed = true := by
    cases cause.kind <;> rfl
  exact Node.wellFormed_record (by simp) (by simp)
        (by simp only [List.map_cons, List.map_nil]; decide) (by simp [wellFormed_quotedNode, kind])

theorem wellFormed_componentNode (component : ComponentState) :
    (componentNode component).wellFormed = true := by
  have state : (Node.name (revalidationStateName component.revalidation.state)).wellFormed =
      true := by
    cases component.revalidation.state <;> rfl
  have revalidation : (revalidationNode component.revalidation).wellFormed = true :=
    Node.wellFormed_record (by simp) (by simp)
        (by simp only [List.map_cons, List.map_nil]; decide) (by
      simp [wellFormed_quotedNode, wellFormed_optionalNode, state,
        wellFormed_listNode wellFormed_causeNode])
  exact Node.wellFormed_record (by simp) (by simp)
        (by simp only [List.map_cons, List.map_nil]; decide) (by
    simp [wellFormed_quotedNode, wellFormed_parentContractNode, revalidation])

private theorem wellFormed_timestampsNode (timestamps : TaskTimestamps) :
    (timestampsNode timestamps).wellFormed = true := by
  have word : (Node.name "true").wellFormed = true := rfl
  obtain ⟨createdAt, updatedAt, completedAt, recovered⟩ := timestamps
  cases recovered <;>
    simp only [timestampsNode, Bool.false_eq_true, if_false, if_true, List.append_nil,
      List.cons_append, List.nil_append] <;>
    exact Node.wellFormed_record (by simp) (by simp)
        (by simp only [List.map_cons, List.map_nil]; decide) (by
      simp [wellFormed_quotedNode, wellFormed_optionalNode, word])

private theorem wellFormed_recoveryStateNode (recovery : Option RecoveryState) :
    (recoveryStateNode recovery).wellFormed = true := by
  have word : ∀ state, (Node.name (recoveryStateName state)).wellFormed = true := by
    intro state
    cases state
    rfl
  cases recovery with
  | none => rfl
  | some recovery =>
      exact Node.wellFormed_record (by simp) (by simp)
        (by simp only [List.map_cons, List.map_nil]; decide) (by simp [wellFormed_quotedNode, word])

private theorem wellFormed_taskNode (task : Task) : (taskNode task).wellFormed = true := by
  have kind : (Node.name (taskKindName task.kind)).wellFormed = true := by
    cases task.kind <;> rfl
  have status : (Node.name (taskStatusName task.status)).wellFormed = true := by
    cases task.status <;> rfl
  have word : ∀ disposition, (Node.name (dispositionName disposition)).wellFormed = true := by
    intro disposition
    cases disposition <;> rfl
  rw [taskNode, taskEntries, finalizationEntries]
  cases task.acceptanceId <;> cases task.disposition <;>
    simp only [Option.elim_none, Option.elim_some, List.append_nil, List.cons_append,
      List.nil_append] <;>
    exact Node.wellFormed_record (by simp) (by simp)
        (by simp only [List.map_cons, List.map_nil]; decide) (by
      simp [wellFormed_quotedNode, wellFormed_optionalNode, wellFormed_timestampsNode,
        wellFormed_recoveryStateNode, wellFormed_listNode wellFormed_quotedNode, kind, status, word])

theorem wellFormed_queueNode (queue : TaskQueue) : (queueNode queue).wellFormed = true := by
  have word : (Node.name "1").wellFormed = true := rfl
  exact Node.wellFormed_record (by simp) (by simp)
        (by simp only [List.map_cons, List.map_nil]; decide) (by
    simp [wellFormed_componentNode, wellFormed_listNode wellFormed_taskNode, word])

private theorem rawText_printable (value : String) :
    (rawText value).all isPrintable = true ↔
      ∀ character ∈ value.toList, isEmittable character = true := by
  rw [rawText, List.all_flatMap, List.all_eq_true]
  simp only [escapeCharacter_printable]

theorem canonicalText_printable {queue : TaskQueue}
    (version : queue.schemaVersion = todoQueueVersion) :
    (canonicalText queue).toList.all isPrintable = true ↔
      ∀ text ∈ queue.texts, ∀ character ∈ text.toList, isEmittable character = true := by
  rw [canonicalText_eq_render version, String.toList_ofList,
    Node.render_printable _ rfl (wellFormed_queueNode queue), raws_queueNode]
  simp only [AllPrintable, List.forall_mem_map, rawText_printable]

end Kvist.Queue
