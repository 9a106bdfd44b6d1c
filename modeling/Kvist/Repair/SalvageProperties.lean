import Kvist.Repair.CandidateProperties

/-!
# What salvage refuses

On a text that does not load, salvage fails exactly when the guard sees one of its lines, when
the text has no frame, or when a fragment that loads on its own is live. In every other case the
entries that do not load are dropped, whatever they declare.
-/

set_option autoImplicit false

namespace Kvist.Repair

open Yaml Text Queue

/-! ## What a text declares -/

def unquoted (text : List Char) : List Char :=
  text.filter fun character => character != '"' && character != '\''

def declaration (line : List Char) : Option (List Char × List Char) :=
  let content := trimStart line
  let key := match stripLeading dash content with
    | some rest => rest
    | none => content
  (splitOnce ':' key).map fun parts => (unquoted (trimList parts.1), unquoted (trimList parts.2))

def declaresLive (line : List Char) : Bool :=
  match declaration line with
  | some (key, value) =>
      (key == "status".toList && value == "in-progress".toList) ||
        (key == "recovery_state".toList && value != "null".toList && value != "~".toList)
  | none => false

/-- A line behind the header of the tasks declares active or fenced execution in the block layout.
An entry can declare it in other layouts as well. -/
def DeclaresLive (contents : String) : Prop :=
  ∃ boundary, (lines contents.toList).findIdx? isTasksHeader = some boundary ∧
    ∃ line ∈ (lines contents.toList).drop (boundary + 1), declaresLive line = true

/-- A line that the guard of `recover_fragments` sees: the text before its first colon, without
the white space around the line, is the bare field name. -/
def Guarded (fromStr : String → Except String Value) (line : List Char) : Prop :=
  ∃ field value, splitOnce ':' (trimList line) = some (field, value) ∧
    (field = "recovery_state".toList ∧ trimList value ≠ "null".toList ∨
      field = "status".toList ∧ readsInProgress fromStr value = true)

/-- What makes salvage refuse a text. -/
structure Refusal (fromStr : String → Except String Value) (contents : String) : Prop where
  cause : (∃ line ∈ lines contents.toList, Guarded fromStr line) ∨
    ∀ frame : Frame fromStr contents, ∃ fragment ∈ frame.fragments, ∃ entry,
      fragmentEntries fromStr fragment = .ok [entry] ∧ isLive entry = true

variable {fromStr : String → Except String Value} {contents : String}

theorem scanLine_ok_iff (line : List Char) :
    scanLine fromStr line = .ok () ↔ ¬ Guarded fromStr line := by
  unfold scanLine Guarded
  cases found : splitOnce ':' (trimList line) with
  | none => simp
  | some parts =>
      obtain ⟨field, value⟩ := parts
      rw [bind_unit_ok_iff, ensure_ok_iff, ensure_ok_iff]
      simp only [Bool.not_eq_true', Bool.and_eq_false_iff, beq_eq_false_iff_ne, bne_eq_false_iff_eq,
        Option.some.injEq, Prod.mk.injEq, not_exists, not_and, not_or]
      constructor
      · intro passed field' value' same
        obtain ⟨rfl, rfl⟩ := same
        refine ⟨fun named => ?_, fun named => ?_⟩
        · exact not_not.mpr (passed.1.resolve_left fun other => other named)
        · exact Bool.not_eq_true _ ▸ passed.2.resolve_left fun other => other named
      · intro unguarded
        obtain ⟨recovery, status⟩ := unguarded field value ⟨rfl, rfl⟩
        constructor
        · by_cases named : field = "recovery_state".toList
          · exact .inr (not_not.mp (recovery named))
          · exact .inl named
        · by_cases named : field = "status".toList
          · exact .inr (Bool.eq_false_iff.mpr (status named))
          · exact .inl named

/-! ## Liveness through the passes -/

theorem isLive_fillEntry (entry : Value) : isLive (fillEntry entry).1 = isLive entry := by
  unfold isLive Value.index
  rw [fillEntry_get (by decide), fillEntry_get (by decide)]

theorem salvageEntries_live (index : Nat) {items : List Value} {entry : Value}
    (member : entry ∈ items) (live : isLive entry = true) :
    ∃ reason, salvageEntries index items = .error reason := by
  induction items generalizing index with
  | nil => cases member
  | cons first rest ih =>
      unfold salvageEntries
      cases here : isLive first with
      | true => exact ⟨_, rfl⟩
      | false =>
          rw [Bool.not_false, ensure_true, ok_bind]
          rcases List.mem_cons.mp member with rfl | later
          · rw [live] at here
            cases here
          · obtain ⟨reason, failed⟩ := ih (index + 1) later
            rw [failed]
            exact ⟨reason, rfl⟩

theorem salvageEntries_idle (index : Nat) {items : List Value}
    (idle : ∀ entry ∈ items, isLive entry = false) :
    ∃ result, salvageEntries index items = .ok result := by
  induction items generalizing index with
  | nil => exact ⟨_, rfl⟩
  | cons first rest ih =>
      obtain ⟨others, salvaged⟩ :=
        ih (index + 1) fun entry member => idle entry (List.mem_cons_of_mem _ member)
      unfold salvageEntries
      rw [idle first List.mem_cons_self, Bool.not_false, ensure_true, ok_bind, salvaged, ok_bind]
      exact ⟨_, rfl⟩

private theorem status_of_inProgress {name : String}
    (named : taskStatusChoices.lookup name = some .inProgress) : name = "in-progress" := by
  by_cases same : name = "in-progress"
  · exact same
  · simp only [taskStatusChoices, List.map_cons, List.map_nil, taskStatusName,
      List.lookup_cons] at named
    split at named
    · cases named
    · split at named
      · next equal => exact absurd (beq_iff_eq.mp equal) same
      · split at named
        · cases named
        · split at named
          · cases named
          · split at named
            · cases named
            · cases named

theorem salvageEntry_idle {index : Nat} {entry : Value} {task : Task}
    (idle : isLive entry = false) (salvaged : (salvageEntry index entry).1 = some task) :
    isActive task = false := by
  unfold isLive at idle
  obtain ⟨unfenced, notStarted⟩ := Bool.or_eq_false_iff.mp idle
  unfold salvageEntry at salvaged
  dsimp only at salvaged
  split at salvaged
  · cases salvaged
  · next decoded read =>
      split at salvaged
      · cases salvaged
        have kept := reconcile_reconciled decoded
        obtain ⟨fields, record, reads⟩ := decodeTask_some read
        have recovery := reads.recoveryState
        have status := reads.status
        unfold optionalField at recovery
        rw [lookup_untyped_fields record, recoverTimestamps_get (by decide) (by decide) (by decide)
          (by decide) (by decide), retainKnown_get (by decide)] at recovery
        rw [requiredField_untyped record] at status
        have noFence : decoded.recoveryState = none := by
          unfold Value.index at unfenced
          cases found : entry.get "recovery_state" with
          | none =>
              simp only [found, Option.some.injEq] at recovery
              exact recovery.symm
          | some field =>
              rw [found, Option.getD_some, Bool.not_eq_false'] at unfenced
              simp only [found, unfenced, if_true, Option.some.injEq] at recovery
              exact recovery.symm
        have notActive : decoded.status ≠ .inProgress := by
          intro active
          obtain ⟨field, found, chosen⟩ := Option.bind_eq_some_iff.mp status
          obtain ⟨name, text, named⟩ := Option.bind_eq_some_iff.mp chosen
          rw [active] at named
          have spelled := status_of_inProgress named
          rcases recoverTimestamps_status (retainKnown index (entryId entry) entry).1
            (entryId entry) with same | blocked
          · rw [same, retainKnown_get (by decide)] at found
            unfold Value.index at notStarted
            rw [found, Option.getD_some, Value.str?, text, spelled] at notStarted
            exact absurd notStarted (by simp)
          · rw [blocked] at found
            cases found
            have quoted : name = "blocked" := (Option.some.inj text).symm
            rw [quoted] at spelled
            exact absurd spelled (by decide)
        unfold isActive
        rw [kept.recoveryState, kept.status, noFence]
        simpa using notActive
      · cases salvaged

/-! ## Salvage after the guard succeeds -/

theorem staleComponent_valid {component : ComponentState}
    (valid : validateComponent component = .ok ()) :
    validateComponent { component with revalidation := unacceptedComponent.revalidation } =
      .ok () := by
  unfold validateComponent at valid ⊢
  rw [bind_unit_ok_iff, bind_unit_ok_iff, bind_unit_ok_iff] at valid ⊢
  obtain ⟨requirements, contract, design, rest⟩ := valid
  refine ⟨requirements, contract, design, ?_⟩
  cases parent : component.parentContract with
  | none => exact bind_unit_ok_iff.mpr ⟨rfl, unacceptedRevalidation_valid⟩
  | some found =>
      rw [parent] at rest
      exact bind_unit_ok_iff.mpr ⟨(bind_unit_ok_iff.mp rest).1, unacceptedRevalidation_valid⟩

theorem salvageComponent_valid (value : Value) :
    validateComponent (salvageComponent value).1 = .ok () := by
  unfold salvageComponent
  split
  · exact unacceptedComponent_valid
  · split
    · next valid => exact valid
    · exact unacceptedComponent_valid

theorem pushTasks_salvage (queue : TaskQueue) (rest : List Task) :
    ∃ result, pushTasks true queue rest = .ok result := by
  induction rest generalizing queue with
  | nil => exact ⟨_, rfl⟩
  | cons task rest ih =>
      unfold pushTasks
      dsimp only
      split
      · exact ih _
      · obtain ⟨result, pushed⟩ := ih queue
        rw [if_pos rfl, pushed, ok_bind]
        exact ⟨_, rfl⟩

theorem finish_salvage (queue : TaskQueue) (idle : ∀ task ∈ queue.tasks, isActive task = false)
    (version : queue.schemaVersion = todoQueueVersion)
    (component : validateComponent queue.component = .ok ()) :
    ∃ found, finish true queue = .ok found := by
  have inactive : queue.tasks.any isActive = false := by
    rw [List.any_eq_false]
    intro task member
    rw [idle task member]
    exact Bool.false_ne_true
  obtain ⟨⟨final, reasons⟩, pushed⟩ := pushTasks_salvage
    { normalizeSetLists queue with tasks := [] } (orderedTasks (normalizeSetLists queue).tasks).1
  have start : validate { normalizeSetLists queue with tasks := [] } = .ok () := by
    unfold validate validateWith normalizeSetLists
    dsimp only
    rw [version, component]
    rfl
  have valid := (pushTasks_ok pushed).2 start
  unfold finish
  dsimp only
  rw [inactive, pushed]
  simp only [Bool.not_false, ensure_true, ok_bind, Bool.or_true, serialize_of_validate valid]
  exact ⟨_, rfl⟩

private theorem get_mapping {value : Value} {name : String} {field : Value}
    (found : value.get name = some field) : ∃ entries, value = .mapping entries := by
  cases value with
  | plain _ _ | quoted _ | sequence _ => cases found
  | mapping entries => exact ⟨entries, rfl⟩

theorem salvageQueue_idle {value : Value} {items : List Value}
    (tasks : value.get "tasks" = some (.sequence items))
    (idle : ∀ entry ∈ items, isLive entry = false) :
    ∃ queue reasons, salvageQueue value = .ok (queue, reasons) ∧
      queue.schemaVersion = todoQueueVersion ∧ validateComponent queue.component = .ok () ∧
      ∀ task ∈ queue.tasks, isActive task = false := by
  obtain ⟨entries, rfl⟩ := get_mapping tasks
  have listed : ((Value.mapping entries).index "tasks").items? = some items := by
    unfold Value.index
    rw [tasks]
    rfl
  obtain ⟨⟨salvaged, reasons⟩, read⟩ := salvageEntries_idle 0 idle
  unfold salvageQueue
  simp only [Value.entries?, listed, read, ok_bind]
  refine ⟨_, _, rfl, rfl, salvageComponent_valid _, fun task member => ?_⟩
  obtain ⟨_, entry, _, idle, found⟩ := salvageEntries_ok read (mem_of_retainDistinct member)
  exact salvageEntry_idle idle found

theorem fillMissing_sequence {value : Value} {items : List Value}
    (tasks : value.get "tasks" = some (.sequence items)) :
    (fillMissingTimestampMetadata value).1.get "tasks" =
      some (.sequence (items.map fun entry => (fillEntry entry).1)) := by
  obtain ⟨entries, rfl⟩ := get_mapping tasks
  rw [Value.get_mapping] at tasks
  have kept : insertMissing "tasks" .null entries = entries := by
    unfold insertMissing
    rw [tasks]
    rfl
  unfold fillMissingTimestampMetadata
  dsimp only
  rw [kept, tasks]
  dsimp only
  rw [Value.get_mapping, getField_insertField, List.map_map]
  rfl

/-- With a frame, no guarded line and no live fragment, salvage gives a candidate. -/
theorem candidate_of_frame {error : String} (unreadable : fromStr contents = .error error)
    (unguarded : Unguarded fromStr contents) (frame : Frame fromStr contents)
    (idle : ∀ entry ∈ frame.entries, isLive entry = false) :
    ∃ found, candidate fromStr contents true = .ok found := by
  obtain ⟨reasons, recovered⟩ := recoverFragments_frame frame unguarded
  have filledIdle : ∀ entry ∈ frame.entries.map fun entry => (fillEntry entry).1,
      isLive entry = false := by
    intro entry member
    obtain ⟨source, inside, rfl⟩ := List.mem_map.mp member
    rw [isLive_fillEntry]
    exact idle source inside
  obtain ⟨queue, others, salvaged, version, component, inactive⟩ :=
    salvageQueue_idle (fillMissing_sequence frame.get_tasks) filledIdle
  obtain ⟨found, finished⟩ := finish_salvage
    { queue with
      component := { queue.component with revalidation := unacceptedComponent.revalidation } }
    inactive version (staleComponent_valid component)
  unfold candidate loadDocument decodeDocument
  simp only [unreadable, if_true, recovered, ok_bind, frame.document_version, ensure_true, salvaged,
    finished]
  exact ⟨_, rfl⟩

/-- On a text that does not load, salvage fails exactly when one of the three causes is there.
What the entries of the text declare, in whatever layout, is none of them. -/
theorem candidate_error_iff {error : String} (unreadable : fromStr contents = .error error) :
    (∃ reason, candidate fromStr contents true = .error reason) ↔ Refusal fromStr contents := by
  constructor
  · intro failed
    obtain ⟨reason, failed⟩ := failed
    refine ⟨?_⟩
    by_contra passed
    push Not at passed
    obtain ⟨unguarded, frame, idle⟩ := passed
    have free : Unguarded fromStr contents := fun line member =>
      (scanLine_ok_iff line).mpr (unguarded line member)
    obtain ⟨found, repaired⟩ := candidate_of_frame unreadable free frame fun entry member => by
      obtain ⟨fragment, inside, single⟩ := (frame.mem_entries entry).mp member
      simpa using idle fragment inside entry single
    rw [repaired] at failed
    cases failed
  · intro refusal
    unfold candidate loadDocument
    simp only [unreadable, if_true]
    cases recovery : recoverFragments fromStr contents with
    | error reason => exact ⟨_, rfl⟩
    | ok result =>
        obtain ⟨value, reasons⟩ := result
        obtain ⟨unguarded, frame, rfl⟩ := recoverFragments_ok recovery
        rcases refusal.cause with guarded | live
        · obtain ⟨line, member, guarded⟩ := guarded
          exact absurd guarded ((scanLine_ok_iff line).mp (unguarded line member))
        · obtain ⟨fragment, inside, entry, single, live⟩ := live frame
          have present := (frame.mem_entries entry).mpr ⟨fragment, inside, single⟩
          have filled : (fillEntry entry).1 ∈
              frame.entries.map fun entry => (fillEntry entry).1 := List.mem_map_of_mem present
          have filledLive : isLive (fillEntry entry).1 = true := by
            rw [isLive_fillEntry]
            exact live
          obtain ⟨reason, stopped⟩ := salvageEntries_live 0 filled filledLive
          have tasks := fillMissing_sequence frame.get_tasks
          obtain ⟨entries, document⟩ := get_mapping tasks
          have listed : ((fillMissingTimestampMetadata frame.document).1.index "tasks").items? =
              some (frame.entries.map fun entry => (fillEntry entry).1) := by
            unfold Value.index
            rw [tasks]
            rfl
          have failed : salvageQueue (fillMissingTimestampMetadata frame.document).1 =
              .error reason := by
            unfold salvageQueue
            rw [listed, document]
            simp only [Value.entries?, stopped, error_bind]
          unfold decodeDocument
          simp only [ok_bind, frame.document_version, ensure_true, if_true, failed, error_bind]
          exact ⟨reason, rfl⟩

/-! ## A declaration on the line that starts an entry -/

/-- The first key of the only entry says that the task is in progress, and the entry ends in a
sequence that is not closed. -/
def dashText : String :=
  "schema_version: 1\ntasks:\n  - status: in-progress\n    id: [\n"

private theorem dashText_unreadable : ∃ error, readDocument dashText = .error error := by
  have failed : (readDocument dashText).isOk = false := by decide
  cases read : readDocument dashText with
  | error error => exact ⟨error, rfl⟩
  | ok value =>
      rw [read] at failed
      cases failed

private theorem dashText_declares : DeclaresLive dashText := by
  refine ⟨1, by decide, "  - status: in-progress".toList, ?_, by decide⟩
  have body : (lines dashText.toList).drop 2 =
      ["  - status: in-progress".toList, "    id: [".toList] := by decide
  rw [body]
  exact List.mem_cons_self

private def dashFrame : Frame readDocument dashText where
  boundary := 1
  header := [(.plain "schema_version" .string, .plain "1" (.integer 1))]
  indent := 2
  found := by decide
  loaded := by rfl
  version := by decide
  smallest := by decide

private theorem dashFrame_entries : dashFrame.entries = [] := by
  have empty : dashFrame.entries.isEmpty = true := by decide
  exact List.isEmpty_iff.mp empty

theorem candidate_error_iff_dash :
    ∃ error, readDocument dashText = .error error ∧
      ((∃ reason, candidate readDocument dashText true = .error reason) ↔
        Refusal readDocument dashText) := by
  obtain ⟨error, unreadable⟩ := dashText_unreadable
  exact ⟨error, unreadable, candidate_error_iff unreadable⟩

/-- The guard does not see a key behind a dash, so that salvage drops the entry. -/
theorem candidate_drops_live :
    (∃ error, readDocument dashText = .error error) ∧ DeclaresLive dashText ∧
      ∃ found, candidate readDocument dashText true = .ok found := by
  obtain ⟨error, unreadable⟩ := dashText_unreadable
  have scanned : checkAll (scanLine readDocument) (lines dashText.toList) = .ok () := by
    decide
  have idle : ∀ entry ∈ dashFrame.entries, isLive entry = false := by
    rw [dashFrame_entries]
    intro entry member
    cases member
  exact ⟨⟨error, unreadable⟩, dashText_declares,
    candidate_of_frame unreadable (checkAll_ok_iff.mp scanned) dashFrame idle⟩

end Kvist.Repair
