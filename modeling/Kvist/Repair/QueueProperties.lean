import Kvist.Repair.FragmentProperties
import Kvist.TaskQueue.DecodeProperties
import Kvist.TaskQueue.ValidQueue

/-!
# Queue repair neither invents nor weakens work

Every pass of `candidate` keeps what identifies an entry: its identity, kind, title and set of
dependencies. The validation of every prefix does the rest.
-/

set_option autoImplicit false

namespace Kvist.Repair

open Yaml Text Queue

/-! ## What an entry declares -/

/-- The document of an entry that the input holds: an item of its `tasks` sequence or, where the
input does not load, a run of lines that loads as a single item. -/
inductive InputEntry (fromStr : String → Except String Value) (contents : String) (entry : Value) :
    Prop where
  | item (document : Value) (items : List Value) (loaded : fromStr contents = .ok document)
      (tasks : document.get "tasks" = some (.sequence items)) (member : entry ∈ items)
  | fragment (error : String) (before fragment after : List (List Char))
      (unreadable : fromStr contents = .error error)
      (split : lines contents.toList = before ++ fragment ++ after)
      (single : fragmentEntries fromStr fragment = .ok [entry])

/-- What a repaired task has from its entry. A salvaged title has no surrounding white space,
and only an entry that says so gives a completed task. -/
structure Retains (salvage : Bool) (entry : Value) (task : Task) : Prop where
  id : entry.read "id" untypedView.text = some task.id
  title : ∃ title, entry.read "title" untypedView.text = some title ∧
    task.title = if salvage then trim title else title
  kind : entry.read "kind" (untypedView.choice taskKindChoices) = some task.kind
  dependsOn : ∃ dependencies,
    entry.read "depends_on" (untypedView.list untypedView.text) = some dependencies ∧
    ∀ dependency, dependency ∈ task.dependsOn ↔ dependency ∈ dependencies
  completed : task.status = .completed →
    entry.read "status" (untypedView.choice taskStatusChoices) = some .completed

/-- Two documents that agree on the fields that a task retains. -/
structure SameClaims (entry other : Value) : Prop where
  id : other.get "id" = entry.get "id"
  title : other.get "title" = entry.get "title"
  kind : other.get "kind" = entry.get "kind"
  dependsOn : other.get "depends_on" = entry.get "depends_on"
  status : other.get "status" = entry.get "status" ∨ other.get "status" = some (.quoted "blocked")

theorem SameClaims.trans {first second third : Value} (left : SameClaims first second)
    (right : SameClaims second third) : SameClaims first third where
  id := right.id.trans left.id
  title := right.title.trans left.title
  kind := right.kind.trans left.kind
  dependsOn := right.dependsOn.trans left.dependsOn
  status := by
    rcases right.status with same | blocked
    · rcases left.status with earlier | blocked
      · exact .inl (same.trans earlier)
      · exact .inr (same.trans blocked)
    · exact .inr blocked

private theorem choice_blocked :
    untypedView.choice taskStatusChoices (.quoted "blocked") = some .blocked := by decide

theorem decodeTask_retains {entry : Value} {task : Task}
    (read : decodeTask untypedView entry = some task) : Retains false entry task := by
  obtain ⟨fields, record, reads⟩ := decodeTask_some read
  refine ⟨?_, ⟨task.title, ?_, rfl⟩, ?_, ⟨task.dependsOn, ?_, fun _ => Iff.rfl⟩, ?_⟩
  · rw [← requiredField_untyped record]
    exact reads.id
  · rw [← requiredField_untyped record]
    exact reads.title
  · rw [← requiredField_untyped record]
    exact reads.kind
  · rw [← requiredField_untyped record]
    exact reads.dependsOn
  · intro completed
    rw [← requiredField_untyped record, reads.status, completed]

/-- What holds of a document holds of the entry it was made from. -/
theorem SameClaims.retains {entry other : Value} (same : SameClaims entry other)
    {salvage : Bool} {task : Task} (retains : Retains salvage other task) :
    Retains salvage entry task where
  id := by
    have read := retains.id
    unfold Value.read at read ⊢
    rwa [same.id] at read
  title := by
    have read := retains.title
    unfold Value.read at read ⊢
    rwa [same.title] at read
  kind := by
    have read := retains.kind
    unfold Value.read at read ⊢
    rwa [same.kind] at read
  dependsOn := by
    have read := retains.dependsOn
    unfold Value.read at read ⊢
    rwa [same.dependsOn] at read
  completed := by
    intro completed
    have read := retains.completed completed
    unfold Value.read at read ⊢
    rcases same.status with kept | blocked
    · rwa [kept] at read
    · rw [blocked, Option.bind_some, choice_blocked] at read
      cases read

/-- Normal form of the set lists keeps what a task retains. -/
theorem Retains.normalize {salvage : Bool} {entry : Value} {task : Task}
    (retains : Retains salvage entry task) : Retains salvage entry (normalizeTask task) where
  id := retains.id
  title := retains.title
  kind := retains.kind
  dependsOn := by
    obtain ⟨dependencies, read, same⟩ := retains.dependsOn
    refine ⟨dependencies, read, fun dependency => ?_⟩
    unfold normalizeTask
    rw [mem_sortUnique, same]
  completed := retains.completed

/-! ## Passes over an entry -/

theorem fillEntry_get {name : String} (other : name ≠ "timestamps") (entry : Value) :
    (fillEntry entry).1.get name = entry.get name := by
  cases entry with
  | plain _ _ | quoted _ | sequence _ => rfl
  | mapping fields =>
      unfold fillEntry
      dsimp only
      split
      · rfl
      · exact getField_insertField_of_ne other _ fields

theorem fillEntry_same (entry : Value) : SameClaims entry (fillEntry entry).1 where
  id := fillEntry_get (by decide) entry
  title := fillEntry_get (by decide) entry
  kind := fillEntry_get (by decide) entry
  dependsOn := fillEntry_get (by decide) entry
  status := .inl (fillEntry_get (by decide) entry)

theorem retainKnown_get {name : String} (known : name ∈ taskFields) (index : Nat)
    (id : String) (entry : Value) : (retainKnown index id entry).1.get name = entry.get name := by
  cases entry with
  | plain _ _ | quoted _ | sequence _ => rfl
  | mapping fields =>
      apply getField_filter
      intro field named
      have key : field.1.str? = some name := by simpa [isNamed] using named
      unfold hasKnownKey
      rw [key]
      exact decide_eq_true known

private theorem retainKnown_same (index : Nat) (id : String) (entry : Value) :
    SameClaims entry (retainKnown index id entry).1 where
  id := retainKnown_get (by decide) index id entry
  title := retainKnown_get (by decide) index id entry
  kind := retainKnown_get (by decide) index id entry
  dependsOn := retainKnown_get (by decide) index id entry
  status := .inl (retainKnown_get (by decide) index id entry)

private theorem clearAuthority_get {name field : String} (other : name ≠ field) (id : String)
    (state : List (Value × Value) × List Reason) :
    getField name (clearAuthority id state field).1 = getField name state.1 := by
  unfold clearAuthority
  split
  · rfl
  · exact getField_insertField_of_ne other _ _

theorem recoverTimestamps_get {name : String} (status : name ≠ "status")
    (blocked : name ≠ "blocked_reason") (acceptance : name ≠ "acceptance_id")
    (disposition : name ≠ "disposition") (timestamps : name ≠ "timestamps") (entry : Value)
    (id : String) : (recoverTimestamps entry id).1.get name = entry.get name := by
  unfold recoverTimestamps
  dsimp only
  split
  · rfl
  · cases entry with
    | plain _ _ | quoted _ | sequence _ => rfl
    | mapping fields =>
        simp only [List.foldl_cons, List.foldl_nil, Value.get_mapping]
        rw [getField_insertField_of_ne timestamps, clearAuthority_get disposition,
          clearAuthority_get acceptance, getField_insertField_of_ne blocked,
          getField_insertField_of_ne status]

theorem recoverTimestamps_status (entry : Value) (id : String) :
    (recoverTimestamps entry id).1.get "status" = entry.get "status" ∨
      (recoverTimestamps entry id).1.get "status" = some (.quoted "blocked") := by
  unfold recoverTimestamps
  dsimp only
  split
  · exact .inl rfl
  · cases entry with
    | plain _ _ | quoted _ | sequence _ => exact .inl rfl
    | mapping fields =>
        right
        simp only [List.foldl_cons, List.foldl_nil, Value.get_mapping]
        rw [getField_insertField_of_ne (by decide), clearAuthority_get (by decide),
          clearAuthority_get (by decide), getField_insertField_of_ne (by decide),
          getField_insertField]

private theorem recoverTimestamps_same (entry : Value) (id : String) :
    SameClaims entry (recoverTimestamps entry id).1 where
  id := recoverTimestamps_get (by decide) (by decide) (by decide) (by decide) (by decide) entry id
  title := recoverTimestamps_get (by decide) (by decide) (by decide) (by decide) (by decide) entry id
  kind := recoverTimestamps_get (by decide) (by decide) (by decide) (by decide) (by decide) entry id
  dependsOn :=
    recoverTimestamps_get (by decide) (by decide) (by decide) (by decide) (by decide) entry id
  status := recoverTimestamps_status entry id

/-! ## Reconciliation -/

/-- What `reconcile` leaves as it was, up to the white space around the title. -/
structure Reconciled (task changed : Task) : Prop where
  id : changed.id = task.id
  title : changed.title = trim task.title
  kind : changed.kind = task.kind
  status : changed.status = task.status
  recoveryState : changed.recoveryState = task.recoveryState
  dependsOn : ∀ dependency, dependency ∈ changed.dependsOn ↔ dependency ∈ task.dependsOn

/-- The passes behind the first loop change timestamps and the blocker only. -/
structure SameWork (task changed : Task) : Prop where
  id : changed.id = task.id
  title : changed.title = task.title
  kind : changed.kind = task.kind
  status : changed.status = task.status
  recoveryState : changed.recoveryState = task.recoveryState
  dependsOn : changed.dependsOn = task.dependsOn

private theorem SameWork.refl (task : Task) : SameWork task task := ⟨rfl, rfl, rfl, rfl, rfl, rfl⟩

private theorem SameWork.trans {first second third : Task} (left : SameWork first second)
    (right : SameWork second third) : SameWork first third :=
  ⟨right.id.trans left.id, right.title.trans left.title, right.kind.trans left.kind,
    right.status.trans left.status, right.recoveryState.trans left.recoveryState,
    right.dependsOn.trans left.dependsOn⟩

private theorem reconcileUpdate_same (task : Task) : SameWork task (reconcileUpdate task).1 := by
  unfold reconcileUpdate
  dsimp only
  split
  · exact ⟨rfl, rfl, rfl, rfl, rfl, rfl⟩
  · exact .refl task

private theorem reconcileCompletion_same (task : Task) :
    SameWork task (reconcileCompletion task).1 := by
  unfold reconcileCompletion
  dsimp only
  split
  · split
    · exact ⟨rfl, rfl, rfl, rfl, rfl, rfl⟩
    · exact .refl task
  · exact .refl task
  · exact ⟨rfl, rfl, rfl, rfl, rfl, rfl⟩
  · exact .refl task

private theorem reconcileBlocker_same (task : Task) : SameWork task (reconcileBlocker task).1 := by
  unfold reconcileBlocker
  split
  · split
    · exact ⟨rfl, rfl, rfl, rfl, rfl, rfl⟩
    · exact .refl task
  · split
    · exact ⟨rfl, rfl, rfl, rfl, rfl, rfl⟩
    · exact .refl task

theorem reconcile_reconciled (task : Task) : Reconciled task (reconcile task).1 := by
  have passes := ((reconcileUpdate_same (reconcileTexts task).1).trans
    (reconcileCompletion_same _)).trans (reconcileBlocker_same _)
  have settled : ∀ changed, SameWork (reconcileTexts task).1 changed →
      Reconciled task (normalizeTask changed) := by
    intro changed same
    exact {
      id := same.id
      title := same.title
      kind := same.kind
      status := same.status
      recoveryState := same.recoveryState
      dependsOn := by
        intro dependency
        unfold normalizeTask
        rw [mem_sortUnique, same.dependsOn]
        rfl }
  exact settled _ passes

theorem Retains.reconcile {entry : Value} {task : Task} (retains : Retains false entry task) :
    Retains true entry (reconcile task).1 := by
  have kept := reconcile_reconciled task
  refine ⟨?_, ?_, ?_, ?_, ?_⟩
  · rw [kept.id]
    exact retains.id
  · obtain ⟨title, read, same⟩ := retains.title
    refine ⟨title, read, ?_⟩
    rw [kept.title, same]
    rfl
  · rw [kept.kind]
    exact retains.kind
  · obtain ⟨dependencies, read, same⟩ := retains.dependsOn
    exact ⟨dependencies, read, fun dependency => (kept.dependsOn dependency).trans (same dependency)⟩
  · rw [kept.status]
    exact retains.completed

theorem salvageEntry_retains {index : Nat} {entry : Value} {task : Task}
    (salvaged : (salvageEntry index entry).1 = some task) : Retains true entry task := by
  unfold salvageEntry at salvaged
  dsimp only at salvaged
  split at salvaged
  · cases salvaged
  · next decoded read =>
      split at salvaged
      · cases salvaged
        have passes := (retainKnown_same index (entryId entry) entry).trans
          (recoverTimestamps_same _ (entryId entry))
        exact passes.retains (decodeTask_retains read).reconcile
      · cases salvaged

/-! ## Passes over a document -/

variable {fromStr : String → Except String Value} {contents : String} {salvage : Bool}

theorem loadDocument_input {value : Value} {reasons : List Reason}
    (loaded : loadDocument fromStr contents salvage = .ok (value, reasons)) {items : List Value}
    (tasks : value.get "tasks" = some (.sequence items)) {entry : Value} (member : entry ∈ items) :
    InputEntry fromStr contents entry := by
  unfold loadDocument at loaded
  split at loaded
  · next document read =>
      cases loaded
      exact .item value items read tasks member
  · next error unreadable =>
      split at loaded
      · split at loaded
        · next recovered _ recovery =>
            cases loaded
            obtain ⟨_, frame, rfl⟩ := recoverFragments_ok recovery
            rw [frame.get_tasks] at tasks
            obtain rfl : frame.entries = items := Value.sequence.inj (Option.some.inj tasks)
            obtain ⟨fragment, inside, single⟩ := (frame.mem_entries entry).mp member
            obtain ⟨before, after, split⟩ := frame.fragment_infix inside
            exact .fragment error before fragment after unreadable split.symm single
        · cases loaded
      · cases loaded

theorem fillMissing_tasks {value : Value} {items : List Value}
    (tasks : (fillMissingTimestampMetadata value).1.get "tasks" = some (.sequence items)) :
    ∃ originals, value.get "tasks" = some (.sequence originals) ∧
      items = originals.map fun original => (fillEntry original).1 := by
  cases value with
  | plain _ _ | quoted _ | sequence _ => cases tasks
  | mapping entries =>
      unfold fillMissingTimestampMetadata at tasks
      dsimp only at tasks
      cases present : getField "tasks" entries with
      | none =>
          have inserted : getField "tasks" (insertMissing "tasks" .null entries) = some .null := by
            unfold insertMissing
            rw [present]
            exact getField_insertField _ _ _
          simp only [inserted] at tasks
          unfold Value.null at tasks
          dsimp only at tasks
          rw [Value.get_mapping, ← Value.null, inserted] at tasks
          cases tasks
      | some field =>
          have kept : insertMissing "tasks" .null entries = entries := by
            unfold insertMissing
            rw [present]
            rfl
          rw [kept, present] at tasks
          cases field with
          | plain _ _ | quoted _ | mapping _ =>
              simp only [Value.get_mapping, present] at tasks
              cases tasks
          | sequence originals =>
              simp only [Value.get_mapping, getField_insertField, Option.some.injEq,
                Value.sequence.injEq] at tasks
              refine ⟨originals, present, ?_⟩
              rw [← tasks, List.map_map]
              rfl

private theorem mem_of_mapM {items : List Value} {tasks : List Task}
    (read : items.mapM (decodeTask untypedView) = some tasks) {task : Task} (member : task ∈ tasks) :
    ∃ entry ∈ items, decodeTask untypedView entry = some task := by
  induction items generalizing tasks with
  | nil =>
      cases read
      cases member
  | cons entry rest ih =>
      simp only [List.mapM_cons, Option.bind_eq_bind, Option.bind_eq_some_iff, Option.pure_def,
        Option.some.injEq] at read
      obtain ⟨first, readFirst, others, readOthers, rfl⟩ := read
      rcases List.mem_cons.mp member with rfl | later
      · exact ⟨entry, List.mem_cons_self, readFirst⟩
      · obtain ⟨other, inside, readOther⟩ := ih readOthers later
        exact ⟨other, List.mem_cons_of_mem _ inside, readOther⟩

theorem salvageEntries_ok {index : Nat} {items : List Value} {tasks : List Task}
    {reasons : List Reason} (salvaged : salvageEntries index items = .ok (tasks, reasons))
    {task : Task} (member : task ∈ tasks) :
    ∃ position, ∃ entry ∈ items, isLive entry = false ∧
      (salvageEntry position entry).1 = some task := by
  induction items generalizing index tasks reasons with
  | nil =>
      cases salvaged
      cases member
  | cons entry rest ih =>
      unfold salvageEntries at salvaged
      obtain ⟨idle, salvaged⟩ := bind_unit_ok_iff.mp salvaged
      obtain ⟨⟨others, _⟩, salvagedRest, gathered⟩ := bind_ok_iff.mp salvaged
      cases gathered
      rcases List.mem_append.mp member with first | later
      · refine ⟨index, entry, List.mem_cons_self, ?_, Option.mem_toList.mp first⟩
        simpa using idle
      · obtain ⟨position, other, inside, idle, found⟩ := ih salvagedRest later
        exact ⟨position, other, List.mem_cons_of_mem _ inside, idle, found⟩

/-- The removal of duplicates only removes tasks. -/
theorem mem_of_retainDistinct {conflicting : List String} {tasks : List Task}
    {retained : List String} {task : Task}
    (member : task ∈ (retainDistinct conflicting tasks retained).1) : task ∈ tasks := by
  induction tasks generalizing retained with
  | nil => exact member
  | cons first rest ih =>
      unfold retainDistinct at member
      split at member
      · exact List.mem_cons_of_mem _ (ih member)
      · split at member
        · exact List.mem_cons_of_mem _ (ih member)
        · rcases List.mem_cons.mp member with rfl | later
          · exact List.mem_cons_self
          · exact List.mem_cons_of_mem _ (ih later)

theorem index_items {value : Value} {name : String} {items : List Value}
    (found : (value.index name).items? = some items) : value.get name = some (.sequence items) := by
  unfold Value.index at found
  cases field : value.get name with
  | none =>
      rw [field] at found
      cases found
  | some other =>
      rw [field, Option.getD_some] at found
      cases other with
      | plain _ _ | quoted _ | mapping _ => cases found
      | sequence _ =>
          cases found
          rfl

theorem salvageQueue_tasks {value : Value} {queue : TaskQueue} {reasons : List Reason}
    (salvaged : salvageQueue value = .ok (queue, reasons)) :
    ∃ items, value.get "tasks" = some (.sequence items) ∧
      ∀ task ∈ queue.tasks, ∃ position, ∃ entry ∈ items, isLive entry = false ∧
        (salvageEntry position entry).1 = some task := by
  unfold salvageQueue at salvaged
  split at salvaged
  · cases salvaged
  · dsimp only at salvaged
    split at salvaged
    · cases salvaged
    · next items found =>
        obtain ⟨⟨tasks, _⟩, read, gathered⟩ := bind_ok_iff.mp salvaged
        cases gathered
        refine ⟨items, index_items found, fun task member => ?_⟩
        exact salvageEntries_ok read (mem_of_retainDistinct member)

theorem decodeDocument_tasks {value : Value} {queue : TaskQueue} {reasons : List Reason}
    (decoded : decodeDocument salvage value = .ok (queue, reasons)) {task : Task}
    (member : task ∈ queue.tasks) :
    ∃ items, value.get "tasks" = some (.sequence items) ∧
      ∃ entry ∈ items, Retains salvage entry task := by
  unfold decodeDocument at decoded
  cases salvage with
  | true =>
      rw [if_pos rfl] at decoded
      obtain ⟨⟨salvaged, _⟩, read, gathered⟩ := bind_ok_iff.mp decoded
      cases gathered
      obtain ⟨items, tasks, each⟩ := salvageQueue_tasks read
      obtain ⟨_, entry, inside, _, found⟩ := each task member
      exact ⟨items, tasks, entry, inside, salvageEntry_retains found⟩
  | false =>
      rw [if_neg Bool.false_ne_true] at decoded
      split at decoded
      · cases decoded
      · next read =>
          cases decoded
          simp only [decodeQueue, Option.bind_eq_bind, Option.bind_eq_some_iff,
            Option.some.injEq] at read
          obtain ⟨fields, record, _, _, _, _, tasks, readTasks, rfl⟩ := read
          rw [requiredField_untyped record] at readTasks
          obtain ⟨field, found, readTasks⟩ := Option.bind_eq_some_iff.mp readTasks
          simp only [View.list, Option.bind_eq_bind, Option.bind_eq_some_iff] at readTasks
          obtain ⟨items, sequence, readItems⟩ := readTasks
          obtain ⟨entry, inside, readEntry⟩ := mem_of_mapM readItems member
          cases field with
          | sequence _ =>
              cases sequence
              exact ⟨items, found, entry, inside, decodeTask_retains readEntry⟩
          | plain text resolved =>
              cases resolved with
              | null =>
                  cases sequence
                  cases inside
              | boolean _ | integer _ | real | string => cases sequence
          | quoted _ | mapping _ => cases sequence

/-! ## Order and prefixes -/

/-- Reordering neither loses nor repeats a task. -/
theorem orderTasks_perm (rounds : Nat) (ordered pending : List Task) :
    ((orderTasks rounds ordered pending).1 ++ (orderTasks rounds ordered pending).2).Perm
      (ordered ++ pending) := by
  induction rounds generalizing ordered pending with
  | zero => exact .refl _
  | succ rounds ih =>
      unfold orderTasks
      split
      · exact .refl _
      · next task found =>
          refine (ih _ _).trans ?_
          rw [List.append_assoc, List.singleton_append]
          have taken : pending.Perm (task :: pending.eraseP (isNext ordered)) := by
            obtain ⟨next, before, after, rfl, skipped⟩ := List.find?_eq_some_iff_append.mp found
            have passed : ∀ other ∈ before, ¬ isNext ordered other = true := by
              intro other member
              simpa using skipped other member
            rw [List.eraseP_append_right _ passed, List.eraseP_cons_of_pos next]
            exact List.perm_middle
          exact (List.Perm.append_left ordered taken).symm

theorem orderedTasks_perm (tasks : List Task) :
    ((orderedTasks tasks).1 ++ (orderedTasks tasks).2).Perm tasks := orderTasks_perm _ [] tasks

private theorem isNext_of_sound {ordered rest : List Task} {task : Task}
    (sound : SoundDependencies (ordered ++ task :: rest)) : isNext ordered task = true := by
  have split : (ordered ++ task :: rest)[ordered.length]? = some task := by
    rw [List.getElem?_append_right (Nat.le_refl _), Nat.sub_self, List.getElem?_cons_zero]
  have fresh : task.id ∉ ordered.map (·.id) := by
    intro present
    have unique := sound.unique
    rw [List.map_append, List.map_cons] at unique
    exact (List.nodup_append.mp unique).2.2 task.id present task.id List.mem_cons_self rfl
  have known : ∀ dependency ∈ task.dependsOn, dependency ∈ ordered.map (·.id) := by
    intro dependency recorded
    obtain ⟨other, earlier, same⟩ := sound.earlier ordered.length task split dependency recorded
    rw [List.take_left] at earlier
    exact List.mem_map.mpr ⟨other, earlier, same⟩
  unfold isNext
  simpa [fresh] using known

private theorem orderTasks_of_sound {ordered pending : List Task}
    (sound : SoundDependencies (ordered ++ pending)) :
    orderTasks pending.length ordered pending = (ordered ++ pending, []) := by
  induction pending generalizing ordered with
  | nil => rw [List.append_nil]; rfl
  | cons task rest ih =>
      have next := isNext_of_sound sound
      have again : SoundDependencies ((ordered ++ [task]) ++ rest) := by
        rwa [List.append_assoc, List.singleton_append]
      rw [List.length_cons, orderTasks, List.find?_cons_of_pos next]
      dsimp only
      rw [List.eraseP_cons_of_pos next, ih again, List.append_assoc, List.singleton_append]

/-- Tasks in a sound order stay in this order. -/
theorem orderedTasks_of_sound {tasks : List Task} (sound : SoundDependencies tasks) :
    orderedTasks tasks = (tasks, []) := @orderTasks_of_sound [] tasks sound

/-- The loop over prefixes keeps the queue valid and adds only the given tasks. -/
theorem pushTasks_ok {queue final : TaskQueue} {rest : List Task} {reasons : List Reason}
    (pushed : pushTasks salvage queue rest = .ok (final, reasons)) :
    (∀ task ∈ final.tasks, task ∈ queue.tasks ∨ task ∈ rest) ∧
      (validate queue = .ok () → validate final = .ok ()) := by
  induction rest generalizing queue reasons with
  | nil =>
      cases pushed
      exact ⟨fun task member => .inl member, id⟩
  | cons task rest ih =>
      unfold pushTasks at pushed
      dsimp only at pushed
      split at pushed
      · next valid =>
          obtain ⟨inside, keeps⟩ := ih pushed
          refine ⟨fun other member => ?_, fun _ => keeps valid⟩
          rcases inside other member with earlier | later
          · rcases List.mem_append.mp earlier with old | new
            · exact .inl old
            · exact .inr (List.mem_cons.mpr (.inl (List.mem_singleton.mp new)))
          · exact .inr (List.mem_cons_of_mem _ later)
      · split at pushed
        · obtain ⟨⟨other, others⟩, pushedRest, gathered⟩ := bind_ok_iff.mp pushed
          cases gathered
          obtain ⟨inside, keeps⟩ := ih pushedRest
          refine ⟨fun other member => ?_, keeps⟩
          exact (inside other member).imp_right (List.mem_cons_of_mem _)
        · cases pushed

theorem pushTasks_of_valid (queue : TaskQueue) {rest : List Task}
    (valid : validate { queue with tasks := queue.tasks ++ rest } = .ok ()) :
    pushTasks salvage queue rest = .ok ({ queue with tasks := queue.tasks ++ rest }, []) := by
  induction rest generalizing queue with
  | nil => rw [List.append_nil]; rfl
  | cons task rest ih =>
      have split : queue.tasks ++ task :: rest = (queue.tasks ++ [task]) ++ rest := by
        rw [List.append_assoc, List.singleton_append]
      rw [split] at valid ⊢
      unfold pushTasks
      dsimp only
      rw [validate_of_append valid]
      exact ih { queue with tasks := queue.tasks ++ [task] } valid

theorem finish_ok {queue : TaskQueue} {found : Candidate}
    (finished : finish salvage queue = .ok found) :
    (∀ task ∈ queue.tasks, isActive task = false) ∧
    ∃ final, validate final = .ok () ∧ found.contents = canonicalText final ∧
      ∀ task ∈ final.tasks, ∃ original ∈ queue.tasks, task = normalizeTask original := by
  unfold finish at finished
  obtain ⟨idle, finished⟩ := bind_unit_ok_iff.mp finished
  dsimp only at finished
  obtain ⟨_, finished⟩ := bind_unit_ok_iff.mp finished
  obtain ⟨⟨final, reasons⟩, pushed, finished⟩ := bind_ok_iff.mp finished
  dsimp only at finished
  split at finished
  · cases finished
  · next text written =>
      cases finished
      obtain ⟨valid, rfl⟩ := serialize_ok_iff.mp written
      refine ⟨by simpa using idle, final, valid, rfl, fun task member => ?_⟩
      rcases (pushTasks_ok pushed).1 task member with none | ordered
      · cases none
      · have inside : task ∈ queue.tasks.map normalizeTask :=
          (orderedTasks_perm _).mem_iff.mp (List.mem_append_left _ ordered)
        obtain ⟨original, present, rfl⟩ := List.mem_map.mp inside
        exact ⟨original, present, rfl⟩

end Kvist.Repair
