import Kvist.TaskQueue.Lifecycle
import Kvist.TaskQueue.RoundTrip

/-!
# Runs of task commands

Whatever commands are called, in whatever order and with whatever they read outside the queue:
the stored queue validates, no task is started or completed before everything it depends on, and a
completed task stays as it is.
-/

set_option autoImplicit false

namespace Kvist.Queue

/-! ## Definitions of tasks -/

/-- What no command changes of a task. -/
def Task.definition (task : Task) : Task :=
  { task with
    status := .pending
    timestamps := { task.timestamps with
      updatedAt := task.timestamps.createdAt
      completedAt := none }
    blockedReason := none
    recoveryState := none
    acceptanceId := none
    disposition := none }

@[simp] theorem Task.definition_id (task : Task) : task.definition.id = task.id := rfl

@[simp] theorem Task.definition_dependsOn (task : Task) :
    task.definition.dependsOn = task.dependsOn := rfl

theorem transitiveDependenciesCompleted_iff {task : Task} {tasks : List Task} :
    transitiveDependenciesCompleted task tasks = true ↔
      ∀ id, ReachedFrom tasks task id → NamesCompleted tasks id := by
  obtain ⟨completed, walked, decides⟩ := dependenciesCompleted_ok task tasks
  rw [transitiveDependenciesCompleted, walked, ← decides]
  cases completed with
  | false => decide
  | true => decide

section Definitions

variable {before after : List Task}

private theorem taskById_definition (tasks : List Task) (id : String) :
    (taskById tasks id).map Task.definition = taskById (tasks.map Task.definition) id := by
  unfold taskById
  rw [List.find?_map]
  rfl

theorem namedDependencies_of_same
    (same : after.map Task.definition = before.map Task.definition) (id : String) :
    namedDependencies after id = namedDependencies before id := by
  have found : (taskById after id).map Task.definition =
      (taskById before id).map Task.definition := by
    rw [taskById_definition, taskById_definition, same]
  have recorded := congrArg (fun answer => answer.elim [] Task.dependsOn) found
  rwa [Option.elim_map, Option.elim_map] at recorded

theorem reachedFrom_of_same (same : after.map Task.definition = before.map Task.definition)
    {task other : Task} (recorded : other.dependsOn = task.dependsOn) {id : String} :
    ReachedFrom after other id ↔ ReachedFrom before task id := by
  unfold ReachedFrom
  simp only [namedDependencies_of_same same, recorded]

theorem ids_of_same (same : after.map Task.definition = before.map Task.definition) :
    after.map (·.id) = before.map (·.id) := by
  have ids := congrArg (List.map Task.id) same
  simpa [Function.comp_def] using ids

theorem set_definitions {index : Nat} {task updated : Task} (found : before[index]? = some task)
    (same : updated.definition = task.definition) :
    (before.set index updated).map Task.definition = before.map Task.definition := by
  obtain ⟨inside, here⟩ := List.getElem?_eq_some_iff.mp found
  have short : index < (before.map Task.definition).length := by simpa using inside
  have mapped : (before.map Task.definition)[index] = task.definition := by simp [here]
  rw [List.map_set, same, ← mapped, List.set_getElem_self]

theorem soundDependencies_definitions (tasks : List Task) :
    SoundDependencies (tasks.map Task.definition) ↔ SoundDependencies tasks :=
  soundDependencies_map (fun _ => rfl) (fun _ _ => Iff.rfl) fun _ => rfl

end Definitions

/-- With distinct identities, an identity names a completed task when some task with it is
completed. -/
theorem namesCompleted_iff {tasks : List Task} (unique : (tasks.map (·.id)).Nodup) {id : String} :
    NamesCompleted tasks id ↔ ∃ task ∈ tasks, task.id = id ∧ task.status = .completed := by
  constructor
  · intro named
    obtain ⟨task, found, completed⟩ := named
    obtain ⟨member, same⟩ := taskById_some found
    exact ⟨task, member, same, completed⟩
  · intro present
    obtain ⟨task, member, same, completed⟩ := present
    exact ⟨task, same ▸ taskById_of_mem unique member, completed⟩

/-! ## What a command stores -/

/-- The texts of a task that commands write and validation leaves free. -/
def Task.freeTexts (task : Task) : List String :=
  task.blockedReason.toList ++ (task.recoveryState.map (·.reason)).toList ++
    task.acceptanceId.toList

theorem mem_freeTexts {task : Task} {text : String} :
    text ∈ task.freeTexts ↔ task.blockedReason = some text ∨
      (∃ recovery, task.recoveryState = some recovery ∧ recovery.reason = text) ∨
      task.acceptanceId = some text := by
  rw [Task.freeTexts, List.mem_append, List.mem_append, Option.mem_toList, Option.mem_toList,
    Option.mem_toList, Option.map_eq_some_iff, or_assoc]

/-- The reasons of the fences that commands put on a task. -/
def fenceReasons : List String := ["evidence-tampered", "runner-descriptor-open-failed"]

/-- What a command that is given these texts may do to the task it is about. -/
structure Advances (given : List String) (tasks : List Task) (before after : Task) : Prop where
  definition : after.definition = before.definition
  unfinished : before.status ≠ .completed
  legal : after.status = before.status ∨ before.status.canTransitionTo after.status = true
  started : after.status = .inProgress →
    before.status = .inProgress ∨ transitiveDependenciesCompleted before tasks = true
  written : ∀ text ∈ after.freeTexts, text ∈ before.freeTexts ∨ text ∈ fenceReasons ∨ text ∈ given

/-- A queue is stored as it is, or as a valid queue in which one task is advanced. -/
inductive Stores (given : List String) (before : TaskQueue) : TaskQueue → Prop where
  | same : Stores given before before
  | advanced {index : Nat} {task updated : Task} (found : before.tasks[index]? = some task)
      (advances : Advances given before.tasks task updated)
      (valid : validate { before with tasks := before.tasks.set index updated } = .ok ()) :
      Stores given before { before with tasks := before.tasks.set index updated }

theorem locate_ok {queue : TaskQueue} {taskId : String} {index : Nat} {task : Task}
    (located : locate queue taskId = .ok (index, task)) :
    queue.tasks[index]? = some task ∧ task.id = taskId := by
  unfold locate at located
  obtain ⟨position, searched, located⟩ := bind_ok_iff.mp located
  obtain ⟨other, present, located⟩ := bind_ok_iff.mp located
  cases located
  rw [okOr_ok_iff] at searched present
  obtain ⟨inside, named, _⟩ := List.findIdx?_eq_some_iff_getElem.mp searched
  rw [List.getElem?_eq_getElem inside] at present
  cases present
  exact ⟨List.getElem?_eq_getElem inside, by simpa using named⟩

theorem storeTask_ok {queue stored : TaskQueue} {index : Nat} {task : Task}
    (accepted : storeTask queue index task = .ok stored) :
    stored = { queue with tasks := queue.tasks.set index task } ∧ validate stored = .ok () := by
  simp only [storeTask] at accepted
  cases emitted : serialize { queue with tasks := queue.tasks.set index task } with
  | error failure => simp [emitted] at accepted
  | ok text =>
      simp only [emitted, Except.ok.injEq] at accepted
      subst accepted
      exact ⟨rfl, (serialize_ok_iff.mp emitted).1⟩

theorem storeTask_stores {queue stored : TaskQueue} {index : Nat} {task updated : Task}
    {given : List String} (found : queue.tasks[index]? = some task)
    (advances : Advances given queue.tasks task updated)
    (accepted : storeTask queue index updated = .ok stored) : Stores given queue stored := by
  obtain ⟨rfl, valid⟩ := storeTask_ok accepted
  exact .advanced found advances valid

theorem canTransitionTo_completed {status : TaskStatus} :
    status.canTransitionTo .completed = true ↔ status = .inProgress := by
  cases status <;> decide

theorem canTransitionTo_inProgress {status : TaskStatus} :
    status.canTransitionTo .inProgress = true ↔
      [TaskStatus.pending, .blocked, .awaitingDecision].contains status = true := by
  cases status <;> decide

theorem canTransitionTo_unfinished {before after : TaskStatus}
    (legal : before.canTransitionTo after = true) : before ≠ .completed := by
  intro completed
  rw [completed, canTransitionTo_completed_source] at legal
  cases legal

/-- An accepted transition is in the table, and starts only what is ready. -/
theorem validateTransition_ok {task : Task} {tasks : List Task} {target : TaskStatus}
    {reason : Option String} (accepted : validateTransition task tasks target reason = .ok ()) :
    task.status.canTransitionTo target = true ∧
      (target = .inProgress → transitiveDependenciesCompleted task tasks = true) := by
  unfold validateTransition at accepted
  obtain ⟨legal, accepted⟩ := bind_unit_ok_iff.mp accepted
  refine ⟨ensure_ok_iff.mp legal, fun starting => ?_⟩
  subst starting
  have ready := ensure_ok_iff.mp (bind_unit_ok_iff.mp accepted).1
  simp only [Bool.and_eq_true] at ready
  exact ready.2

theorem reason_of_paused {task : Task} {tasks : List Task} {target : TaskStatus}
    {reason : Option String} (accepted : validateTransition task tasks target reason = .ok ())
    (paused : target.isPaused = true) : ∃ text, reason = some text := by
  unfold validateTransition at accepted
  have asked := (bind_unit_ok_iff.mp accepted).2
  cases reason with
  | some text => exact ⟨text, rfl⟩
  | none =>
      cases target with
      | blocked => cases asked
      | awaitingDecision => cases asked
      | pending => cases paused
      | inProgress => cases paused
      | completed => cases paused

theorem advances_of_validated {task updated : Task} {tasks : List Task} {target : TaskStatus}
    {reason : Option String} {given : List String}
    (accepted : validateTransition task tasks target reason = .ok ())
    (definition : updated.definition = task.definition) (moved : updated.status = target)
    (written : ∀ text ∈ updated.freeTexts, text ∈ task.freeTexts ∨ text ∈ given) :
    Advances given tasks task updated := by
  obtain ⟨legal, ready⟩ := validateTransition_ok accepted
  exact ⟨definition, canTransitionTo_unfinished legal, .inr (moved ▸ legal),
    fun starting => .inr (ready (moved ▸ starting)),
    fun text member => (written text member).imp_right .inr⟩

theorem transitioned_freeTexts {task : Task} {tasks : List Task} {target : TaskStatus}
    {reason : Option String} {timestamp : Timestamp}
    (accepted : validateTransition task tasks target reason = .ok ()) :
    ∀ text ∈ (task.transitioned target reason timestamp).freeTexts,
      text ∈ task.freeTexts ∨ text ∈ reason.toList := by
  intro text member
  rw [mem_freeTexts]
  rcases mem_freeTexts.mp member with blocked | kept
  · simp only [Task.transitioned] at blocked
    split_ifs at blocked with paused
    obtain ⟨given, rfl⟩ := reason_of_paused accepted paused
    exact .inr (Option.mem_toList.mpr blocked)
  · exact .inl (.inr kept)

theorem fenced_freeTexts {task : Task} {attemptId reason : String} (fence : reason ∈ fenceReasons) :
    ∀ text ∈ (task.fenced attemptId reason).freeTexts,
      text ∈ task.freeTexts ∨ text ∈ fenceReasons ∨ text ∈ [] := by
  intro text member
  rw [mem_freeTexts]
  rcases mem_freeTexts.mp member with blocked | ⟨recovery, same, rfl⟩ | accepted
  · exact .inl (.inl blocked)
  · cases same
    exact .inr (.inl fence)
  · exact .inl (.inr (.inr accepted))

section Commands

variable {evidence : Evidence} {component : String} {findings : AttemptFindings}
  {queue stored : TaskQueue} {taskId attemptId : String} {timestamp : Timestamp}

theorem transitionLocked_stores {target : TaskStatus} {reason permitted : Option String}
    (accepted : transitionLocked evidence component queue taskId target reason timestamp
      permitted = .ok stored) : Stores reason.toList queue stored := by
  unfold transitionLocked at accepted
  obtain ⟨_, accepted⟩ := bind_unit_ok_iff.mp accepted
  obtain ⟨⟨index, task⟩, located, accepted⟩ := bind_ok_iff.mp accepted
  obtain ⟨allowed, accepted⟩ := bind_unit_ok_iff.mp accepted
  refine storeTask_stores (locate_ok located).1 ?_ accepted
  exact advances_of_validated allowed rfl rfl (transitioned_freeTexts allowed)

theorem blockAttemptLocked_stores {reason : Option String}
    (accepted : blockAttemptLocked evidence component findings queue taskId attemptId reason
      timestamp = .ok stored) : Stores reason.toList queue stored := by
  unfold blockAttemptLocked at accepted
  obtain ⟨text, filtered, accepted⟩ := bind_ok_iff.mp accepted
  obtain ⟨_, accepted⟩ := bind_unit_ok_iff.mp accepted
  obtain ⟨⟨index, task⟩, located, accepted⟩ := bind_ok_iff.mp accepted
  obtain ⟨_, accepted⟩ := bind_unit_ok_iff.mp accepted
  obtain ⟨_, accepted⟩ := bind_unit_ok_iff.mp accepted
  obtain ⟨_, accepted⟩ := bind_unit_ok_iff.mp accepted
  obtain ⟨_, accepted⟩ := bind_unit_ok_iff.mp accepted
  by_cases repeated : alreadyBlocked task text = true
  · rw [if_pos repeated] at accepted
    cases accepted
    exact .same
  · rw [if_neg repeated] at accepted
    obtain ⟨allowed, accepted⟩ := bind_unit_ok_iff.mp accepted
    refine storeTask_stores (locate_ok located).1 ?_ accepted
    refine advances_of_validated allowed rfl rfl fun other member => ?_
    rw [mem_freeTexts]
    rcases mem_freeTexts.mp member with blocked | kept
    · obtain ⟨given, _⟩ := Option.filter_eq_some_iff.mp (okOr_ok_iff.mp filtered)
      cases blocked
      exact .inr (Option.mem_toList.mpr given)
    · exact .inl (.inr kept)

theorem fencePreSpawnFailure_stores
    (accepted : fencePreSpawnFailure evidence component queue taskId attemptId timestamp =
      .ok stored) : Stores [] queue stored := by
  unfold fencePreSpawnFailure at accepted
  obtain ⟨⟨index, task⟩, located, accepted⟩ := bind_ok_iff.mp accepted
  obtain ⟨fenceable, accepted⟩ := bind_unit_ok_iff.mp accepted
  obtain ⟨_, accepted⟩ := bind_unit_ok_iff.mp accepted
  refine storeTask_stores (locate_ok located).1 ?_ accepted
  have allowed := ensure_ok_iff.mp fenceable
  unfold canFencePreSpawn at allowed
  have written := @fenced_freeTexts { task with
    status := .inProgress
    timestamps := { task.timestamps with updatedAt := timestamp } } attemptId _
      (List.mem_cons_of_mem _ List.mem_cons_self)
  cases status : task.status with
  | pending =>
      rw [status] at allowed
      simp only [taskIsReady, Bool.and_eq_true] at allowed
      refine ⟨rfl, by simp [status], .inr ?_, fun _ => .inr allowed.2, written⟩
      simp [status, TaskStatus.canTransitionTo, Task.fenced]
  | inProgress => exact ⟨rfl, by simp [status], .inl status.symm, fun _ => .inl status, written⟩
  | blocked => simp [status] at allowed
  | awaitingDecision => simp [status] at allowed
  | completed => simp [status] at allowed

theorem statusFromRecovery_ok {name : String} {status : TaskStatus}
    (read : statusFromRecovery name = .ok status) : status = .pending ∨ status = .inProgress := by
  unfold statusFromRecovery at read
  split at read
  · cases read
    exact .inl rfl
  · split at read
    · cases read
      exact .inr rfl
    · cases read

theorem recoverFenced_stores {preStatus : String}
    (accepted : recoverFenced evidence component queue taskId attemptId preStatus timestamp =
      .ok stored) : Stores [] queue stored := by
  unfold recoverFenced at accepted
  obtain ⟨_, accepted⟩ := bind_unit_ok_iff.mp accepted
  obtain ⟨_, accepted⟩ := bind_unit_ok_iff.mp accepted
  obtain ⟨⟨index, task⟩, located, accepted⟩ := bind_ok_iff.mp accepted
  obtain ⟨status, read, accepted⟩ := bind_ok_iff.mp accepted
  obtain ⟨fenced, accepted⟩ := bind_unit_ok_iff.mp accepted
  have held := ensure_ok_iff.mp fenced
  rw [Bool.and_eq_true, beq_iff_eq] at held
  obtain ⟨running, _⟩ := held
  refine storeTask_stores (locate_ok located).1 ?_ accepted
  refine ⟨rfl, by simp [running], ?_, fun _ => .inl running, fun text member => .inl ?_⟩
  · rcases statusFromRecovery_ok read with rfl | rfl
    · exact .inr (by simp [running, TaskStatus.canTransitionTo])
    · exact .inl running.symm
  · rw [mem_freeTexts]
    rcases mem_freeTexts.mp member with blocked | ⟨recovery, absent, _⟩ | accepted
    · exact .inl blocked
    · cases absent
    · exact .inr (.inr accepted)

theorem finalizeAccept_stores {commit : Bool} :
    Stores [attemptId] queue (finalizeAccept evidence component findings queue taskId attemptId
      commit timestamp).1 := by
  unfold finalizeAccept
  dsimp only
  split
  · exact .same
  next checked =>
    obtain ⟨_, checked⟩ := bind_unit_ok_iff.mp checked
    obtain ⟨⟨index, task⟩, located, checked⟩ := bind_ok_iff.mp checked
    obtain ⟨_, checked⟩ := bind_unit_ok_iff.mp checked
    obtain ⟨_, checked⟩ := bind_unit_ok_iff.mp checked
    obtain ⟨allowed, checked⟩ := bind_unit_ok_iff.mp checked
    obtain ⟨_, checked⟩ := bind_unit_ok_iff.mp checked
    cases checked
    have found := (locate_ok located).1
    by_cases repeated : alreadyAccepted task attemptId = true
    · simp only [repeated, if_true]
      split
      · exact .same
      · exact .same
    · rw [checkAcceptance, if_neg repeated] at allowed
      simp only [repeated, Bool.false_eq_true, if_false]
      have running : task.status = .inProgress :=
        canTransitionTo_completed.mp (validateTransition_ok allowed).1
      split
      · split
        next stored accepted =>
          refine storeTask_stores found ?_ accepted
          exact ⟨rfl, by simp [running], .inl rfl, fun _ => .inl running, fun text member =>
            (fenced_freeTexts List.mem_cons_self text member).imp_right (.imp_right nofun)⟩
        · exact .same
      · split
        next stored accepted =>
          refine storeTask_stores found ?_ accepted
          refine advances_of_validated allowed rfl rfl fun text member => ?_
          rw [mem_freeTexts]
          rcases mem_freeTexts.mp member with blocked | fenced | accepted
          · exact .inl (.inl blocked)
          · exact .inl (.inr (.inl fenced))
          · cases accepted
            exact .inr List.mem_cons_self
        · exact .same

end Commands

/-! ## Settled queues -/

/-- A valid queue in which everything behind a started or completed task is completed. -/
structure Settled (queue : TaskQueue) : Prop where
  valid : validate queue = .ok ()
  closed : ∀ task ∈ queue.tasks, task.status = .inProgress ∨ task.status = .completed →
    ∀ id, ReachedFrom queue.tasks task id → NamesCompleted queue.tasks id

theorem Settled.sound {queue : TaskQueue} (settled : Settled queue) :
    SoundDependencies queue.tasks := ((validate_ok_iff queue).mp settled.valid).2.2.2

theorem settled_of_pending {queue : TaskQueue} (valid : validate queue = .ok ())
    (pending : ∀ task ∈ queue.tasks, task.status = .pending) : Settled queue := by
  refine ⟨valid, fun task member started => ?_⟩
  rw [pending task member] at started
  simp at started

/-- What storing keeps: the definitions and the order of the tasks, and the completed ones. -/
structure Keeps (before after : TaskQueue) : Prop where
  version : after.schemaVersion = before.schemaVersion
  component : after.component = before.component
  definitions : after.tasks.map Task.definition = before.tasks.map Task.definition
  completed : ∀ (position : Nat) (task : Task), before.tasks[position]? = some task →
    task.status = .completed → after.tasks[position]? = some task

theorem Keeps.refl (queue : TaskQueue) : Keeps queue queue :=
  ⟨rfl, rfl, rfl, fun _ _ found _ => found⟩

theorem Keeps.trans {first middle last : TaskQueue} (front : Keeps first middle)
    (back : Keeps middle last) : Keeps first last where
  version := back.version.trans front.version
  component := back.component.trans front.component
  definitions := back.definitions.trans front.definitions
  completed := fun position task found completed =>
    back.completed position task (front.completed position task found completed) completed

section Stored

variable {given : List String} {before after : TaskQueue}

theorem Stores.keeps (stores : Stores given before after) : Keeps before after := by
  cases stores with
  | same => exact .refl before
  | @advanced index task updated found advances valid =>
      refine ⟨rfl, rfl, ?_, fun position other present completed => ?_⟩
      · exact set_definitions found advances.definition
      · have apart : index ≠ position := by
          intro same
          rw [← same, found] at present
          cases present
          exact advances.unfinished completed
        rw [List.getElem?_set_ne apart, present]

theorem Keeps.namesCompleted (keeps : Keeps before after)
    (unique : (before.tasks.map (·.id)).Nodup) {id : String}
    (named : NamesCompleted before.tasks id) : NamesCompleted after.tasks id := by
  have distinct : (after.tasks.map (·.id)).Nodup := by rwa [ids_of_same keeps.definitions]
  obtain ⟨task, member, same, completed⟩ := (namesCompleted_iff unique).mp named
  obtain ⟨position, found⟩ := List.getElem?_of_mem member
  have kept := keeps.completed position task found completed
  exact (namesCompleted_iff distinct).mpr ⟨task, List.mem_of_getElem? kept, same, completed⟩

/-- The step lemma: storing keeps a queue settled. -/
theorem Settled.stores (settled : Settled before) (stores : Stores given before after) :
    Settled after := by
  have keeps := stores.keeps
  have unique := settled.sound.unique
  cases stores with
  | same => exact settled
  | @advanced index task updated found advances valid =>
      refine ⟨valid, fun other member started id reached => ?_⟩
      apply keeps.namesCompleted unique
      have present : task ∈ before.tasks := List.mem_of_getElem? found
      rcases List.mem_or_eq_of_mem_set member with old | rfl
      · have back := (reachedFrom_of_same keeps.definitions rfl).mp reached
        exact settled.closed other old started id back
      · have recorded : other.dependsOn = task.dependsOn := by
          simpa using congrArg Task.dependsOn advances.definition
        have back := (reachedFrom_of_same keeps.definitions recorded).mp reached
        by_cases running : task.status = .inProgress
        · exact settled.closed task present (.inl running) id back
        · have starting : other.status = .inProgress := by
            cases started with
            | inl starting => exact starting
            | inr completed =>
                have legal := advances.legal
                rw [completed] at legal
                rcases legal with same | legal
                · exact absurd same.symm advances.unfinished
                · exact absurd (canTransitionTo_completed.mp legal) running
          have ready := (advances.started starting).resolve_left running
          exact transitiveDependenciesCompleted_iff.mp ready id back

end Stored

/-! ## Runs of commands -/

theorem stored_stores {given : List String} {queue : TaskQueue}
    {outcome : Except KvistError TaskQueue}
    (stores : ∀ next, outcome = .ok next → Stores given queue next) :
    Stores given queue (stored queue outcome).1 := by
  cases outcome with
  | error failure => exact .same
  | ok next => exact stores next rfl

theorem perform_stores (queue : TaskQueue) (call : Call) :
    Stores call.command.texts queue (perform queue call).1 := by
  unfold perform
  cases call.command with
  | transition taskId target reason permitted =>
      exact stored_stores fun next accepted => transitionLocked_stores accepted
  | accept findings taskId attemptId commit => exact finalizeAccept_stores
  | block findings taskId attemptId reason =>
      exact stored_stores fun next accepted => blockAttemptLocked_stores accepted
  | fence taskId attemptId =>
      exact stored_stores fun next accepted => fencePreSpawnFailure_stores accepted
  | recover taskId attemptId preStatus =>
      exact stored_stores fun next accepted => recoverFenced_stores accepted

/-- The run lemma: commands keep a queue settled. -/
theorem Settled.performAll {queue : TaskQueue} (settled : Settled queue) (calls : List Call) :
    Settled (performAll queue calls) := by
  induction calls generalizing queue with
  | nil => exact settled
  | cons call rest ih => exact ih (settled.stores (perform_stores queue call))

/-! ## Runs on the file -/

/-- Every character of the texts comes back when they are stored and read. -/
def AllSurvive (texts : List String) : Prop :=
  ∀ text ∈ texts, ∀ character ∈ text.toList, survives character = true

instance (texts : List String) : Decidable (AllSurvive texts) :=
  decidable_of_iff (texts.all fun text => text.toList.all survives) <| by
    simp only [AllSurvive, List.all_eq_true]

theorem survives_digit {character : Char} (digit : isAsciiDigit character = true) :
    survives character = true := by
  obtain ⟨low, high⟩ : 48 ≤ character.toNat ∧ character.toNat ≤ 57 := digit_bounds digit
  simp only [survives, isEmittable, Yaml.isPrintable, Yaml.isSeparator, Bool.and_eq_true,
    Bool.or_eq_true, decide_eq_true_eq, beq_iff_eq, Bool.not_eq_true', Bool.or_eq_false_iff,
    beq_eq_false_iff_ne]
  omega

/-- A valid instant is digits between fixed characters. -/
theorem Timestamp.survives {timestamp : Timestamp} {name : String}
    (valid : timestamp.validate name = .ok ()) : AllSurvive [timestamp.value] := by
  rw [AllSurvive, List.forall_mem_singleton]
  intro character member
  rw [Timestamp.validate] at valid
  have layout := ensure_ok_iff.mp (bind_unit_ok_iff.mp valid).1
  simp only [hasInstantLayout, Bool.and_eq_true, beq_iff_eq, List.all_eq_true,
    Bool.or_eq_true, List.contains_iff_mem] at layout
  obtain ⟨⟨⟨⟨⟨⟨⟨_, at4⟩, at7⟩, at10⟩, at13⟩, at16⟩, at19⟩, digits⟩ := layout
  obtain ⟨position, found⟩ := List.getElem?_of_mem member
  rcases digits (character, position) (List.mem_zipIdx_iff_getElem?.mpr found) with fixed | digit
  · simp only [List.mem_cons, List.not_mem_nil, or_false] at fixed
    rcases fixed with rfl | rfl | rfl | rfl | rfl | rfl
    · cases at4.symm.trans found; decide
    · cases at7.symm.trans found; decide
    · cases at10.symm.trans found; decide
    · cases at13.symm.trans found; decide
    · cases at16.symm.trans found; decide
    · cases at19.symm.trans found; decide
  · exact survives_digit digit

theorem survives_attemptId {value : String} (valid : validAttemptId value = true) :
    AllSurvive [value] := by
  rw [AllSurvive, List.forall_mem_singleton]
  intro character member
  rw [validAttemptId] at valid
  split at valid
  · cases valid
  · next number stripped =>
      rw [Text.stripLeading_eq_some_iff] at stripped
      rw [Bool.and_eq_true, List.all_eq_true] at valid
      rw [stripped] at member
      have plain := List.all_eq_true.mp
        (show "attempt-".toList.all survives = true by decide)
      rcases List.mem_append.mp member with leading | digit
      · exact plain character leading
      · exact survives_digit (valid.2 character digit)

section Texts

variable {task : Task} {given : List String}

theorem freeTexts_texts : task.freeTexts ⊆ task.texts := by
  intro text member
  simp only [mem_freeTexts, Task.texts, RecoveryState.texts, List.mem_append, List.mem_flatMap,
    Option.mem_toList, List.mem_cons, List.not_mem_nil, or_false] at member ⊢
  rcases member with blocked | ⟨recovery, fenced, rfl⟩ | accepted
  · exact .inl (.inl (.inr blocked))
  · exact .inl (.inr ⟨recovery, fenced, .inr rfl⟩)
  · exact .inr accepted

theorem definition_texts : task.definition.texts ⊆ task.texts := by
  intro text member
  simp only [Task.texts, Task.definition, TaskTimestamps.texts, Timestamp.texts, List.mem_append,
    Option.toList_none, List.flatMap_nil, List.not_mem_nil, or_false] at member ⊢
  tauto

/-- The texts of a task are those of its definition and those that commands write. -/
theorem mem_texts {text : String} (member : text ∈ task.texts) :
    text ∈ task.definition.texts ∨ text = task.timestamps.updatedAt.value ∨
      (∃ instant, task.timestamps.completedAt = some instant ∧ text = instant.value) ∨
      text ∈ task.freeTexts ∨
      ∃ recovery, task.recoveryState = some recovery ∧ text = recovery.attemptId := by
  simp only [Task.texts, Task.definition, TaskTimestamps.texts, Timestamp.texts,
    RecoveryState.texts, mem_freeTexts, List.mem_append, List.mem_flatMap, Option.mem_toList,
    List.mem_cons, List.not_mem_nil, or_false, Option.toList_none, List.flatMap_nil] at member ⊢
  rcases member with (((defined | timestamps) | blocked) | fenced) | accepted
  · exact .inl (.inl defined)
  · rcases timestamps with (created | updated) | completed
    · exact .inl (.inr (.inl created))
    · exact .inr (.inl updated)
    · exact .inr (.inr (.inl completed))
  · exact .inr (.inr (.inr (.inl (.inl blocked))))
  · obtain ⟨recovery, same, rfl | rfl⟩ := fenced
    · exact .inr (.inr (.inr (.inr ⟨recovery, same, rfl⟩)))
    · exact .inr (.inr (.inr (.inl (.inr (.inl ⟨recovery, same, rfl⟩)))))
  · exact .inr (.inr (.inr (.inl (.inr (.inr accepted)))))

/-- What validation asks of the texts of a task that commands write: instants and attempts. -/
theorem written_survives (valid : validateTask true task = .ok ()) {text : String}
    (member : text ∈ task.texts) :
    text ∈ task.definition.texts ∨ text ∈ task.freeTexts ∨ AllSurvive [text] := by
  simp only [validateTask, if_true, bind_unit_ok_iff] at valid
  obtain ⟨_, _, _, _, _, _, timestamps, completion, _, recovery⟩ := valid
  rcases mem_texts member with defined | rfl | ⟨instant, completed, rfl⟩ | free |
    ⟨fence, fenced, rfl⟩
  · exact .inl defined
  · rw [validateTimestamps, bind_unit_ok_iff, bind_unit_ok_iff] at timestamps
    exact .inr (.inr (Timestamp.survives timestamps.2.1))
  · rw [validateCompletion, completed] at completion
    cases status : task.status with
    | completed =>
        rw [status] at completion
        exact .inr (.inr (Timestamp.survives (bind_unit_ok_iff.mp completion).1))
    | pending => rw [status] at completion; cases completion
    | inProgress => rw [status] at completion; cases completion
    | blocked => rw [status] at completion; cases completion
    | awaitingDecision => rw [status] at completion; cases completion
  · exact .inr (.inl free)
  · rw [validateRecoveryState, fenced] at recovery
    cases status : task.status with
    | inProgress =>
        rw [status] at recovery
        have named := (bind_unit_ok_iff.mp (bind_unit_ok_iff.mp recovery).2).1
        exact .inr (.inr (survives_attemptId (ensure_ok_iff.mp named)))
    | pending => rw [status] at recovery; cases recovery
    | completed => rw [status] at recovery; cases recovery
    | blocked => rw [status] at recovery; cases recovery
    | awaitingDecision => rw [status] at recovery; cases recovery

end Texts

/-- What a command stores comes back from the file if what it is given does. -/
theorem Stores.survive {given : List String} {before after : TaskQueue}
    (stores : Stores given before after) (plain : AllSurvive before.texts)
    (argument : AllSurvive given) : AllSurvive after.texts := by
  cases stores with
  | same => exact plain
  | @advanced index task updated found advances valid =>
      have own : AllSurvive task.texts := fun text member => plain text
        (List.mem_append_right _ (List.mem_flatMap.mpr
          ⟨task, List.mem_of_getElem? found, member⟩))
      have inside := (List.getElem?_eq_some_iff.mp found).1
      have checked := ((validate_ok_iff _).mp valid).2.2.1 updated (List.mem_set inside updated)
      have fences : AllSurvive fenceReasons := by decide
      intro text member
      rcases List.mem_append.mp member with outside | member
      · exact plain text (List.mem_append_left _ outside)
      · obtain ⟨other, present, part⟩ := List.mem_flatMap.mp member
        rcases List.mem_or_eq_of_mem_set present with old | rfl
        · exact plain text (List.mem_append_right _ (List.mem_flatMap.mpr ⟨other, old, part⟩))
        · rcases written_survives checked part with defined | free | survives
          · rw [advances.definition] at defined
            exact own text (definition_texts defined)
          · rcases advances.written text free with kept | fence | new
            · exact own text (freeTexts_texts kept)
            · exact fences text fence
            · exact argument text new
          · exact survives text List.mem_cons_self

section File

variable {fromStr : String → Except String Yaml.Value} {contents : String}
  {queue : TaskQueue}

/-- The file is read as this settled queue, and every text of it comes back when it is stored. -/
structure Holds (fromStr : String → Except String Yaml.Value) (contents : String)
    (queue : TaskQueue) : Prop where
  read : parse fromStr contents = .ok queue
  settled : Settled queue
  plain : AllSurvive queue.texts

end File

/-- Nothing outside the queue stands in the way. -/
def quietEvidence : Evidence := ⟨.ok (), fun _ => .ok []⟩

/-- The start of the only task. -/
def startSingle : Call :=
  ⟨quietEvidence, "parser", ⟨"2026-01-03T00:00:00Z"⟩,
    .transition "cover-parser" .inProgress none none⟩

private theorem directDependenciesCompleted_iff {task : Task} {tasks : List Task} :
    directDependenciesCompleted task tasks = true ↔
      ∀ dependency ∈ task.dependsOn, NamesCompleted tasks dependency := by
  simp [directDependenciesCompleted, List.all_eq_true, NamesCompleted, Option.any_eq_true]

private theorem SoundDependencies.reached_earlier {tasks : List Task}
    (sound : SoundDependencies tasks) {position : Nat} {task : Task}
    (found : tasks[position]? = some task) {id : String} (reached : ReachedFrom tasks task id) :
    ∃ other ∈ tasks.take position, other.id = id := by
  obtain ⟨first, recorded, path⟩ := reached
  induction path with
  | refl => exact sound.earlier position task found first recorded
  | tail _ edge ih =>
      obtain ⟨other, inside, same⟩ := ih
      rw [namedDependencies, ← same,
        taskById_of_mem sound.unique (List.mem_of_mem_take inside), Option.elim_some] at edge
      obtain ⟨index, present⟩ := List.getElem?_of_mem inside
      have short := (List.getElem?_eq_some_iff.mp present).1
      rw [List.length_take] at short
      rw [List.getElem?_take_of_lt (by omega)] at present
      obtain ⟨next, before, named⟩ := sound.earlier index other present _ edge
      have wider : tasks.take index <+: tasks.take position :=
        List.take_prefix_take_left (by omega)
      exact ⟨next, wider.subset before, named⟩

theorem SoundDependencies.ready_of_first {tasks : List Task} (sound : SoundDependencies tasks)
    {position : Nat} {task : Task} (found : tasks[position]? = some task)
    (pending : task.status = .pending)
    (earlier : ∀ other ∈ tasks.take position, other.status = .completed) :
    taskIsReady task tasks = true := by
  have completed : ∀ id, ReachedFrom tasks task id → NamesCompleted tasks id := by
    intro id reached
    obtain ⟨other, inside, same⟩ := sound.reached_earlier found reached
    exact (namesCompleted_iff sound.unique).mpr
      ⟨other, List.mem_of_mem_take inside, same, earlier other inside⟩
  simp only [taskIsReady, Bool.and_eq_true, beq_iff_eq]
  exact ⟨⟨pending, directDependenciesCompleted_iff.mpr fun dependency recorded =>
    completed dependency ⟨dependency, recorded, .refl⟩⟩,
    transitiveDependenciesCompleted_iff.mpr completed⟩

section Readiness

variable {queue : TaskQueue}

theorem Settled.chain (settled : Settled queue) {task : Task}
    (direct : ∀ dependency ∈ task.dependsOn, NamesCompleted queue.tasks dependency) :
    ∀ id, ReachedFrom queue.tasks task id → NamesCompleted queue.tasks id := by
  intro id reached
  obtain ⟨first, recorded, path⟩ := reached
  obtain ⟨other, found, completed⟩ := direct first recorded
  rcases Relation.ReflTransGen.cases_head path with rfl | ⟨next, edge, rest⟩
  · exact ⟨other, found, completed⟩
  · rw [namedDependencies, found, Option.elim_some] at edge
    exact settled.closed other (taskById_some found).1 (.inr completed) id ⟨next, edge, rest⟩

/-- In a settled queue the walk over the whole chain adds nothing to the recorded dependencies. -/
theorem Settled.taskIsReady_iff (settled : Settled queue) {task : Task} :
    taskIsReady task queue.tasks = true ↔ task.status = .pending ∧
      ∀ dependency ∈ task.dependsOn, NamesCompleted queue.tasks dependency := by
  simp only [taskIsReady, Bool.and_eq_true, beq_iff_eq, directDependenciesCompleted_iff,
    transitiveDependenciesCompleted_iff]
  constructor
  · intro ready
    exact ready.1
  · intro ready
    exact ⟨ready, settled.chain ready.2⟩

private def listedReady (tasks : List Task) (task : Task) : Bool :=
  task.status == .pending &&
    task.dependsOn.all fun dependency =>
      tasks.any fun other => other.id == dependency && other.status == .completed

theorem Settled.taskIsReady_eq (settled : Settled queue) (task : Task) :
    taskIsReady task queue.tasks = listedReady queue.tasks task := by
  rw [Bool.eq_iff_iff, settled.taskIsReady_iff]
  simp [listedReady, namesCompleted_iff settled.sound.unique]

theorem Settled.firstReady_eq (settled : Settled queue) :
    firstReady queue.tasks = nextReadyTaskId queue.tasks := by
  have same : (fun task => taskIsReady task queue.tasks) = listedReady queue.tasks :=
    funext settled.taskIsReady_eq
  rw [firstReady, same, nextReadyTaskId, readyTaskIds, List.head?_map, List.head?_filter]
  rfl

theorem Settled.selectRunnableTask_eq (settled : Settled queue) :
    selectRunnableTask queue.tasks none = okOr (nextReadyTaskId queue.tasks)
      (.taskQueueUnavailable "no ready tasks available in the queue") := by
  rw [selectRunnableTask, Option.none_or, settled.firstReady_eq]
  cases next : nextReadyTaskId queue.tasks with
  | none => rfl
  | some taskId =>
      rw [okOr_some, ok_bind]
      rw [← settled.firstReady_eq, firstReady, Option.map_eq_some_iff] at next
      obtain ⟨task, found, rfl⟩ := next
      have member := List.mem_of_find?_eq_some found
      have ready := List.find?_some found
      have pending := (settled.taskIsReady_iff.mp ready).1
      have checked := ((validate_ok_iff queue).mp settled.valid).2.2.1 task member
      have free : task.recoveryState = none :=
        recoveryState_of_valid checked (by simp [pending])
      have named : queue.tasks.find? (fun other => other.id == task.id) = some task :=
        taskById_of_mem settled.sound.unique member
      simp [named, isRunnableTask, free, ready]

end Readiness

/-- After any commands, the two notions of readiness agree, `task next` names the task that
`task run` selects, and when no task is ready the first unfinished one is not pending. The record,
and not the text read again, is carried from command to command. -/
theorem commands_readiness {queue : TaskQueue} (valid : validate queue = .ok ())
    (pending : ∀ task ∈ queue.tasks, task.status = .pending) (calls : List Call) :
    (∀ task ∈ (performAll queue calls).tasks,
      taskIsReady task (performAll queue calls).tasks = true ↔
        task.id ∈ readyTaskIds (performAll queue calls).tasks) ∧
    selectRunnableTask (performAll queue calls).tasks none =
      okOr (nextReadyTaskId (performAll queue calls).tasks)
        (.taskQueueUnavailable "no ready tasks available in the queue") ∧
    (nextReadyTaskId (performAll queue calls).tasks = none →
      ∀ (position : Nat) (task : Task), (performAll queue calls).tasks[position]? = some task →
      (∀ other ∈ (performAll queue calls).tasks.take position, other.status = .completed) →
      task.status ≠ .pending) := by
  have settled := (settled_of_pending valid pending).performAll calls
  generalize performAll queue calls = last at settled
  have unique := settled.sound.unique
  refine ⟨fun task member => ?_, settled.selectRunnableTask_eq, ?_⟩
  · rw [settled.taskIsReady_eq]
    constructor
    · intro listed
      exact List.mem_map.mpr ⟨task, List.mem_filter.mpr ⟨member, listed⟩, rfl⟩
    · intro listed
      obtain ⟨other, kept, same⟩ := List.mem_map.mp listed
      obtain ⟨present, ready⟩ := List.mem_filter.mp kept
      rw [← List.inj_on_of_nodup_map unique present member same]
      exact ready
  · intro absent position task found earlier waiting
    have ready := settled.sound.ready_of_first found waiting earlier
    rw [← settled.firstReady_eq, firstReady, Option.map_eq_none_iff, List.find?_eq_none] at absent
    exact absent task (List.mem_of_getElem? found) ready

theorem commands_readiness_single :
    selectRunnableTask (performAll (singleTaskQueue "Cover the parser") [startSingle]).tasks none =
      okOr (nextReadyTaskId (performAll (singleTaskQueue "Cover the parser") [startSingle]).tasks)
        (.taskQueueUnavailable "no ready tasks available in the queue") :=
  (commands_readiness (singleTaskQueue_valid (by decide)) (by decide) [startSingle]).2.1

/-! ## When a transition is stored -/

section Transition

open Text

variable {queue : TaskQueue} {task : Task} {target : TaskStatus} {reason : Option String}
  {timestamp : Timestamp}

theorem locate_ok_iff (unique : (queue.tasks.map (·.id)).Nodup) {taskId : String} {index : Nat} :
    locate queue taskId = .ok (index, task) ↔
      queue.tasks[index]? = some task ∧ task.id = taskId := by
  constructor
  · exact locate_ok
  · intro present
    obtain ⟨found, rfl⟩ := present
    have searched : (queue.tasks.findIdx? fun other => other.id == task.id).isSome = true := by
      rw [List.findIdx?_isSome, List.any_eq_true]
      exact ⟨task, List.mem_of_getElem? found, by simp⟩
    obtain ⟨position, at?⟩ := Option.isSome_iff_exists.mp searched
    obtain ⟨inside, named, _⟩ := List.findIdx?_eq_some_iff_getElem.mp at?
    obtain ⟨short, here⟩ := List.getElem?_eq_some_iff.mp found
    have same : position = index := by
      have names : (queue.tasks.map (·.id))[position]? = (queue.tasks.map (·.id))[index]? := by
        simpa [inside, short, here] using named
      exact (List.getElem?_inj (by simpa using inside) unique).mp names
    subst same
    simp [locate, at?, found]

private theorem validate_name (first second : String) :
    timestamp.validate first = .ok () ↔ timestamp.validate second = .ok () := by
  simp only [Timestamp.validate, bind_unit_ok_iff, require, ensure_ok_iff]

/-- The reason that a target asks for. -/
def reasonFits (target : TaskStatus) (reason : Option String) : Prop :=
  if target.isPaused then ∃ text, reason = some text ∧ isBlank text = false else reason = none

private theorem refuseReason_ok_iff : refuseReason task target reason = .ok () ↔ reason = none := by
  simp [refuseReason]

theorem validateTransition_ok_iff {tasks : List Task} :
    validateTransition task tasks target reason = .ok () ↔
      task.status.canTransitionTo target = true ∧
      (target = .inProgress → directDependenciesCompleted task tasks = true ∧
        transitiveDependenciesCompleted task tasks = true) ∧ reasonFits target reason := by
  unfold validateTransition reasonFits
  rw [bind_unit_ok_iff, ensure_ok_iff]
  refine and_congr_right fun legal => ?_
  have paused : (ensure (reason.any fun text => !isBlank text) (transitionError task target
      "`--reason` must be nonblank when status is blocked or awaiting-decision") = .ok ()) ↔
      ∃ text, reason = some text ∧ isBlank text = false := by
    simp [Option.any_eq_true]
  cases target with
  | pending => simp [refuseReason_ok_iff, TaskStatus.isPaused]
  | blocked => simpa [TaskStatus.isPaused] using paused
  | awaitingDecision => simpa [TaskStatus.isPaused] using paused
  | completed =>
      have running := canTransitionTo_completed.mp legal
      simp [running, refuseReason_ok_iff, TaskStatus.isPaused]
  | inProgress =>
      have idle := canTransitionTo_inProgress.mp legal
      simp only [bind_unit_ok_iff, ensure_ok_iff, idle, Bool.true_and, Bool.and_eq_true,
        refuseReason_ok_iff, TaskStatus.isPaused, Bool.false_eq_true, if_false, true_imp_iff]

private theorem transitioned_definition :
    (task.transitioned target reason timestamp).definition = task.definition := rfl

private theorem transitioned_timestamps_iff (valid : validateTask true task = .ok ()) :
    validateTimestamps (task.transitioned target reason timestamp) = .ok () ↔
      timestamp.validate "timestamp" = .ok () ∧
        timestamp.before task.timestamps.createdAt = false := by
  simp only [validateTask, if_true, bind_unit_ok_iff] at valid
  obtain ⟨_, _, _, _, _, _, timestamps, _⟩ := valid
  simp only [validateTimestamps, bind_unit_ok_iff] at timestamps
  simp only [validateTimestamps, Task.transitioned, bind_unit_ok_iff, timestamps.1, true_and,
    require, ensure_ok_iff, Bool.not_eq_true']
  rw [validate_name _ "timestamp"]

private theorem transitioned_completion (real : timestamp.validate "timestamp" = .ok ()) :
    validateCompletion (task.transitioned target reason timestamp) = .ok () := by
  have irreflexive : timestamp.before timestamp = false := by simp [Timestamp.before]
  cases target with
  | completed =>
      simp only [validateCompletion, Task.transitioned, beq_self_eq_true, if_true,
        bind_unit_ok_iff, require, ensure_ok_iff, irreflexive, Bool.not_false, and_true]
      exact (validate_name _ _).mp real
  | pending => rfl
  | inProgress => rfl
  | blocked => rfl
  | awaitingDecision => rfl

private theorem transitioned_blockedReason (fits : reasonFits target reason) :
    validateBlockedReason (task.transitioned target reason timestamp) = .ok () := by
  unfold reasonFits at fits
  cases paused : target.isPaused with
  | false => simp [validateBlockedReason, Task.transitioned, paused]
  | true =>
      rw [paused, if_pos rfl] at fits
      obtain ⟨text, rfl, solid⟩ := fits
      simp [validateBlockedReason, Task.transitioned, paused, require, solid]

/-- A fence survives no transition: only a task in progress may carry one. -/
private theorem transitioned_recoveryState_iff (valid : validateTask true task = .ok ())
    (legal : task.status.canTransitionTo target = true) :
    validateRecoveryState (task.transitioned target reason timestamp) = .ok () ↔
      task.recoveryState = none := by
  constructor
  · intro checked
    by_cases running : task.status = .inProgress
    · have moved : (task.transitioned target reason timestamp).status ≠ .inProgress := by
        intro starting
        rw [running, show target = .inProgress from starting] at legal
        cases legal
      have absent := recoveryState_of_checked checked moved
      exact absent
    · exact recoveryState_of_valid valid running
  · intro absent
    simp only [validateRecoveryState, Task.transitioned, absent]

private theorem transitioned_valid_iff (valid : validateTask true task = .ok ())
    (legal : task.status.canTransitionTo target = true) (fits : reasonFits target reason) :
    validateTask true (task.transitioned target reason timestamp) = .ok () ↔
      timestamp.validate "timestamp" = .ok () ∧
        timestamp.before task.timestamps.createdAt = false ∧ task.recoveryState = none := by
  have remaining : validateTask true (task.transitioned target reason timestamp) = .ok () ↔
      validateTimestamps (task.transitioned target reason timestamp) = .ok () ∧
      validateCompletion (task.transitioned target reason timestamp) = .ok () ∧
      validateBlockedReason (task.transitioned target reason timestamp) = .ok () ∧
      validateRecoveryState (task.transitioned target reason timestamp) = .ok () := by
    simp only [validateTask, if_true, bind_unit_ok_iff] at valid ⊢
    obtain ⟨id, title, texts, dependencies, requirements, each, _⟩ := valid
    constructor
    · intro all
      exact all.2.2.2.2.2.2
    · intro rest
      exact ⟨id, title, texts, dependencies, requirements, each, rest⟩
  rw [remaining, transitioned_timestamps_iff valid, transitioned_recoveryState_iff valid legal]
  constructor
  · intro all
    exact ⟨all.1.1, all.1.2, all.2.2.2⟩
  · intro all
    exact ⟨⟨all.1, all.2.1⟩, transitioned_completion all.1, transitioned_blockedReason fits, all.2.2⟩

theorem storeTask_ok_iff (valid : validate queue = .ok ()) {index : Nat} {updated : Task}
    (found : queue.tasks[index]? = some task) (same : updated.definition = task.definition)
    {next : TaskQueue} :
    storeTask queue index updated = .ok next ↔
      validateTask true updated = .ok () ∧
        next = { queue with tasks := queue.tasks.set index updated } := by
  constructor
  · intro accepted
    obtain ⟨rfl, checked⟩ := storeTask_ok accepted
    have inside := (List.getElem?_eq_some_iff.mp found).1
    exact ⟨((validate_ok_iff _).mp checked).2.2.1 updated (List.mem_set inside updated), rfl⟩
  · intro accepted
    obtain ⟨checked, rfl⟩ := accepted
    obtain ⟨version, component, each, sound⟩ := (validate_ok_iff queue).mp valid
    have definitions := set_definitions found same
    have kept : validate { queue with tasks := queue.tasks.set index updated } = .ok () := by
      refine (validate_ok_iff _).mpr ⟨version, component, fun other member => ?_, ?_⟩
      · rcases List.mem_or_eq_of_mem_set member with old | rfl
        · exact each other old
        · exact checked
      · rw [← soundDependencies_definitions, definitions, soundDependencies_definitions]
        exact sound
    simp only [storeTask, serialize_of_validate kept]

/-- `transition_locked` stores a queue exactly when the attempts of the component are recovered, the
task is there and free of a fence, the move is in the table, what is started is ready, the reason
fits the target, and the clock gives an instant that is not before the task was created. It stores
the queue with that task moved. -/
theorem transitionLocked_ok_iff (valid : validate queue = .ok ()) {evidence : Evidence}
    {component taskId : String} {permitted : Option String} {next : TaskQueue} :
    transitionLocked evidence component queue taskId target reason timestamp permitted =
        .ok next ↔
      ensureComponentAttemptsRecoveredExcept evidence component queue.tasks
        (permitted.map fun attemptId => (taskId, attemptId)) = .ok () ∧
      ∃ (position : Nat) (task : Task), queue.tasks[position]? = some task ∧ task.id = taskId ∧
        task.status.canTransitionTo target = true ∧
        (target = .inProgress → ∀ id, ReachedFrom queue.tasks task id →
          NamesCompleted queue.tasks id) ∧
        reasonFits target reason ∧ timestamp.validate "timestamp" = .ok () ∧
        timestamp.before task.timestamps.createdAt = false ∧ task.recoveryState = none ∧
        next = { queue with
          tasks := queue.tasks.set position (task.transitioned target reason timestamp) } := by
  have unique := ((validate_ok_iff queue).mp valid).2.2.2.unique
  have each := ((validate_ok_iff queue).mp valid).2.2.1
  unfold transitionLocked
  rw [bind_unit_ok_iff]
  refine and_congr_right fun _ => ?_
  constructor
  · intro accepted
    obtain ⟨⟨position, task⟩, located, accepted⟩ := bind_ok_iff.mp accepted
    obtain ⟨allowed, accepted⟩ := bind_unit_ok_iff.mp accepted
    obtain ⟨found, named⟩ := locate_ok located
    obtain ⟨legal, ready, fits⟩ := validateTransition_ok_iff.mp allowed
    obtain ⟨checked, rfl⟩ := (storeTask_ok_iff valid found transitioned_definition).mp accepted
    obtain ⟨real, later, free⟩ := (transitioned_valid_iff
      (each task (List.mem_of_getElem? found)) legal fits).mp checked
    exact ⟨position, task, found, named, legal,
      fun starting => transitiveDependenciesCompleted_iff.mp (ready starting).2, fits, real, later,
      free, rfl⟩
  · intro present
    obtain ⟨position, task, found, named, legal, ready, fits, real, later, free, rfl⟩ := present
    have allowed : validateTransition task queue.tasks target reason = .ok () := by
      refine validateTransition_ok_iff.mpr ⟨legal, fun starting => ⟨?_, ?_⟩, fits⟩
      · exact directDependenciesCompleted_iff.mpr fun dependency recorded =>
          ready starting dependency ⟨dependency, recorded, .refl⟩
      · exact transitiveDependenciesCompleted_iff.mpr (ready starting)
    have checked := (transitioned_valid_iff (each task (List.mem_of_getElem? found)) legal
      fits).mpr ⟨real, later, free⟩
    rw [(locate_ok_iff unique).mpr ⟨found, named⟩, ok_bind, bind_unit_ok_iff]
    exact ⟨allowed, (storeTask_ok_iff valid found transitioned_definition).mpr ⟨checked, rfl⟩⟩

theorem transitionLocked_stores_single :
    transitionLocked quietEvidence "parser" (singleTaskQueue "Cover the parser") "cover-parser"
        .inProgress none ⟨"2026-01-03T00:00:00Z"⟩ none =
      .ok { singleTaskQueue "Cover the parser" with
        tasks := (singleTaskQueue "Cover the parser").tasks.map fun task =>
          task.transitioned .inProgress none ⟨"2026-01-03T00:00:00Z"⟩ } := by
  refine (transitionLocked_ok_iff (singleTaskQueue_valid (by decide))).mpr
    ⟨rfl, 0, _, rfl, rfl, rfl, ?_, by simp [reasonFits, TaskStatus.isPaused], by decide, by decide,
      rfl, rfl⟩
  intro _ id reached
  obtain ⟨first, member, _⟩ := reached
  cases member

end Transition

end Kvist.Queue
