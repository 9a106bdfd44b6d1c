import Kvist.Decision.Tasks
import Kvist.TaskQueue.ValidQueue

/-!
# What a draft does to the queue

Every edit leaves a task that is completed or in progress as it is, and gives no task such a status.
The tasks that are retired are the least set that holds the selected one and is closed under
dependants.
-/

set_option autoImplicit false

namespace Kvist.Decision

open Json Queue

variable {context : TaskContext} {selected : String} {instant : Timestamp}
  {tasks : List Task} {edited next : Edited}

theorem selectTask_ok {queue : TaskQueue} {chosen : Option String} {task : Task}
    (picked : selectTask context queue chosen = .ok task) :
    task ∈ queue.tasks ∧ (task.status = .awaitingDecision ∨ task.status = .blocked) := by
  have fromPaused : ∀ {other : Task}, (other ∈ queue.tasks.filter fun task =>
      task.status == .awaitingDecision || task.status == .blocked) →
      other ∈ queue.tasks ∧ (other.status = .awaitingDecision ∨ other.status = .blocked) := by
    intro other member
    simpa using member
  unfold selectTask at picked
  cases chosen with
  | some id => exact fromPaused (taskById_some (okOr_ok_iff.mp picked)).1
  | none =>
      dsimp only at picked
      split at picked
      · cases ‹none = some _›
      · rename_i only
        rw [Except.ok.injEq] at picked
        exact fromPaused (by rw [only, picked]; exact List.mem_singleton_self _)
      · cases picked

/-! ## One edit -/

/-- The statuses that only a run of the task gives. -/
def Settled (task : Task) : Prop := task.status = .completed ∨ task.status = .inProgress

/-- What every edit keeps of a task. -/
def Held (before after : Task) : Prop :=
  after.id = before.id ∧ (Settled before ∨ Settled after → after = before)

theorem Held.refl (task : Task) : Held task task := ⟨rfl, fun _ => rfl⟩

theorem Held.change {before after : Task} {change : Task → Task} (held : Held before after)
    (open_ : ¬ Settled after) (same : (change after).id = after.id)
    (stillOpen : ¬ Settled (change after)) : Held before (change after) := by
  refine ⟨same.trans held.1, ?_⟩
  rintro (settled | settled)
  · have equal := held.2 (.inl settled)
    exact absurd (equal ▸ settled) open_
  · exact absurd settled stillOpen

theorem held_modify {change : Task → Task} {before after : List Task} {place : Nat}
    (held : List.Forall₂ Held before after)
    (changed : ∀ task, after[place]? = some task →
      ¬ Settled task ∧ (change task).id = task.id ∧ ¬ Settled (change task)) :
    List.Forall₂ Held before (after.modify place change) := by
  induction held generalizing place with
  | nil => rw [List.modify_nil]; exact .nil
  | cons first rest ih =>
      cases place with
      | zero =>
          obtain ⟨open_, same, stillOpen⟩ := changed _ rfl
          exact .cons (first.change open_ same stillOpen) rest
      | succ place => exact .cons first (ih fun task found => changed task found)

theorem editable_ok {task : Task} {path : PathBytes}
    (accepted : editable task selected path = .ok ()) : ¬ Settled task := by
  rw [editable, ensure_ok_iff, Bool.and_eq_true] at accepted
  rintro (status | status) <;> simp [status] at accepted

theorem taskById_findIdx {id : String} {task : Task} (found : taskById tasks id = some task) :
    tasks[tasks.findIdx (·.id == id)]? = some task := by
  rw [taskById, List.find?_eq_some_iff_getElem] at found
  obtain ⟨same, place, small, here, before⟩ := found
  have first : tasks.findIdx (·.id == id) = place := by
    rw [List.findIdx_eq small]
    exact ⟨by rw [here]; exact same, fun other earlier => by simpa using before other earlier⟩
  rw [first, List.getElem?_eq_getElem small, here]

theorem applyEdit_ok {edit : TaskEdit}
    (accepted : applyEdit context selected instant edited edit = .ok next) :
    (∃ definition, edit = .add definition ∧ (∀ task ∈ edited.tasks, task.id ≠ definition.id) ∧
      next = { edited with
        seen := insert edit.id edited.seen
        additions := edited.additions ++ [newTask definition instant] }) ∨
    (∃ definition place task, edit = .update definition ∧ edited.tasks[place]? = some task ∧
      ¬ Settled task ∧
      next = { edited with
        seen := insert edit.id edited.seen
        tasks := edited.tasks.modify place (updateTask definition instant) }) ∨
    ∃ id reason task, edit = .retire id reason ∧ task ∈ edited.tasks ∧ task.id = id ∧
      ¬ Settled task ∧
      next = { edited with
        seen := insert edit.id edited.seen
        retirements := edited.retirements.insert id reason } := by
  rw [applyEdit, bind_unit_ok_iff] at accepted
  obtain ⟨-, accepted⟩ := accepted
  cases edit with
  | add definition =>
      simp only [bind_ok_iff, ensure_eq_ok_iff, exists_const, pure_eq_ok, Except.ok.injEq]
        at accepted
      obtain ⟨fresh, rfl⟩ := accepted
      refine .inl ⟨definition, rfl, ?_, rfl⟩
      simpa using fresh
  | update definition =>
      simp only [bind_ok_iff, okOr_ok_iff, pure_eq_ok, Except.ok.injEq] at accepted
      obtain ⟨task, found, ⟨⟩, allowed, rfl⟩ := accepted
      exact .inr (.inl ⟨definition, _, task, rfl, taskById_findIdx found, editable_ok allowed, rfl⟩)
  | retire id reason =>
      simp only [bind_ok_iff, okOr_ok_iff, ensure_eq_ok_iff, exists_const, pure_eq_ok,
        Except.ok.injEq, Bool.and_eq_true, bne_iff_ne] at accepted
      obtain ⟨task, found, ⟨⟨⟨⟨-, notCompleted⟩, notRunning⟩, -⟩, -⟩, rfl⟩ := accepted
      obtain ⟨member, same⟩ := taskById_some found
      refine .inr (.inr ⟨id, reason, task, rfl, member, same, ?_, rfl⟩)
      rintro (status | status)
      · exact notCompleted status
      · exact notRunning status

/-! ## All edits -/

/-- What holds of the edits so far, whatever they are. -/
structure SoundEdits (tasks : List Task) (edited : Edited) : Prop where
  held : List.Forall₂ Held tasks edited.tasks
  fresh : ∀ task ∈ edited.additions, task.status = .pending ∧ ∀ other ∈ tasks, other.id ≠ task.id
  retirable : ∀ id ∈ edited.retirements.keys, ∃ task ∈ tasks, task.id = id ∧ ¬ Settled task

theorem Held.before {before after : List Task} (held : List.Forall₂ Held before after) {task : Task}
    (member : task ∈ after) : ∃ other ∈ before, Held other task := by
  obtain ⟨place, found⟩ := List.getElem?_of_mem member
  obtain ⟨small, here⟩ := List.getElem?_eq_some_iff.mp found
  have paired := (List.forall₂_iff_get.mp held).2 place (held.length_eq ▸ small) small
  rw [List.get_eq_getElem, List.get_eq_getElem, here] at paired
  exact ⟨_, List.getElem_mem _, paired⟩

theorem Held.after {before after : List Task} (held : List.Forall₂ Held before after) {place : Nat}
    {task : Task} (found : before[place]? = some task) :
    ∃ other, after[place]? = some other ∧ Held task other := by
  obtain ⟨small, here⟩ := List.getElem?_eq_some_iff.mp found
  have inside : place < after.length := held.length_eq ▸ small
  have paired := (List.forall₂_iff_get.mp held).2 place small inside
  rw [List.get_eq_getElem, List.get_eq_getElem, here] at paired
  exact ⟨_, List.getElem?_eq_getElem inside, paired⟩

theorem SoundEdits.applyEdit {edit : TaskEdit} (sound : SoundEdits tasks edited)
    (accepted : Decision.applyEdit context selected instant edited edit = .ok next) :
    SoundEdits tasks next := by
  rcases applyEdit_ok accepted with ⟨definition, rfl, fresh, rfl⟩ |
    ⟨definition, place, task, rfl, found, open_, rfl⟩ |
    ⟨id, reason, task, rfl, member, same, open_, rfl⟩
  · refine ⟨sound.held, fun task member => ?_, sound.retirable⟩
    rcases List.mem_append.mp member with earlier | last
    · exact sound.fresh task earlier
    · rw [List.mem_singleton.mp last]
      refine ⟨rfl, fun other present same => ?_⟩
      obtain ⟨place, there⟩ := List.getElem?_of_mem present
      obtain ⟨kept, foundKept, held⟩ := Held.after sound.held there
      exact fresh kept (List.mem_of_getElem? foundKept) (held.1.trans same)
  · refine ⟨held_modify sound.held fun other there => ?_, sound.fresh, sound.retirable⟩
    rw [found, Option.some.injEq] at there
    exact there ▸ ⟨open_, rfl, open_⟩
  · refine ⟨sound.held, sound.fresh, fun other present => ?_⟩
    rcases OrderedMap.mem_keys_insert.mp present with rfl | earlier
    · obtain ⟨original, there, held⟩ := Held.before sound.held member
      refine ⟨original, there, held.1.symm.trans same, fun settled => open_ ?_⟩
      exact held.2 (.inl settled) ▸ settled
    · exact sound.retirable other earlier

theorem applyEdits_sound {edits : List TaskEdit}
    (accepted : applyEdits context selected instant tasks edits = .ok edited) :
    SoundEdits tasks edited := by
  refine foldlM_ok_invariant (fun _ state => SoundEdits tasks state)
    (fun _ _ _ _ _ _ sound step => sound.applyEdit step) ?_ accepted
  exact ⟨List.forall₂_same.mpr fun task _ => Held.refl task, fun _ member => (nomatch member),
    fun _ member => (nomatch member)⟩

theorem applyEdits_added {edits : List TaskEdit}
    (accepted : applyEdits context selected instant tasks edits = .ok edited) :
    ∀ definition, .add definition ∈ edits → newTask definition instant ∈ edited.additions := by
  refine foldlM_ok_invariant
    (fun consumed state => ∀ definition, .add definition ∈ consumed →
      newTask definition instant ∈ state.additions) ?_ (fun _ member => nomatch member) accepted
  intro consumed edit rest state next _ added step definition member
  rcases applyEdit_ok step with ⟨last, rfl, _, rfl⟩ | ⟨_, _, _, rfl, _, _, rfl⟩ |
    ⟨_, _, _, rfl, _, _, _, rfl⟩
  · rcases List.mem_append.mp member with earlier | last
    · exact List.mem_append_left _ (added definition earlier)
    · cases List.mem_singleton.mp last
      exact List.mem_append_right _ (List.mem_singleton_self _)
  · exact added definition (by simpa using member)
  · exact added definition (by simpa using member)

/-! ## The disposition -/

theorem dispose_held {input : Capture} {disposition : Disposition} {place : Nat}
    {disposed retired : List Task} {paused : Task}
    (sound : SoundEdits input.queue.tasks edited)
    (chosen : input.queue.tasks[place]? = some paused) (open_ : ¬ Settled paused)
    (accepted : dispose context input disposition place instant edited = .ok (disposed, retired)) :
    List.Forall₂ Held input.queue.tasks disposed := by
  cases disposition with
  | resolve =>
      simp only [dispose, bind_ok_iff, ensure_eq_ok_iff, exists_const, pure_eq_ok,
        Except.ok.injEq, Prod.mk.injEq] at accepted
      obtain ⟨-, rfl, -⟩ := accepted
      refine held_modify sound.held fun task found => ⟨?_, rfl, ?_⟩
      · obtain ⟨other, there, held⟩ := Held.after sound.held chosen
        rw [found, Option.some.injEq] at there
        rw [there]
        exact fun settled => open_ (held.2 (.inr settled) ▸ settled)
      · rintro (status | status) <;> cases status
  | withdraw =>
      simp only [dispose, bind_ok_iff, ensure_eq_ok_iff, exists_const, pure_eq_ok,
        Except.ok.injEq, Prod.mk.injEq] at accepted
      obtain ⟨-, rfl, -⟩ := accepted
      exact sound.held

theorem mem_rescheduled {place : Nat} {task : Task} :
    task ∈ rescheduled tasks place edited ↔
      (task ∈ tasks ∨ task ∈ edited.additions) ∧ task.id ∉ edited.retirements.keys := by
  have whole : task ∈ tasks.take place ++ edited.additions ++ tasks.drop place ↔
      task ∈ tasks ∨ task ∈ edited.additions := by
    conv_rhs => rw [← List.take_append_drop place tasks]
    simp only [List.mem_append]
    tauto
  rw [rescheduled, List.mem_filter, whole, ← OrderedMap.get_isSome_iff]
  simp

/-- Every task that depends on one of the identities has one of them too. -/
def ClosedUnderDependants (tasks : List Task) (ids : Set String) : Prop :=
  ∀ task ∈ tasks, (∃ dependency ∈ task.dependsOn, dependency ∈ ids) → task.id ∈ ids

theorem dependants_isLeast (tasks : List Task) (selected : String) :
    IsLeast {ids | selected ∈ ids ∧ ClosedUnderDependants tasks ids}
      ↑(dependants tasks selected) := by
  have least := @Closure.closure_isLeast _ _ (tasks.map fun task => (task.id, task.dependsOn))
    {selected}
  simpa [Closure.Closed, ClosedUnderDependants, dependants] using least

/-! ## The whole change -/

theorem outputs_ok {around : IntentSources} {input : Capture} {draft : Draft} {changes : Changes}
    (accepted : outputs around context input draft instant = .ok changes) :
    ∃ place edited disposed queue,
      input.queue.tasks.findIdx? (·.id == input.task.id) = some place ∧
      applyEdits context input.task.id instant input.queue.tasks draft.tasks = .ok edited ∧
      dispose context input draft.disposition place instant edited =
        .ok (disposed, changes.retired) ∧
      queue.tasks = rescheduled disposed place edited ∧ validate queue = .ok () ∧
      changes.after input todosName = some (canonicalText queue) ∧
      changes.retirementReasons = edited.retirements := by
  simp only [outputs, bind_ok_iff, ensure_eq_ok_iff, exists_const, okOr_ok_iff, pure_eq_ok,
    Except.ok.injEq] at accepted
  obtain ⟨-, ⟨⟩, -, documents, -, place, found, edited, edits, ⟨disposed, retired⟩, disposition,
    parent, -, text, serialized, ⟨⟩, -, rfl⟩ := accepted
  refine ⟨place, edited, disposed, { input.queue with
    tasks := rescheduled disposed place edited
    component := revisedComponent around input.queue.component documents parent instant },
    found, edits, disposition, rfl, ?_⟩
  unfold serializeQueue at serialized
  split at serialized
  · rename_i whole written
    rw [Except.ok.injEq] at serialized
    obtain ⟨valid, canonical⟩ := serialize_ok_iff.mp written
    refine ⟨valid, ?_, rfl⟩
    rw [Changes.after, OrderedMap.get_retain, OrderedMap.get_insert_same, ← canonical, serialized,
      Option.filter_some]
    -- A text that stays as it is is left out, and is the one captured.
    by_cases same : input.files.get todosName = some text
    · simp [same]
    · simp [same]
  · cases serialized

/-- The old tasks stay in the new queue, where they are not retired. -/
theorem kept_of_held {place : Nat} {disposed : List Task} {task : Task}
    (held : List.Forall₂ Held tasks disposed) (member : task ∈ tasks)
    (staying : task.id ∉ edited.retirements.keys) :
    ∃ kept ∈ rescheduled disposed place edited, Held task kept := by
  obtain ⟨there, found⟩ := List.getElem?_of_mem member
  obtain ⟨kept, foundKept, heldKept⟩ := Held.after held found
  refine ⟨kept, mem_rescheduled.mpr ⟨.inl (List.mem_of_getElem? foundKept), ?_⟩, heldKept⟩
  rwa [heldKept.1]

theorem settled_kept {place : Nat} {disposed : List Task} {task : Task}
    (unique : (tasks.map (·.id)).Nodup) (sound : SoundEdits tasks edited)
    (held : List.Forall₂ Held tasks disposed) (member : task ∈ tasks) (settled : Settled task) :
    task ∈ rescheduled disposed place edited := by
  have staying : task.id ∉ edited.retirements.keys := by
    intro retired
    obtain ⟨other, present, same, open_⟩ := sound.retirable task.id retired
    rw [List.inj_on_of_nodup_map unique present member same] at open_
    exact open_ settled
  obtain ⟨kept, present, heldKept⟩ := @kept_of_held _ _ place _ _ held member staying
  exact heldKept.2 (.inl settled) ▸ present

theorem settled_old {place : Nat} {disposed : List Task} {task : Task}
    (sound : SoundEdits tasks edited) (held : List.Forall₂ Held tasks disposed)
    (member : task ∈ rescheduled disposed place edited) (settled : Settled task) :
    task ∈ tasks := by
  rcases (mem_rescheduled.mp member).1 with old | added
  · obtain ⟨original, present, heldTask⟩ := Held.before held old
    exact heldTask.2 (.inr settled) ▸ present
  · have pending := (sound.fresh task added).1
    rcases settled with status | status <;> cases status.symm.trans pending

/-- The identities that go are the retired ones. -/
theorem gone_iff {place : Nat} {disposed : List Task} {id : String}
    (held : List.Forall₂ Held tasks disposed) (present : id ∈ tasks.map (·.id)) :
    id ∉ (rescheduled disposed place edited).map (·.id) ↔ id ∈ edited.retirements.keys := by
  constructor
  · intro gone
    by_contra staying
    obtain ⟨task, member, rfl⟩ := List.mem_map.mp present
    obtain ⟨kept, there, heldKept⟩ := @kept_of_held _ _ place _ _ held member staying
    exact gone (List.mem_map.mpr ⟨kept, there, heldKept.1⟩)
  · intro retired there
    obtain ⟨kept, member, rfl⟩ := List.mem_map.mp there
    exact (mem_rescheduled.mp member).2 retired

theorem selected_place {place : Nat} {task : Task} (unique : (tasks.map (·.id)).Nodup)
    (member : task ∈ tasks) (found : tasks.findIdx? (·.id == task.id) = some place) :
    tasks[place]? = some task := by
  obtain ⟨small, same, -⟩ := List.findIdx?_eq_some_iff_getElem.mp found
  rw [List.getElem?_eq_getElem small, Option.some.injEq]
  exact List.inj_on_of_nodup_map unique (List.getElem_mem small) member (by simpa using same)

/-- Resolving keeps every task, and puts the selected one behind all that is added. -/
theorem resolved {input : Capture} {place : Nat} {disposed retired : List Task}
    {edits : List TaskEdit} (sound : SoundEdits input.queue.tasks edited)
    (applied : applyEdits context input.task.id instant input.queue.tasks edits = .ok edited)
    (chosen : input.queue.tasks[place]? = some input.task)
    (held : List.Forall₂ Held input.queue.tasks disposed)
    (accepted : dispose context input .resolve place instant edited = .ok (disposed, retired)) :
    retired = [] ∧
    (∀ task ∈ input.queue.tasks, ∃ kept ∈ rescheduled disposed place edited, kept.id = task.id) ∧
    ∃ task ∈ rescheduled disposed place edited, task.id = input.task.id ∧ task.status = .pending ∧
      ∀ definition, .add definition ∈ edits → definition.id ∈ task.dependsOn := by
  simp only [dispose, bind_ok_iff, ensure_eq_ok_iff, exists_const, pure_eq_ok,
    Except.ok.injEq, Prod.mk.injEq] at accepted
  obtain ⟨nothing, rfl, rfl⟩ := accepted
  have staying : ∀ id, id ∉ edited.retirements.keys := by
    intro id
    rw [List.isEmpty_iff.mp nothing]
    exact List.not_mem_nil
  refine ⟨rfl, fun task member => ?_, ?_⟩
  · obtain ⟨kept, present, heldKept⟩ := @kept_of_held _ _ place _ _ held member (staying _)
    exact ⟨kept, present, heldKept.1⟩
  · obtain ⟨task, found, heldTask⟩ := Held.after sound.held chosen
    refine ⟨resolveTask edited.additions instant task, mem_rescheduled.mpr ⟨.inl ?_, staying _⟩,
      heldTask.1, rfl, fun definition member => ?_⟩
    · refine @List.mem_of_getElem? _ _ place _ ?_
      rw [List.getElem?_modify_eq, found]
      rfl
    · rw [resolveTask, mem_sortUnique]
      refine List.mem_append_right _ (List.mem_map.mpr ?_)
      exact ⟨_, applyEdits_added applied definition member, rfl⟩

theorem withdrawn {input : Capture} {place : Nat} {disposed retired : List Task}
    (sound : SoundEdits input.queue.tasks edited)
    (held : List.Forall₂ Held input.queue.tasks disposed)
    (accepted : dispose context input .withdraw place instant edited = .ok (disposed, retired)) :
    IsLeast {ids | input.task.id ∈ ids ∧ ClosedUnderDependants input.queue.tasks ids}
      {id | id ∈ input.queue.tasks.map (·.id) ∧
        id ∉ (rescheduled disposed place edited).map (·.id)} ∧
    retired = input.queue.tasks.filter
      (fun task => task.id ∉ (rescheduled disposed place edited).map (·.id)) ∧
    ∀ id, id ∈ edited.retirements.keys ↔ id ∈ retired.map (·.id) := by
  simp only [dispose, bind_ok_iff, ensure_eq_ok_iff, exists_const, pure_eq_ok,
    Except.ok.injEq, Prod.mk.injEq, decide_eq_true_eq] at accepted
  obtain ⟨closure, -, rfl⟩ := accepted
  have mem_closure : ∀ id, id ∈ dependants input.queue.tasks input.task.id ↔
      id ∈ edited.retirements.keys := fun id => by rw [closure, List.mem_toFinset]
  have known : ∀ id ∈ edited.retirements.keys, id ∈ input.queue.tasks.map (·.id) := by
    intro id retired
    obtain ⟨task, member, same, -⟩ := sound.retirable id retired
    exact List.mem_map.mpr ⟨task, member, same⟩
  refine ⟨?_, ?_, ?_⟩
  · have least := dependants_isLeast input.queue.tasks input.task.id
    convert least using 1
    ext id
    rw [Finset.mem_coe, mem_closure]
    exact ⟨fun ⟨present, gone⟩ => (gone_iff held present).mp gone,
      fun retired => ⟨known id retired, (gone_iff held (known id retired)).mpr retired⟩⟩
  · refine List.filter_congr fun task member => ?_
    rw [decide_eq_decide, mem_closure, gone_iff held (List.mem_map.mpr ⟨task, member, rfl⟩)]
  · intro id
    rw [List.mem_map]
    constructor
    · intro retired
      obtain ⟨task, member, rfl, -⟩ := sound.retirable id retired
      exact ⟨task, List.mem_filter.mpr ⟨member, decide_eq_true ((mem_closure _).mpr retired)⟩, rfl⟩
    · rintro ⟨task, member, rfl⟩
      exact (mem_closure _).mp (of_decide_eq_true (List.mem_filter.mp member).2)

/-- An accepted change leads to a valid queue. It keeps what is completed, starts and completes
nothing, and either resolves the selected task or retires it with all that depends on it. -/
theorem outputs_exact {around : IntentSources} {input : Capture} {draft : Draft} {changes : Changes}
    {chosen : Option String} (valid : validate input.queue = .ok ())
    (picked : selectTask context input.queue chosen = .ok input.task)
    (accepted : outputs around context input draft instant = .ok changes) :
    ∃ queue, changes.after input todosName = some (canonicalText queue) ∧
      validate queue = .ok () ∧
      (∀ task ∈ input.queue.tasks, task.status = .completed → task ∈ queue.tasks) ∧
      (∀ task ∈ queue.tasks, task.status = .completed ∨ task.status = .inProgress →
        task ∈ input.queue.tasks) ∧
      (draft.disposition = .resolve →
        changes.retired = [] ∧
        (∀ task ∈ input.queue.tasks, ∃ kept ∈ queue.tasks, kept.id = task.id) ∧
        ∃ task ∈ queue.tasks, task.id = input.task.id ∧ task.status = .pending ∧
          ∀ definition, .add definition ∈ draft.tasks → definition.id ∈ task.dependsOn) ∧
      (draft.disposition = .withdraw →
        IsLeast {ids | input.task.id ∈ ids ∧ ClosedUnderDependants input.queue.tasks ids}
          {id | id ∈ input.queue.tasks.map (·.id) ∧ id ∉ queue.tasks.map (·.id)} ∧
        changes.retired =
          input.queue.tasks.filter (fun task => task.id ∉ queue.tasks.map (·.id)) ∧
        ∀ id, id ∈ changes.retirementReasons.keys ↔ id ∈ changes.retired.map (·.id)) ∧
      ∀ task ∈ queue.tasks, ∀ dependency ∈ task.dependsOn,
        ∃ other ∈ queue.tasks, other.id = dependency := by
  obtain ⟨place, edited, disposed, queue, found, edits, disposition, rescheduling, validNew, after,
    reasons⟩ := outputs_ok accepted
  obtain ⟨member, status⟩ := selectTask_ok picked
  have unique := ((validate_ok_iff _).mp valid).2.2.2.unique
  have open_ : ¬ Settled input.task := by
    rintro (settled | settled) <;> rcases status with status | status <;>
      cases settled.symm.trans status
  have sound := applyEdits_sound edits
  have chosenPlace := selected_place unique member found
  have held := dispose_held sound chosenPlace open_ disposition
  refine ⟨queue, after, validNew, ?_, ?_, ?_, ?_, ?_⟩
  · intro task present completed
    rw [rescheduling]
    exact settled_kept unique sound held present (.inl completed)
  · intro task present settled
    rw [rescheduling] at present
    exact settled_old sound held present settled
  · intro resolving
    rw [resolving] at disposition
    rw [rescheduling]
    exact resolved sound edits chosenPlace held disposition
  · intro withdrawing
    rw [withdrawing] at disposition
    rw [rescheduling, reasons]
    exact withdrawn sound held disposition
  · intro task present dependency recorded
    obtain ⟨position, there⟩ := List.getElem?_of_mem present
    obtain ⟨other, earlier, same⟩ :=
      ((validate_ok_iff _).mp validNew).2.2.2.earlier position task there dependency recorded
    exact ⟨other, List.mem_of_mem_take earlier, same⟩

/-! ## A run -/

def shortDocument (marker : String) (sections : List String) : String :=
  "<!-- " ++ marker ++ ": 1 -->\n" ++
    String.join (sections.map fun heading => "## " ++ heading ++ "\n\nSettled.\n")

def shortRequirements : String :=
  shortDocument "kvist-requirements-version" ["Purpose and scope", "Stakeholders and concerns",
    "Functional requirements", "Quality requirements and constraints",
    "Acceptance and traceability"]

def shortContract : String :=
  shortDocument "kvist-contract-version" ["Boundary and ownership", "Provided interfaces",
    "Required interfaces", "Data and schemas", "Behavioral guarantees",
    "Errors and failure semantics", "Security and authority", "Compatibility and verification"]

def shortDesign : String :=
  shortDocument "kvist-design-version" ["Design overview", "Internal structure",
    "Interactions and state", "Algorithms and decisions", "Failure and recovery",
    "Security and resource design", "Verification strategy"]

def pausedTask : Task where
  id := "split"
  title := "Split"
  description := "Split."
  context := "None."
  purpose := "Size."
  expectedOutcome := "Split."
  kind := .test
  status := .blocked
  dependsOn := []
  requirements := ["REQUIREMENTS.md#a"]
  timestamps :=
    { createdAt := ⟨"2026-01-02T03:04:05Z"⟩, updatedAt := ⟨"2026-01-02T03:04:05Z"⟩
      completedAt := none, recovered := false }
  blockedReason := some "How?"
  recoveryState := none
  acceptanceId := none
  disposition := none

def pausedQueue : TaskQueue where
  schemaVersion := 1
  component :=
    { requirementsRevision :=
        "sha256:0000000000000000000000000000000000000000000000000000000000000000"
      contractRevision :=
        "sha256:1111111111111111111111111111111111111111111111111111111111111111"
      designRevision :=
        "sha256:2222222222222222222222222222222222222222222222222222222222222222"
      parentContract := none
      revalidation :=
        { state := .current, checkedAt := ⟨"2026-01-02T03:04:05Z"⟩, staleSince := none
          causes := [] } }
  tasks := [pausedTask]

def pausedFiles : Texts :=
  (((OrderedMap.empty.insert "REQUIREMENTS.md" shortRequirements).insert "CONTRACT.md"
    shortContract).insert "DESIGN.md" shortDesign).insert todosName (canonicalText pausedQueue)

def pausedCapture : Capture where
  schemaVersion := 1
  component := bytesOf "."
  task := pausedTask
  queue := pausedQueue
  files := pausedFiles
  bindings := OrderedMap.empty

def firstPart : TaskDefinition where
  id := "part"
  title := "Part"
  description := "Part."
  context := "None."
  purpose := "Size."
  expectedOutcome := "Part."
  kind := .test
  dependsOn := []
  requirements := ["REQUIREMENTS.md#a"]

def splitDraft : Draft where
  schemaVersion := 1
  rationale := "Small."
  documents := OrderedMap.empty
  documentEdits := []
  tasks := [.add firstPart]
  disposition := .resolve

def rootContext : TaskContext := ⟨bytesOf "/project", bytesOf "/project/.", bytesOf "."⟩

/-- A component at the root, whose documents are known. -/
def rootSources : IntentSources where
  digest _ := "sha256:3333333333333333333333333333333333333333333333333333333333333333"
  validateDocument name text :=
    ensure (pausedFiles.get name == some text) (fail (bytesOf name) "intent must pass")
  parent _ := .ok none

def afterPause : Timestamp := ⟨"2026-01-03T03:04:05Z"⟩

def splitEdited : Edited :=
  ⟨[pausedTask], {"part"}, [newTask firstPart afterPause], OrderedMap.empty⟩

def splitQueue : TaskQueue :=
  { pausedQueue with
    tasks := rescheduled [resolveTask splitEdited.additions afterPause pausedTask] 0 splitEdited
    component :=
      revisedComponent rootSources pausedQueue.component pausedFiles none afterPause }

theorem pausedFiles_materialize :
    materialize rootSources.validateDocument pausedFiles OrderedMap.empty [] =
      .ok pausedFiles := by
  have sizes : aggregate pausedFiles = .ok () := by
    rw [aggregate, ensure_ok_iff]
    simp only [length_bytesOf]
    decide +kernel
  have each : checkAll (requireDocument rootSources.validateDocument pausedFiles)
      intentNames = .ok () := by
    rw [checkAll_ok_iff]
    intro name member
    have present : (pausedFiles.get name).isSome = true := by
      revert name
      decide
    obtain ⟨text, found⟩ := Option.isSome_iff_exists.mp present
    rw [requireDocument, found, bind_ok_iff]
    refine ⟨text, rfl, ?_⟩
    simp [rootSources, found]
  simp only [materialize, bind_ok_iff]
  exact ⟨(), rfl, _, rfl, _, rfl, (), each, (), sizes, rfl⟩

theorem splitDraft_accepted :
    ∃ changes, outputs rootSources rootContext pausedCapture splitDraft afterPause =
      .ok changes := by
  have small : bounded (encode splitDraft.toJson) (bytesOf "draft") = .ok () := by
    rw [bounded_ok_iff, encode, length_utf8]
    decide +kernel
  have valid : validate splitQueue = .ok () := by decide
  have fits : bounded (bytesOf (canonicalText splitQueue)) (bytesOf todosName) = .ok () := by
    rw [bounded_ok_iff, length_bytesOf]
    decide +kernel
  have written : serializeQueue rootContext splitQueue = .ok (canonicalText splitQueue) := by
    rw [serializeQueue, serialize_of_validate valid]
  simp only [outputs, bind_ok_iff]
  exact ⟨_, (), rfl, (), small, _, pausedFiles_materialize, 0, rfl, splitEdited, rfl, _, rfl, none,
    rfl, _, written, (), fits, rfl⟩

theorem outputs_exact_split :
    ∃ (changes : Changes) (queue : TaskQueue),
      changes.after pausedCapture todosName = some (canonicalText queue) ∧
      validate queue = .ok () ∧ ∃ task ∈ queue.tasks, task.id = "split" ∧ task.status = .pending ∧
        "part" ∈ task.dependsOn := by
  obtain ⟨changes, accepted⟩ := splitDraft_accepted
  have valid : validate pausedQueue = .ok () := by decide
  have picked : selectTask rootContext pausedQueue (some "split") = .ok pausedTask := rfl
  obtain ⟨queue, after, validNew, -, -, resolving, -⟩ := outputs_exact valid picked accepted
  obtain ⟨-, -, task, member, same, pending, dependent⟩ := resolving rfl
  exact ⟨changes, queue, after, validNew, task, member, same, pending,
    dependent firstPart List.mem_cons_self⟩

end Kvist.Decision
