import Kvist.TaskQueue.GraphProperties
import Kvist.TaskQueue.Emit

/-!
# Valid queues

What validation says about a queue as a whole, and why a queue stays valid when its last tasks
are taken away.
-/

set_option autoImplicit false

namespace Kvist.Queue

open Relation

theorem validateWith_ok_iff (setOrder : Bool) (queue : TaskQueue) :
    validateWith setOrder queue = .ok () ↔
      queue.schemaVersion = todoQueueVersion ∧ validateComponent queue.component = .ok () ∧
      (∀ task ∈ queue.tasks, validateTask setOrder task = .ok ()) ∧
      SoundDependencies queue.tasks := by
  unfold validateWith
  rw [bind_unit_ok_iff, bind_unit_ok_iff, validateTasks_ok_iff, ensure_ok_iff, beq_iff_eq]

theorem validate_ok_iff (queue : TaskQueue) :
    validate queue = .ok () ↔
      queue.schemaVersion = todoQueueVersion ∧ validateComponent queue.component = .ok () ∧
      (∀ task ∈ queue.tasks, validateTask true task = .ok ()) ∧ SoundDependencies queue.tasks :=
  validateWith_ok_iff true queue

theorem serialize_of_validate {queue : TaskQueue} (valid : validate queue = .ok ()) :
    serialize queue = .ok (canonicalText queue) := by
  unfold serialize
  rw [valid, ok_bind]

theorem serialize_ok_iff {queue : TaskQueue} {text : String} :
    serialize queue = .ok text ↔ validate queue = .ok () ∧ text = canonicalText queue := by
  unfold serialize
  rw [bind_unit_ok_iff, Except.ok.injEq, eq_comm (a := text)]

/-! ## The last checks of a task -/

private theorem lastChecks {task : Task} (valid : validateTask true task = .ok ()) :
    validateCompletion task = .ok () ∧ validateRecoveryState task = .ok () := by
  simp only [validateTask, if_true, bind_unit_ok_iff] at valid
  obtain ⟨_, _, _, _, _, _, _, completion, _, recovery⟩ := valid
  exact ⟨completion, recovery⟩

theorem recoveryState_of_checked {task : Task} (checked : validateRecoveryState task = .ok ())
    (idle : task.status ≠ .inProgress) : task.recoveryState = none := by
  unfold validateRecoveryState at checked
  split at checked
  · next status _ => exact absurd status idle
  · cases checked
  · next absent => exact absent

theorem recoveryState_of_valid {task : Task} (valid : validateTask true task = .ok ())
    (idle : task.status ≠ .inProgress) : task.recoveryState = none :=
  recoveryState_of_checked (lastChecks valid).2 idle

theorem recovered_of_valid {task : Task} (valid : validateTask true task = .ok ())
    (completed : task.status = .completed) (unknown : task.timestamps.completedAt = none) :
    task.timestamps.recovered = true := by
  have checked := (lastChecks valid).1
  unfold validateCompletion at checked
  rw [completed, unknown] at checked
  simpa [require] using checked

/-! ## Tasks with the same dependencies -/

section Mapped

variable {change : Task → Task} {tasks : List Task} (ids : ∀ task, (change task).id = task.id)
  (recorded : ∀ task dependency,
    dependency ∈ (change task).dependsOn ↔ dependency ∈ task.dependsOn)
include ids recorded

private theorem dependsOn_map : DependsOn (tasks.map change) = DependsOn tasks := by
  funext source destination
  apply propext
  constructor
  · intro edge
    obtain ⟨task, member, same, depends⟩ := edge
    obtain ⟨origin, present, rfl⟩ := List.mem_map.mp member
    exact ⟨origin, present, (ids origin).symm.trans same, (recorded origin _).mp depends⟩
  · intro edge
    obtain ⟨task, member, same, depends⟩ := edge
    exact ⟨change task, List.mem_map_of_mem member, (ids task).trans same,
      (recorded task _).mpr depends⟩

theorem soundDependencies_map (kinds : ∀ task, (change task).kind = task.kind) :
    SoundDependencies (tasks.map change) ↔ SoundDependencies tasks := by
  have edges : DependsOn (tasks.map change) = DependsOn tasks := dependsOn_map ids recorded
  have names : (tasks.map change).map (·.id) = tasks.map (·.id) := by
    rw [List.map_map]
    exact List.map_congr_left fun task _ => ids task
  constructor
  · intro sound
    apply soundDependencies_of_lifecycle
    · rw [← names]
      exact sound.unique
    · intro position task found dependency depends
      have mapped : (tasks.map change)[position]? = some (change task) := by
        rw [List.getElem?_map, found, Option.map_some]
      obtain ⟨other, inside, same⟩ := sound.earlier position _ mapped dependency
        ((recorded task _).mpr depends)
      rw [← List.map_take] at inside
      obtain ⟨origin, present, rfl⟩ := List.mem_map.mp inside
      exact ⟨origin, present, (ids origin).symm.trans same⟩
    · rw [← edges]
      exact sound.acyclic
    · intro task member kind required
      obtain ⟨other, inside, sameKind, chain⟩ := sound.lifecycle (change task)
        (List.mem_map_of_mem member) kind (by rw [kinds, required])
      obtain ⟨origin, present, rfl⟩ := List.mem_map.mp inside
      rw [edges, ids, ids] at chain
      exact ⟨origin, present, (kinds origin).symm.trans sameKind, chain⟩
  · intro sound
    apply soundDependencies_of_lifecycle
    · rw [names]
      exact sound.unique
    · intro position task found dependency depends
      rw [List.getElem?_map] at found
      obtain ⟨origin, present, rfl⟩ := Option.map_eq_some_iff.mp found
      obtain ⟨other, inside, same⟩ := sound.earlier position origin present dependency
        ((recorded origin _).mp depends)
      rw [← List.map_take]
      exact ⟨change other, List.mem_map_of_mem inside, (ids other).trans same⟩
    · rw [edges]
      exact sound.acyclic
    · intro task member kind required
      obtain ⟨origin, present, rfl⟩ := List.mem_map.mp member
      rw [kinds] at required
      obtain ⟨other, inside, sameKind, chain⟩ := sound.lifecycle origin present kind required
      refine ⟨change other, List.mem_map_of_mem inside, (kinds other).trans sameKind, ?_⟩
      rw [edges, ids, ids]
      exact chain

end Mapped

/-! ## Prefixes -/

section Prefix

variable {before after : List Task}

private theorem SoundDependencies.inside (sound : SoundDependencies (before ++ after)) {task : Task}
    (member : task ∈ before) {dependency : String} (recorded : dependency ∈ task.dependsOn) :
    ∃ other ∈ before, other.id = dependency := by
  obtain ⟨position, found⟩ := List.getElem?_of_mem member
  have short : position < before.length := (List.getElem?_eq_some_iff.mp found).1
  have extended : (before ++ after)[position]? = some task := by
    rw [List.getElem?_append_left short, found]
  obtain ⟨other, earlier, same⟩ := sound.earlier position task extended dependency recorded
  rw [List.take_append_of_le_length short.le] at earlier
  exact ⟨other, List.mem_of_mem_take earlier, same⟩

/-- A recorded dependency of an identity of the prefix is recorded in the prefix. -/
private theorem SoundDependencies.dependsOn_inside (sound : SoundDependencies (before ++ after))
    {source destination : String} (inside : ∃ task ∈ before, task.id = source)
    (edge : DependsOn (before ++ after) source destination) :
    DependsOn before source destination ∧ ∃ other ∈ before, other.id = destination := by
  obtain ⟨task, member, sameTask⟩ := inside
  obtain ⟨owner, present, sameOwner, recorded⟩ := edge
  have equal : owner = task :=
    List.inj_on_of_nodup_map sound.unique present (List.mem_append_left after member)
      (sameOwner.trans sameTask.symm)
  rw [equal] at recorded
  exact ⟨⟨task, member, sameTask, recorded⟩, sound.inside member recorded⟩

private theorem SoundDependencies.chain_inside (sound : SoundDependencies (before ++ after))
    {source destination : String} (inside : ∃ task ∈ before, task.id = source)
    (chain : TransGen (DependsOn (before ++ after)) source destination) :
    TransGen (DependsOn before) source destination ∧
      ∃ other ∈ before, other.id = destination := by
  induction chain with
  | single edge =>
      obtain ⟨kept, last⟩ := sound.dependsOn_inside inside edge
      exact ⟨.single kept, last⟩
  | tail _ edge ih =>
      obtain ⟨chain, middle⟩ := ih
      obtain ⟨kept, last⟩ := sound.dependsOn_inside middle edge
      exact ⟨.tail chain kept, last⟩

/-- Taking the last tasks away keeps the dependencies sound. -/
theorem SoundDependencies.of_append (sound : SoundDependencies (before ++ after)) :
    SoundDependencies before := by
  apply soundDependencies_of_lifecycle
  · have unique := sound.unique
    rw [List.map_append] at unique
    exact (List.nodup_append.mp unique).1
  · intro position task found dependency recorded
    have short : position < before.length := (List.getElem?_eq_some_iff.mp found).1
    have extended : (before ++ after)[position]? = some task := by
      rw [List.getElem?_append_left short, found]
    have earlier := sound.earlier position task extended dependency recorded
    rwa [List.take_append_of_le_length short.le] at earlier
  · intro id cycle
    apply sound.acyclic id
    refine TransGen.mono (fun source destination edge => ?_) id id cycle
    obtain ⟨task, member, same, recorded⟩ := edge
    exact ⟨task, List.mem_append_left after member, same, recorded⟩
  · intro task member kind required
    obtain ⟨other, present, sameKind, chain⟩ :=
      sound.lifecycle task (List.mem_append_left after member) kind required
    obtain ⟨kept, last, lastMember, sameId⟩ := sound.chain_inside ⟨task, member, rfl⟩ chain
    have equal : last = other :=
      List.inj_on_of_nodup_map sound.unique (List.mem_append_left after lastMember) present sameId
    rw [equal] at lastMember
    exact ⟨other, lastMember, sameKind, kept⟩

end Prefix

theorem validate_of_append {queue : TaskQueue} {before after : List Task}
    (valid : validate { queue with tasks := before ++ after } = .ok ()) :
    validate { queue with tasks := before } = .ok () := by
  obtain ⟨version, component, each, sound⟩ := (validate_ok_iff _).mp valid
  exact (validate_ok_iff _).mpr ⟨version, component,
    fun task member => each task (List.mem_append_left after member), sound.of_append⟩

end Kvist.Queue
