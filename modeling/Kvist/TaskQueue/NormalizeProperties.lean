import Kvist.TaskQueue.Normalize
import Kvist.TaskQueue.ValidQueue

/-!
# Normalization repairs the set lists

The relaxed validation accepts a queue exactly when the strict one accepts its normal form.
Normalization keeps the sets that the lists of a task stand for, and all of its other fields.
-/

set_option autoImplicit false

namespace Kvist.Queue

open Relation Text

/-! ## Blank texts -/

theorem trimList_eq_nil_iff {characters : List Char} :
    trimList characters = [] ↔ ∀ character ∈ characters, isWhitespace character = true := by
  unfold trimList trimEnd trimStart
  rw [List.rdropWhile_eq_nil_iff]
  constructor
  · intro blank
    cases kept : characters.dropWhile isWhitespace with
    | nil => exact List.dropWhile_eq_nil_iff.mp kept
    | cons first rest =>
        have solid := List.head?_dropWhile_not isWhitespace characters
        rw [kept] at solid blank
        simp only [List.head?_cons] at solid
        rw [blank first List.mem_cons_self] at solid
        cases solid
  · intro blank character member
    exact blank character ((List.dropWhile_suffix isWhitespace).subset member)

theorem isBlank_eq_false_of_mem {value : String} {character : Char}
    (member : character ∈ value.toList) (solid : isWhitespace character = false) :
    isBlank value = false := by
  cases blank : isBlank value with
  | false => rfl
  | true =>
      have every := trimList_eq_nil_iff.mp (List.isEmpty_iff.mp blank)
      rw [every character member] at solid
      cases solid

private theorem solid_of_code {character : Char} (above : 0x20 < character.toNat)
    (below : character.toNat < 0x80) : isWhitespace character = false := by
  simp only [isWhitespace, Bool.or_eq_false_iff, Bool.and_eq_false_iff, beq_eq_false_iff_ne,
    decide_eq_false_iff_not]
  omega

private theorem taskIdCharacter_solid {character : Char}
    (allowed : (isAsciiLowercase character || isAsciiDigit character || character == '-') = true) :
    isWhitespace character = false := by
  have codes : ∀ low high : Char, low ≤ character → character ≤ high →
      low.toNat ≤ character.toNat ∧ character.toNat ≤ high.toNat := fun _ _ above below => ⟨above, below⟩
  simp only [isAsciiLowercase, isAsciiDigit, Bool.or_eq_true, Bool.and_eq_true, decide_eq_true_eq,
    beq_iff_eq] at allowed
  rcases allowed with (⟨above, below⟩ | ⟨above, below⟩) | same
  · obtain ⟨low, high⟩ := codes _ _ above below
    exact solid_of_code (Nat.lt_of_lt_of_le (by decide) low) (Nat.lt_of_le_of_lt high (by decide))
  · obtain ⟨low, high⟩ := codes _ _ above below
    exact solid_of_code (Nat.lt_of_lt_of_le (by decide) low) (Nat.lt_of_le_of_lt high (by decide))
  · rw [same]
    rfl

theorem isBlank_of_validTaskId {id : String} (valid : validTaskId id = true) :
    isBlank id = false := by
  simp only [validTaskId, Bool.and_eq_true, bne_iff_ne] at valid
  obtain ⟨⟨⟨⟨⟨nonempty, _⟩, _⟩, _⟩, characters⟩, _⟩ := valid
  cases text : id.toList with
  | nil => exact absurd text nonempty
  | cons first rest =>
      have member : first ∈ id.toList := by
        rw [text]
        exact List.mem_cons_self
      exact isBlank_eq_false_of_mem member
        (taskIdCharacter_solid (List.all_eq_true.mp characters first member))

theorem isBlank_of_validateRequirement {taskId requirement : String}
    (valid : validateRequirement taskId requirement = .ok ()) : isBlank requirement = false := by
  unfold validateRequirement at valid
  split at valid
  · cases valid
  · next source locator parts =>
      rw [require, ensure_ok_iff, Bool.and_eq_true, bne_iff_ne, bne_iff_ne] at valid
      have solid : ∃ character ∈ source, isWhitespace character = false := by
        by_contra blank
        refine valid.1 (trimList_eq_nil_iff.mpr fun character member => ?_)
        by_contra solid
        exact blank ⟨character, member, Bool.not_eq_true _ ▸ solid⟩
      obtain ⟨character, member, solid⟩ := solid
      exact isBlank_eq_false_of_mem (mem_of_splitOnce parts member) solid

/-! ## Sorting -/

private theorem pairwise_dedupAdjacent {values : List String} (sorted : values.Pairwise (· ≤ ·)) :
    (dedupAdjacent values).Pairwise (· < ·) := by
  fun_induction dedupAdjacent values with
  | case1 second rest ih => exact ih (List.pairwise_cons.mp sorted).2
  | case2 first second rest different ih =>
      obtain ⟨least, tail⟩ := List.pairwise_cons.mp sorted
      refine List.pairwise_cons.mpr ⟨fun other member => ?_, ih tail⟩
      have above : first < second := lt_of_le_of_ne (least second List.mem_cons_self) different
      rcases List.mem_cons.mp ((mem_dedupAdjacent _ other).mp member) with rfl | later
      · exact above
      · exact above.trans_le (List.rel_of_pairwise_cons tail later)
  | case3 values short =>
      cases values with
      | nil => exact List.Pairwise.nil
      | cons first rest =>
          cases rest with
          | nil => exact List.pairwise_singleton _ first
          | cons second rest => exact absurd rfl (short first second rest)

private theorem strictlySorted_of_pairwise {values : List String}
    (sorted : values.Pairwise (· < ·)) : isStrictlySorted values = true := by
  fun_induction isStrictlySorted values with
  | case1 first second rest ih =>
      obtain ⟨least, tail⟩ := List.pairwise_cons.mp sorted
      rw [Bool.and_eq_true, decide_eq_true_eq]
      exact ⟨least second List.mem_cons_self, ih tail⟩
  | case2 values short => rfl

theorem isStrictlySorted_sortUnique (values : List String) :
    isStrictlySorted (sortUnique values) = true :=
  strictlySorted_of_pairwise (pairwise_dedupAdjacent (List.pairwise_insertionSort _ values))

theorem validateSortedUnique_sortUnique {values : List String} (name : String)
    (solid : ∀ value ∈ values, isBlank value = false) :
    validateSortedUnique (sortUnique values) name = .ok () := by
  have nonblank : (sortUnique values).any isBlank = false := by
    rw [List.any_eq_false]
    intro value member
    rw [solid value ((mem_sortUnique values value).mp member)]
    exact Bool.false_ne_true
  unfold validateSortedUnique
  rw [bind_unit_ok_iff]
  simp only [require, nonblank, isStrictlySorted_sortUnique, Bool.not_false, ensure_true,
    and_self]

theorem sortUnique_idempotent (values : List String) :
    sortUnique (sortUnique values) = sortUnique values :=
  sortUnique_of_strictlySorted (isStrictlySorted_sortUnique values)

/-! ## The two validations of a task -/

/-- The strict validation checks the order of the two lists, and then what the relaxed one does. -/
theorem validateTask_true_iff {task : Task} :
    validateTask true task = .ok () ↔
      validateSortedUnique task.dependsOn "depends_on" = .ok () ∧
      validateSortedUnique task.requirements "requirements" = .ok () ∧
      validateTask false task = .ok () := by
  simp only [validateTask, if_true, Bool.false_eq_true, if_false, bind_unit_ok_iff]
  tauto

/-- What the relaxed validation asks of a task does not depend on the form of its lists. -/
theorem validateTask_false_normalizeTask (task : Task) :
    validateTask false (normalizeTask task) = .ok () ↔ validateTask false task = .ok () := by
  have requirements : checkAll (validateRequirement task.id) (sortUnique task.requirements) =
      .ok () ↔ checkAll (validateRequirement task.id) task.requirements = .ok () := by
    simp only [checkAll_ok_iff, mem_sortUnique]
  have timestamps : validateTimestamps (normalizeTask task) = validateTimestamps task := rfl
  have completion : validateCompletion (normalizeTask task) = validateCompletion task := rfl
  have reason : validateBlockedReason (normalizeTask task) = validateBlockedReason task := rfl
  have recovery : validateRecoveryState (normalizeTask task) = validateRecoveryState task := rfl
  simp only [validateTask, Bool.false_eq_true, if_false, bind_unit_ok_iff, timestamps, completion,
    reason, recovery]
  simp only [normalizeTask, requirements]

theorem validTaskId_of_validateTask {setOrder : Bool} {task : Task}
    (valid : validateTask setOrder task = .ok ()) : validTaskId task.id = true := by
  unfold validateTask at valid
  exact ensure_ok_iff.mp (bind_unit_ok_iff.mp valid).1

theorem validateRequirement_of_validateTask {task : Task}
    (valid : validateTask false task = .ok ()) {requirement : String}
    (member : requirement ∈ task.requirements) :
    validateRequirement task.id requirement = .ok () := by
  simp only [validateTask, Bool.false_eq_true, if_false, bind_unit_ok_iff] at valid
  obtain ⟨_, _, _, requirements, _⟩ := valid
  exact checkAll_ok_iff.mp requirements requirement member

/-! ## Dependencies -/

section Dependencies

variable {tasks : List Task}

theorem soundDependencies_normalize :
    SoundDependencies (tasks.map normalizeTask) ↔ SoundDependencies tasks :=
  soundDependencies_map (fun _ => rfl) (fun _ _ => mem_sortUnique _ _) fun _ => rfl

theorem SoundDependencies.solid (sound : SoundDependencies tasks)
    (valid : ∀ task ∈ tasks, validateTask false task = .ok ()) {task : Task}
    (member : task ∈ tasks) {dependency : String} (recorded : dependency ∈ task.dependsOn) :
    isBlank dependency = false := by
  obtain ⟨position, found⟩ := List.getElem?_of_mem member
  obtain ⟨other, inside, rfl⟩ := sound.earlier position task found dependency recorded
  exact isBlank_of_validTaskId
    (validTaskId_of_validateTask (valid other (List.mem_of_mem_take inside)))

end Dependencies

/-! ## Queues -/

private theorem validate_normalizeSetLists_iff (queue : TaskQueue) :
    validate (normalizeSetLists queue) = .ok () ↔ validateRepairable queue = .ok () := by
  unfold validate validateRepairable
  rw [validateWith_ok_iff, validateWith_ok_iff]
  simp only [normalizeSetLists, soundDependencies_normalize, List.forall_mem_map,
    validateTask_true_iff, validateTask_false_normalizeTask]
  constructor
  · intro valid
    obtain ⟨version, component, each, sound⟩ := valid
    exact ⟨version, component, fun task member => (each task member).2.2, sound⟩
  · intro valid
    obtain ⟨version, component, each, sound⟩ := valid
    refine ⟨version, component, fun task member => ⟨?_, ?_, each task member⟩, sound⟩
    · exact validateSortedUnique_sortUnique _ fun _ recorded => sound.solid each member recorded
    · exact validateSortedUnique_sortUnique _ fun _ recorded =>
        isBlank_of_validateRequirement (validateRequirement_of_validateTask (each task member) recorded)

private theorem readyTaskIds_normalize (tasks : List Task) :
    readyTaskIds (tasks.map normalizeTask) = readyTaskIds tasks := by
  unfold readyTaskIds
  rw [List.filter_map, List.map_map]
  have completed (dependency : String) :
      ((tasks.map normalizeTask).any fun other =>
        other.id == dependency && other.status == .completed) =
      tasks.any fun other => other.id == dependency && other.status == .completed := by
    rw [List.any_map]
    rfl
  have ready : ((fun task : Task => task.status == .pending && task.dependsOn.all fun dependency =>
      (tasks.map normalizeTask).any fun other =>
        other.id == dependency && other.status == .completed) ∘ normalizeTask) =
      fun task : Task => task.status == .pending && task.dependsOn.all fun dependency =>
        tasks.any fun other => other.id == dependency && other.status == .completed := by
    funext task
    rw [Bool.eq_iff_iff]
    simp only [Function.comp_apply, completed, Bool.and_eq_true, List.all_eq_true]
    simp only [normalizeTask, mem_sortUnique]
  rw [ready]
  rfl

/-- The two lists of a task hold the same entries, and nothing else of the task differs. -/
structure SameSets (before after : Task) : Prop where
  dependsOn : ∀ dependency, dependency ∈ after.dependsOn ↔ dependency ∈ before.dependsOn
  requirements : ∀ requirement, requirement ∈ after.requirements ↔ requirement ∈ before.requirements
  others : { after with dependsOn := before.dependsOn, requirements := before.requirements } = before

theorem normalizeTask_sameSets (task : Task) : SameSets task (normalizeTask task) :=
  ⟨mem_sortUnique task.dependsOn, mem_sortUnique task.requirements, rfl⟩

/-- A queue can be repaired exactly when its normal form is valid, and the normal form is the
same queue but for the order and the repetitions of its set lists. -/
theorem normalizeSetLists_valid (queue : TaskQueue) :
    (validate (normalizeSetLists queue) = .ok () ↔ validateRepairable queue = .ok ()) ∧
    normalizeSetLists (normalizeSetLists queue) = normalizeSetLists queue ∧
    { normalizeSetLists queue with tasks := queue.tasks } = queue ∧
    List.Forall₂ SameSets queue.tasks (normalizeSetLists queue).tasks ∧
    readyTaskIds (normalizeSetLists queue).tasks = readyTaskIds queue.tasks := by
  refine ⟨validate_normalizeSetLists_iff queue, ?_, rfl, ?_, readyTaskIds_normalize queue.tasks⟩
  · have twice : normalizeTask ∘ normalizeTask = normalizeTask := by
      funext task
      simp only [Function.comp_apply, normalizeTask, sortUnique_idempotent]
    unfold normalizeSetLists
    rw [List.map_map, twice]
  · simp only [normalizeSetLists]
    rw [List.forall₂_map_right_iff]
    exact List.forall₂_same.mpr fun task _ => normalizeTask_sameSets task

end Kvist.Queue
