import Kvist.OrderedMap
import Kvist.TaskQueue.LifecycleProperties

/-!
# Continuous runs

`task run` without a task: the lifecycle items of a queue, and the loop that executes one ready task
after the other and checkpoints each item. The lock, interrupts, Git and the effects on the disk
are outside, and so is the execution of a task, which is a parameter; a run starts without a
retained ledger.
-/

set_option autoImplicit false

namespace Kvist.Continuous

open Queue Text

/-! ## Items -/

/-- `SUFFIXES`. -/
def suffixes : List String := ["write-tests", "implement-code", "security-audit", "compliance-review"]

/-- `item_stem`. -/
def itemStem (id : String) : Option String :=
  suffixes.findSome? fun suffix =>
    if id = suffix then some ""
    else ((stripTrailing suffix.toList id.toList).bind (stripTrailing ['-'])).map String.ofList

/-- The longest nonempty stem that the identity is, or starts with. Two stems of one length that it
starts with are the same, so that the order of the stems does not matter. -/
def enclosingStem (stems : List String) (id : String) : Option String :=
  (stems.filter fun stem => stem != "" &&
    (id == stem || (stem.toList ++ ['-']).isPrefixOf id.toList)).foldl
      (fun longest stem =>
        if longest.all fun other => other.length ≤ stem.length then some stem else longest) none

/-- The item of a task, in the first loop of `item_groups`. -/
def taskStem (tasks : List Task) (task : Task) : Option String :=
  let stems := tasks.filterMap fun other => itemStem other.id
  let testStems := (tasks.filter (·.kind == .test)).filterMap fun other => itemStem other.id
  let enclosingTest :=
    if task.kind == .implementation then enclosingStem testStems task.id else none
  (enclosingTest.or (itemStem task.id)).or (enclosingStem stems task.id)

structure RunError where
  taskId : String
  reason : String
  deriving DecidableEq, Repr

abbrev Groups := OrderedMap String (List String)

def groupTask (tasks : List Task) (groups : Groups) (task : Task) : Except RunError Groups :=
  match taskStem tasks task with
  | some stem => .ok (groups.insert stem ((groups.get stem).getD [] ++ [task.id]))
  | none =>
      if task.status == .completed then .ok groups
      else .error ⟨task.id, "cannot infer a complete lifecycle item; use a shared ID prefix " ++
        "ending in write-tests, implement-code, security-audit, compliance-review, or set " ++
        "task_run.commit to component/manual and reapprove policy"⟩

/-- Some unfinished task of another item stands between the first and the last task of the item. -/
def interleaved (tasks : List Task) (ids : List String) : Bool :=
  let positions := (List.range tasks.length).filter fun index =>
    tasks[index]?.any fun task => ids.contains task.id
  match positions.head?, positions.getLast? with
  | some first, some last =>
      ((tasks.take (last + 1)).drop first).any fun task =>
        task.status != .completed && !ids.contains task.id
  | _, _ => false

/-- The last loop of `item_groups`. -/
def checkItem (tasks : List Task) (entry : String × List String) : Except RunError Unit :=
  ensure ((entry.2.filterMap (taskById tasks)).all (·.status == .completed) ||
      !interleaved tasks entry.2)
    ⟨entry.1, "active item tasks are interleaved with another item; use component/manual commits " ++
      "rather than mixing item changes"⟩

/-- `item_groups`. -/
def itemGroups (tasks : List Task) : Except RunError Groups := do
  let groups ← tasks.foldlM (groupTask tasks) .empty
  checkAll (checkItem tasks) groups.entries
  .ok groups

/-! ## The loop -/

/-- What `definition_digest` reads of a task. -/
structure TaskDefinition where
  id : String
  title : String
  description : String
  context : String
  purpose : String
  expectedOutcome : String
  kind : TaskKind
  dependsOn : List String
  requirements : List String
  deriving DecidableEq, Repr

/-- What `definition_digest` is the digest of. -/
structure Definitions where
  requirementsRevision : String
  contractRevision : String
  designRevision : String
  parentContract : Option ParentContract
  tasks : List TaskDefinition
  deriving DecidableEq, Repr

def definitionsOf (queue : TaskQueue) : Definitions where
  requirementsRevision := queue.component.requirementsRevision
  contractRevision := queue.component.contractRevision
  designRevision := queue.component.designRevision
  parentContract := queue.component.parentContract
  tasks := queue.tasks.map fun task => ⟨task.id, task.title, task.description, task.context,
    task.purpose, task.expectedOutcome, task.kind, task.dependsOn, task.requirements⟩

inductive CommitFrequency where
  | item
  | component
  | manual
  deriving DecidableEq, Repr

inductive Phase where
  | running
  | paused
  | awaitingApproval
  deriving DecidableEq, Repr

/-- The fields of the ledger that the loop reads, with the definitions in place of their digest. -/
structure Ledger where
  commit : CommitFrequency
  definitions : Definitions
  phase : Phase
  activeItem : Option String
  completedItems : Finset String

/-- What the run does outside the queue: `create_checkpoint` commits what changed. -/
inductive Effect where
  | executed (taskId : String)
  | checkpointed (item : String)
  deriving DecidableEq, Repr

inductive Answer where
  | awaitingApproval
  | pausedAt (taskId : String) (status : TaskStatus)
  | failed (reason : String)
  | refused (failure : RunError)
  deriving DecidableEq, Repr

structure State where
  queue : TaskQueue
  ledger : Ledger
  effects : List Effect

def State.inPhase (state : State) (phase : Phase) : State :=
  { state with ledger := { state.ledger with phase } }

def allCompleted (tasks : List Task) (ids : List String) : Bool :=
  ids.all fun id => (taskById tasks id).any (·.status == .completed)

/-- `checkpoint_item`. -/
def checkpointItem (state : State) (item : String) : State :=
  { state with
    effects := state.effects ++ [.checkpointed item]
    ledger := { state.ledger with
      activeItem := none
      completedItems := insert item state.ledger.completedItems } }

/-- The end of the loop once every task is completed. -/
def awaitApproval (state : State) : State :=
  if state.ledger.phase = .awaitingApproval then state
  else
    let effects :=
      if state.ledger.commit = .component then [Effect.checkpointed "component"] else []
    { state with effects := state.effects ++ effects }.inPhase .awaitingApproval

/-- The first ready task of the active item, or of any item when none is active. -/
def selectTask (groups : Option Groups) (state : State) : Option Task :=
  state.queue.tasks.find? fun task =>
    taskIsReady task state.queue.tasks && state.ledger.activeItem.all fun item =>
      groups.any fun groups => (groups.get item).any (·.contains task.id)

/-- The first item with this task. -/
def itemOf (groups : Groups) (id : String) : Option String :=
  (groups.entries.find? fun entry => entry.2.contains id).map (·.1)

def activate (groups : Option Groups) (ledger : Ledger) (taskId : String) :
    Except RunError (Option String) :=
  match groups, ledger.activeItem with
  | some groups, none => do
      let item ← okOr (itemOf groups taskId) ⟨taskId, "ready task has no lifecycle item"⟩
      .ok (some item)
  | _, active => .ok active

section Loop

variable (execute : TaskQueue → String → TaskQueue × Except RunError Unit)

/-- The execution of the selected task, and what the ledger keeps of it. -/
def executeTask (state : State) (taskId : String) : State × Option Answer :=
  let result := execute state.queue taskId
  let after := { state with
    queue := result.1
    effects := state.effects ++ [.executed taskId] }
  match taskById result.1.tasks taskId, result.2 with
  | none, _ => (after, some (.failed "executed task disappeared"))
  | some _, .error failure => (after.inPhase .paused, some (.refused failure))
  | some task, .ok () =>
      if task.status = .completed then (after.inPhase .running, none)
      else (after.inPhase .paused, some (.pausedAt taskId task.status))

/-- The part of a turn behind the check of the active item. -/
def advance (groups : Option Groups) (state : State) : State × Option Answer :=
  if state.queue.tasks.all (·.status == .completed) then
    (awaitApproval state, some .awaitingApproval)
  else
    match selectTask groups state with
    | none => (state.inPhase .paused, some (.failed
        ("no dependency-ready work can advance the active item; resolve the decision/blocker " ++
          "before continuing")))
    | some task =>
        match activate groups state.ledger task.id with
        | .error failure => (state, some (.refused failure))
        | .ok activeItem =>
            executeTask execute { state with
              ledger := { state.ledger with activeItem, phase := .running } } task.id

/-- One turn of the loop of `run_locked`. -/
def turn (groups : Option Groups) (state : State) : State × Option Answer :=
  if definitionsOf state.queue ≠ state.ledger.definitions then
    (state, some (.failed
      "task definitions changed while the run was active; no later task was started"))
  else
    match state.ledger.activeItem, groups with
    | some item, some table =>
        match table.get item with
        | none => (state, some (.failed "active item was removed from the queue"))
        | some ids =>
            if allCompleted state.queue.tasks ids then (checkpointItem state item, none)
            else advance execute groups state
    | _, _ => advance execute groups state

/-- The loop of `run_locked`: `fuel` bounds its turns. -/
def runLoop (groups : Option Groups) : Nat → State → State × Option Answer
  | 0, state => (state, none)
  | fuel + 1, state =>
      match turn execute groups state with
      | (next, none) => runLoop groups fuel next
      | (next, some answer) => (next, some answer)

end Loop

/-- The state in which a run without a retained ledger enters the loop, with a checkpoint for each
item. -/
def start (queue : TaskQueue) (groups : Groups) : State where
  queue
  ledger :=
    { commit := .item, definitions := definitionsOf queue, phase := .running, activeItem := none,
      completedItems :=
        ((groups.entries.filter fun entry => allCompleted queue.tasks entry.2).map (·.1)).toFinset }
  effects := []

/-! ## Every unfinished task has one item -/

def unfinished (tasks : List Task) : List Task := tasks.filter (·.status != .completed)

def itemIds (tasks among : List Task) (item : String) : List String :=
  (among.filter fun task => taskStem tasks task == some item).map (·.id)

/-- What `item_groups` has checked once it gives the items of a queue. -/
structure Grouped (tasks : List Task) (groups : Groups) : Prop where
  get_iff : ∀ item ids, groups.get item = some ids ↔ ids = itemIds tasks tasks item ∧ ids ≠ []
  placed : ∀ task ∈ unfinished tasks, (taskStem tasks task).isSome = true
  checked : ∀ entry ∈ groups.entries, checkItem tasks entry = .ok ()

section Grouping

variable {tasks : List Task} {groups : Groups}

private theorem itemIds_cons (task : Task) (rest : List Task) (item : String) :
    itemIds tasks (task :: rest) item =
      (if taskStem tasks task = some item then [task.id] else []) ++ itemIds tasks rest item := by
  by_cases same : taskStem tasks task = some item
  · simp [itemIds, same]
  · simp [itemIds, same]

private theorem foldlM_groupTask {rest : List Task} {before after : Groups}
    (folded : rest.foldlM (groupTask tasks) before = .ok after) :
    (∀ item, after.get item =
      if itemIds tasks rest item = [] then before.get item
      else some ((before.get item).getD [] ++ itemIds tasks rest item)) ∧
    ∀ task ∈ unfinished rest, (taskStem tasks task).isSome = true := by
  induction rest generalizing before with
  | nil =>
      cases folded
      refine ⟨fun item => rfl, fun task member => ?_⟩
      cases member
  | cons task rest ih =>
      rw [List.foldlM_cons] at folded
      obtain ⟨middle, grouped, folded⟩ := bind_ok_iff.mp folded
      obtain ⟨entries, placed⟩ := ih folded
      unfold groupTask at grouped
      cases stem : taskStem tasks task with
      | none =>
          simp only [stem] at grouped
          split at grouped
          · rename_i completed
            cases grouped
            refine ⟨fun item => ?_, fun other member => placed other ?_⟩
            · rw [entries item, itemIds_cons, stem]
              rfl
            · simpa [unfinished, beq_iff_eq.mp completed] using member
          · cases grouped
      | some item =>
          simp only [stem] at grouped
          cases grouped
          refine ⟨fun other => ?_, fun other member => ?_⟩
          · rw [entries other, itemIds_cons, stem]
            by_cases same : other = item
            · subst same
              simp [List.append_assoc]
            · have apart : some item ≠ some other := fun equal => same (Option.some.inj equal).symm
              rw [OrderedMap.get_insert_other same, if_neg apart, List.nil_append]
          · rcases List.mem_cons.mp (List.mem_filter.mp member).1 with rfl | later
            · rw [stem]
              rfl
            · exact placed other (List.mem_filter.mpr ⟨later, (List.mem_filter.mp member).2⟩)

theorem itemGroups_ok (grouped : itemGroups tasks = .ok groups) : Grouped tasks groups := by
  unfold itemGroups at grouped
  obtain ⟨folded, folds, grouped⟩ := bind_ok_iff.mp grouped
  obtain ⟨checked, same⟩ := bind_unit_ok_iff.mp grouped
  cases same
  obtain ⟨entries, placed⟩ := foldlM_groupTask folds
  refine ⟨fun item ids => ?_, placed, checkAll_ok_iff.mp checked⟩
  rw [entries item]
  split
  · rename_i empty
    simp only [OrderedMap.get_empty, reduceCtorEq, false_iff, not_and, not_not, empty]
    exact id
  · rename_i present
    simp only [OrderedMap.get_empty, Option.getD_none, List.nil_append, Option.some.injEq]
    constructor
    · intro same
      exact ⟨same.symm, same ▸ present⟩
    · intro same
      exact same.1.symm

variable (unique : (tasks.map (·.id)).Nodup) (grouped : Grouped tasks groups)
include unique

private theorem mem_itemIds_iff {task : Task} (member : task ∈ tasks) {item : String} :
    task.id ∈ itemIds tasks tasks item ↔ taskStem tasks task = some item := by
  simp only [itemIds, List.mem_map, List.mem_filter, beq_iff_eq]
  constructor
  · intro present
    obtain ⟨other, ⟨inside, stem⟩, same⟩ := present
    rw [← List.inj_on_of_nodup_map unique inside member same]
    exact stem
  · intro stem
    exact ⟨task, ⟨member, stem⟩, rfl⟩

include grouped

theorem Grouped.contains_iff {task : Task} (member : task ∈ tasks) {item : String} :
    (∃ ids, groups.get item = some ids ∧ task.id ∈ ids) ↔ taskStem tasks task = some item := by
  rw [← mem_itemIds_iff unique member]
  constructor
  · intro listed
    obtain ⟨ids, found, inside⟩ := listed
    rw [((grouped.get_iff item ids).mp found).1] at inside
    exact inside
  · intro inside
    exact ⟨_, (grouped.get_iff item _).mpr ⟨rfl, List.ne_nil_of_mem inside⟩, inside⟩

theorem Grouped.itemOf_eq {task : Task} (member : task ∈ tasks) :
    itemOf groups task.id = taskStem tasks task := by
  unfold itemOf
  have entry_iff : ∀ entry : String × List String, entry ∈ groups.entries ↔
      groups.get entry.1 = some entry.2 := fun entry =>
    (OrderedMap.lookup_eq_some_iff groups.ascending).symm
  cases found : groups.entries.find? fun entry => entry.2.contains task.id with
  | none =>
      rw [List.find?_eq_none] at found
      cases stem : taskStem tasks task with
      | none => rfl
      | some item =>
          obtain ⟨ids, present, inside⟩ := (grouped.contains_iff unique member).mpr stem
          exact absurd (by simpa using inside) (found (item, ids) ((entry_iff _).mpr present))
  | some entry =>
      have present := (entry_iff entry).mp (List.mem_of_find?_eq_some found)
      have inside := List.find?_some found
      rw [Option.map_some, (grouped.contains_iff unique member).mp
        ⟨entry.2, present, by simpa using inside⟩]

omit unique grouped in
private theorem interleaved_of_between {ids : List String} {before middle behind : Nat}
    {first inner last : Task} (start : tasks[before]? = some first) (starts : first.id ∈ ids)
    (found : tasks[middle]? = some inner) (active : inner.status ≠ .completed)
    (foreign : inner.id ∉ ids) (stop : tasks[behind]? = some last) (stops : last.id ∈ ids)
    (lower : before < middle) (upper : middle < behind) : interleaved tasks ids = true := by
  have listed : ∀ {position : Nat} {task : Task}, tasks[position]? = some task → task.id ∈ ids →
      position ∈ (List.range tasks.length).filter fun index =>
        tasks[index]?.any fun task => ids.contains task.id := by
    intro position task present inside
    have short := (List.getElem?_eq_some_iff.mp present).1
    exact List.mem_filter.mpr ⟨List.mem_range.mpr short, by simp [present, inside]⟩
  have ascending : ((List.range tasks.length).filter fun index =>
      tasks[index]?.any fun task => ids.contains task.id).Pairwise (· < ·) :=
    List.pairwise_lt_range.filter _
  have atStart := listed start starts
  have atStop := listed stop stops
  unfold interleaved
  dsimp only
  generalize (List.range tasks.length).filter _ = positions at ascending atStart atStop
  cases front : positions.head? with
  | none => simp [List.head?_eq_none_iff.mp front] at atStart
  | some least =>
      cases back : positions.getLast? with
      | none => simp [List.getLast?_eq_none_iff.mp back] at atStart
      | some greatest =>
          obtain ⟨rest, rfl⟩ := List.head?_eq_some_iff.mp front
          obtain ⟨others, split⟩ := List.getLast?_eq_some_iff.mp back
          have least_le : least ≤ before := by
            rcases List.mem_cons.mp atStart with same | later
            · exact same.ge
            · exact ((List.pairwise_cons.mp ascending).1 before later).le
          have le_greatest : behind ≤ greatest := by
            rw [split] at atStop ascending
            rcases List.mem_append.mp atStop with earlier | final
            · exact ((List.pairwise_append.mp ascending).2.2 behind earlier greatest (by simp)).le
            · exact (List.mem_singleton.mp final).le
          refine List.any_eq_true.mpr ⟨inner, ?_, by simp [active, foreign]⟩
          apply List.mem_of_getElem? (i := middle - least)
          rw [List.getElem?_drop, List.getElem?_take_of_lt (by omega),
            Nat.add_sub_cancel' (by omega), found]

/-- Between two unfinished tasks of an item every unfinished task is of that item. -/
theorem Grouped.contiguous {before middle behind : Nat} {first inner last : Task}
    (start : tasks[before]? = some first) (open? : first.status ≠ .completed)
    (found : tasks[middle]? = some inner) (active : inner.status ≠ .completed)
    (stop : tasks[behind]? = some last) (lower : before < middle) (upper : middle < behind)
    (same : taskStem tasks last = taskStem tasks first) :
    taskStem tasks inner = taskStem tasks first := by
  have inside : ∀ {position : Nat} {task : Task}, tasks[position]? = some task → task ∈ tasks :=
    List.mem_of_getElem?
  have placed := grouped.placed first (List.mem_filter.mpr ⟨inside start, by simpa using open?⟩)
  obtain ⟨item, stem⟩ := Option.isSome_iff_exists.mp placed
  obtain ⟨ids, present, starts⟩ := (grouped.contains_iff unique (inside start)).mpr stem
  have stops : last.id ∈ ids := by
    obtain ⟨others, again, listed⟩ :=
      (grouped.contains_iff unique (inside stop)).mpr (same.trans stem)
    rw [present] at again
    cases again
    exact listed
  have checked := ensure_ok_iff.mp (grouped.checked (item, ids)
    ((OrderedMap.lookup_eq_some_iff groups.ascending).mp present))
  have working : (ids.filterMap (taskById tasks)).all (·.status == .completed) = false := by
    rw [List.all_eq_false]
    exact ⟨first, List.mem_filterMap.mpr ⟨first.id, starts, taskById_of_mem unique (inside start)⟩,
      by simpa using open?⟩
  rw [working, Bool.false_or, Bool.not_eq_true'] at checked
  by_contra foreign
  rw [stem] at foreign
  have apart : inner.id ∉ ids := fun listed =>
    foreign ((grouped.contains_iff unique (inside found)).mp ⟨ids, present, listed⟩)
  rw [interleaved_of_between start starts found active apart stop stops lower upper] at checked
  cases checked

end Grouping

/-! ## The order of the effects -/

section Schedule

variable (label : Task → String)

def closing (task : Task) (work : List Task) : List Effect :=
  if work.head?.any fun next => label next == label task then []
  else [.checkpointed (label task)]

/-- The tasks in this order, and each item's checkpoint behind its last task. -/
def schedule : List Task → List Effect
  | [] => []
  | task :: work => .executed task.id :: (closing label task work ++ schedule work)

/-- Between two tasks of an item there are only tasks of that item. -/
def Contiguous (work : List Task) : Prop :=
  ∀ first inner last, [first, inner, last].Sublist work → label last = label first →
    label inner = label first

def Effect.executedId : Effect → Option String
  | .executed taskId => some taskId
  | .checkpointed _ => none

def executedIds (effects : List Effect) : List String := effects.filterMap Effect.executedId

variable {label} {work : List Task}

theorem Contiguous.sublist {others : List Task} (contiguous : Contiguous label work)
    (inside : others.Sublist work) : Contiguous label others :=
  fun first inner last between => contiguous first inner last (between.trans inside)

theorem executedIds_schedule : executedIds (schedule label work) = work.map (·.id) := by
  induction work with
  | nil => rfl
  | cons task rest ih =>
      have none : executedIds (closing label task rest) = [] := by
        unfold closing
        split
        · rfl
        · rfl
      unfold executedIds at none ih ⊢
      rw [schedule, List.filterMap_cons, List.filterMap_append, none, List.nil_append, ih]
      rfl

theorem mem_of_checkpointed {item : String} (member : .checkpointed item ∈ schedule label work) :
    ∃ task ∈ work, label task = item := by
  induction work with
  | nil => cases member
  | cons task rest ih =>
      rw [schedule, List.mem_cons, List.mem_append] at member
      rcases member with same | here | later
      · cases same
      · unfold closing at here
        split at here
        · cases here
        · exact ⟨task, List.mem_cons_self, by simpa using (List.mem_singleton.mp here).symm⟩
      · obtain ⟨other, inside, same⟩ := ih later
        exact ⟨other, List.mem_cons_of_mem _ inside, same⟩

private theorem schedule_first {task : Task} {rest : List Task}
    (contiguous : Contiguous label (task :: rest)) :
    schedule label (task :: rest) =
      (((task :: rest).filter fun other => label other == label task).map fun other =>
        Effect.executed other.id) ++ .checkpointed (label task) ::
        schedule label ((task :: rest).filter fun other => label other != label task) := by
  induction rest generalizing task with
  | nil => simp [schedule, closing]
  | cons next rest ih =>
      have later := ih (contiguous.sublist (List.sublist_cons_self task (next :: rest)))
      by_cases same : label next = label task
      · rw [same] at later
        rw [schedule, later]
        simp [closing, same]
      · have foreign : ∀ other ∈ next :: rest, label other ≠ label task := by
          intro other member equal
          rcases List.mem_cons.mp member with rfl | inside
          · exact same equal
          · exact same (contiguous task next other
              ((List.singleton_sublist.mpr inside).cons_cons next |>.cons_cons task) equal)
        have none : (next :: rest).filter (fun other => label other == label task) = [] :=
          List.filter_eq_nil_iff.mpr fun other member => by simpa using foreign other member
        have all : (next :: rest).filter (fun other => label other != label task) = next :: rest :=
          List.filter_eq_self.mpr fun other member => by simpa using foreign other member
        rw [List.filter_cons_of_pos (by simp), none, List.filter_cons_of_neg (by simp), all,
          schedule]
        simp [closing, same]

/-- Each item is checkpointed once, directly behind all of its tasks. -/
theorem schedule_item (contiguous : Contiguous label work) {item : String}
    (present : ∃ task ∈ work, label task = item) :
    ∃ front back, schedule label work =
      front ++ ((work.filter fun task => label task == item).map fun task =>
        Effect.executed task.id) ++ .checkpointed item :: back ∧
      .checkpointed item ∉ front ∧ .checkpointed item ∉ back := by
  obtain ⟨size, bound⟩ : ∃ size, work.length ≤ size := ⟨_, Nat.le_refl _⟩
  induction size generalizing work with
  | zero =>
      obtain ⟨task, member, _⟩ := present
      rw [List.length_eq_zero_iff.mp (Nat.le_zero.mp bound)] at member
      cases member
  | succ size ih =>
      cases work with
      | nil =>
          obtain ⟨task, member, _⟩ := present
          cases member
      | cons task rest =>
          rw [schedule_first contiguous]
          by_cases same : label task = item
          · subst same
            refine ⟨[], _, rfl, List.not_mem_nil, fun again => ?_⟩
            obtain ⟨other, member, equal⟩ := mem_of_checkpointed again
            exact absurd equal (by simpa using (List.mem_filter.mp member).2)
          · have kept : ∀ other, label other = item → (label other != label task) = true := by
              intro other equal
              exact bne_iff_ne.mpr fun again => same (again.symm.trans equal)
            obtain ⟨other, member, equal⟩ := present
            have smaller : ((task :: rest).filter fun other => label other != label task).length ≤
                size := by
              rw [List.filter_cons_of_neg (by simp)]
              exact (List.length_filter_le _ _).trans (by simpa using bound)
            obtain ⟨front, back, split, before, behind⟩ :=
              ih (contiguous.sublist List.filter_sublist)
                ⟨other, List.mem_filter.mpr ⟨member, kept other equal⟩, equal⟩ smaller
            have block : (((task :: rest).filter fun other => label other != label task).filter
                fun other => label other == item) =
                (task :: rest).filter fun other => label other == item := by
              rw [List.filter_filter]
              refine List.filter_congr fun other _ => ?_
              by_cases equal : label other = item
              · rw [kept other equal, Bool.and_true]
              · simp [equal]
            rw [split, block]
            refine ⟨((task :: rest).filter fun other => label other == label task).map
              (fun other => Effect.executed other.id) ++ .checkpointed (label task) :: front, back,
              by simp only [List.append_assoc, List.cons_append], ?_, behind⟩
            rw [List.mem_append, List.mem_cons, not_or, not_or]
            refine ⟨fun executed => ?_, fun equal => same (Effect.checkpointed.inj equal).symm,
              before⟩
            obtain ⟨other, _, equal⟩ := List.mem_map.mp executed
            cases equal

end Schedule

/-! ## Runs -/

/-- Every execution of a ready task completes that task and changes no other one. -/
def Completes (execute : TaskQueue → String → TaskQueue × Except RunError Unit) : Prop :=
  ∀ (queue : TaskQueue) (front back : List Task) (task : Task),
    queue.tasks = front ++ task :: back → (queue.tasks.map (·.id)).Nodup →
    taskIsReady task queue.tasks = true →
    ∃ updated : Task, updated.definition = task.definition ∧ updated.status = .completed ∧
      execute queue task.id = ({ queue with tasks := front ++ updated :: back }, .ok ())

def itemLabel (groups : Groups) (task : Task) : String := (itemOf groups task.id).getD ""

/-- The items of the ledger are those completed before the run and those it has checkpointed. -/
def Recorded (queue : TaskQueue) (groups : Groups) (state : State) : Prop :=
  ∀ item, item ∈ state.ledger.completedItems ↔
    item ∈ (start queue groups).ledger.completedItems ∨ .checkpointed item ∈ state.effects

/-- Where a run stands: the unfinished tasks that are left, and the active item. -/
structure Stands (queue : TaskQueue) (groups : Groups) (work : List Task) (active : Option String)
    (state : State) : Prop where
  component : state.queue.component = queue.component
  definitions : state.queue.tasks.map Task.definition = queue.tasks.map Task.definition
  recorded : state.ledger.definitions = definitionsOf queue
  left : unfinished state.queue.tasks = work
  waiting : ∀ task ∈ work, task ∈ queue.tasks ∧ task.status = .pending
  active : state.ledger.activeItem = active
  phase : state.ledger.phase = .running
  commit : state.ledger.commit = .item
  items : Recorded queue groups state

/-- How a run ends: behind these effects, with every task completed. -/
structure Ends (queue : TaskQueue) (groups : Groups) (effects : List Effect) (last : State) :
    Prop where
  effects : last.effects = effects
  completed : ∀ task ∈ last.queue.tasks, task.status = .completed
  items : Recorded queue groups last

section Runs

variable {execute : TaskQueue → String → TaskQueue × Except RunError Unit} {queue : TaskQueue}
  {groups : Groups} {work rest : List Task} {active : Option String} {state : State} {task : Task}

theorem Stands.unchanged (stands : Stands queue groups work active state) :
    definitionsOf state.queue = state.ledger.definitions := by
  have tasks := congrArg (List.map fun task : Task => (⟨task.id, task.title, task.description,
    task.context, task.purpose, task.expectedOutcome, task.kind, task.dependsOn,
    task.requirements⟩ : TaskDefinition)) stands.definitions
  rw [List.map_map, List.map_map] at tasks
  rw [stands.recorded, definitionsOf, definitionsOf, stands.component]
  exact congrArg _ tasks

theorem Stands.turn_idle (stands : Stands queue groups work none state) :
    turn execute (some groups) state = advance execute (some groups) state := by
  unfold turn
  rw [if_neg (not_not.mpr stands.unchanged)]
  simp only [stands.active]

theorem Stands.turn_active {item : String} {ids : List String}
    (stands : Stands queue groups work (some item) state) (present : groups.get item = some ids) :
    turn execute (some groups) state =
      if allCompleted state.queue.tasks ids then (checkpointItem state item, none)
      else advance execute (some groups) state := by
  unfold turn
  rw [if_neg (not_not.mpr stands.unchanged)]
  simp only [stands.active, present]

theorem Stands.unique (stands : Stands queue groups work active state)
    (sound : SoundDependencies queue.tasks) : (state.queue.tasks.map (·.id)).Nodup := by
  rw [ids_of_same stands.definitions]
  exact sound.unique

theorem Stands.checkpoint {item : String} (stands : Stands queue groups work (some item) state) :
    Stands queue groups work none (checkpointItem state item) :=
  ⟨stands.component, stands.definitions, stands.recorded, stands.left, stands.waiting, rfl,
    stands.phase, stands.commit, fun other => by
      simp only [checkpointItem, Finset.mem_insert, List.mem_append, List.mem_singleton,
        Effect.checkpointed.injEq, stands.items other]
      tauto⟩

theorem Stands.turn_done (stands : Stands queue groups [] none state) :
    ∃ last, turn execute (some groups) state = (last, some .awaitingApproval) ∧
      Ends queue groups state.effects last := by
  have completed : ∀ task ∈ state.queue.tasks, task.status = .completed := by
    intro task member
    have done := List.filter_eq_nil_iff.mp stands.left task member
    simpa using done
  have all : state.queue.tasks.all (·.status == .completed) = true :=
    List.all_eq_true.mpr fun task member => beq_iff_eq.mpr (completed task member)
  have same : awaitApproval state = state.inPhase .awaitingApproval := by
    simp [awaitApproval, stands.phase, stands.commit]
  refine ⟨awaitApproval state, by rw [stands.turn_idle, advance, if_pos all], ?_⟩
  rw [same]
  exact ⟨rfl, completed, stands.items⟩

theorem runLoop_more {fuel : Nat} {last : State} {answer : Answer}
    (ran : runLoop execute (some groups) fuel state = (last, some answer)) :
    runLoop execute (some groups) (fuel + 1) state = (last, some answer) := by
  induction fuel generalizing state with
  | zero => cases ran
  | succ fuel ih =>
      rw [runLoop] at ran ⊢
      cases stepped : turn execute (some groups) state with
      | mk next answered =>
          cases answered with
          | none => simpa only [stepped] using ih (by simpa only [stepped] using ran)
          | some other => simpa only [stepped] using ran

variable (sound : SoundDependencies queue.tasks) (grouped : Grouped queue.tasks groups)
include sound grouped

private theorem itemOf_label (member : task ∈ queue.tasks) (waiting : task.status = .pending) :
    itemOf groups task.id = some (itemLabel groups task) := by
  have placed := grouped.placed task (List.mem_filter.mpr ⟨member, by simp [waiting]⟩)
  rw [← grouped.itemOf_eq sound.unique member] at placed
  obtain ⟨item, found⟩ := Option.isSome_iff_exists.mp placed
  rw [itemLabel, found, Option.getD_some]

private theorem item_lists (member : task ∈ queue.tasks) (waiting : task.status = .pending) :
    ∃ ids, groups.get (itemLabel groups task) = some ids ∧ task.id ∈ ids := by
  apply (grouped.contains_iff sound.unique member).mpr
  rw [← grouped.itemOf_eq sound.unique member, itemOf_label sound grouped member waiting]

theorem Stands.advance (stands : Stands queue groups (task :: rest) active state)
    (completes : Completes execute) (fits : active.all (· = itemLabel groups task)) :
    ∃ next, advance execute (some groups) state = (next, none) ∧
      next.effects = state.effects ++ [.executed task.id] ∧
      Stands queue groups rest (some (itemLabel groups task)) next := by
  obtain ⟨member, waiting⟩ := stands.waiting task List.mem_cons_self
  obtain ⟨front, back, split, before, _, behind⟩ := List.filter_eq_cons_iff.mp stands.left
  have done : ∀ other ∈ front, other.status = .completed := fun other inside => by
    simpa using before other inside
  have unique := stands.unique sound
  have valid : SoundDependencies state.queue.tasks := by
    rw [← soundDependencies_definitions, stands.definitions, soundDependencies_definitions]
    exact sound
  have found : state.queue.tasks[front.length]? = some task := by simp [split]
  have ready := valid.ready_of_first found waiting (by simpa [split] using done)
  have open? : ¬ state.queue.tasks.all (·.status == .completed) = true := by
    simp [split, waiting]
  obtain ⟨ids, present, listed⟩ := item_lists sound grouped member waiting
  have selected : selectTask (some groups) state = some task := by
    have none : front.find? (fun other => taskIsReady other state.queue.tasks &&
        state.ledger.activeItem.all fun item =>
          (some groups).any fun groups => (groups.get item).any (·.contains other.id)) = none := by
      refine List.find?_eq_none.mpr fun other inside => ?_
      simp [taskIsReady, done other inside]
    have chosen : (state.ledger.activeItem.all fun item =>
        (some groups).any fun groups => (groups.get item).any (·.contains task.id)) = true := by
      rw [stands.active]
      cases active with
      | none => rfl
      | some item =>
          have same : item = itemLabel groups task := by simpa using fits
          simp [same, present, listed]
    unfold selectTask
    rw [split] at none ready ⊢
    rw [List.find?_append, none, Option.none_or, List.find?_cons_of_pos (by rw [ready, chosen]; rfl)]
  have activated : activate (some groups) state.ledger task.id =
      .ok (some (itemLabel groups task)) := by
    unfold activate
    rw [stands.active]
    cases active with
    | none => simp [itemOf_label sound grouped member waiting]
    | some item =>
        have same : item = itemLabel groups task := by simpa using fits
        rw [same]
  obtain ⟨updated, definition, completed, executed⟩ :=
    completes state.queue front back task split unique ready
  have definitions : (front ++ updated :: back).map Task.definition =
      state.queue.tasks.map Task.definition := by
    rw [split, List.map_append, List.map_append, List.map_cons, List.map_cons, definition]
  have named : taskById (front ++ updated :: back) task.id = some updated := by
    have same : updated.id = task.id := by simpa using congrArg Task.id definition
    rw [← same]
    exact taskById_of_mem (by rwa [ids_of_same definitions]) (by simp)
  refine ⟨{ queue := { state.queue with tasks := front ++ updated :: back }
            ledger := { state.ledger with
              activeItem := some (itemLabel groups task)
              phase := .running }
            effects := state.effects ++ [.executed task.id] }, ?_, rfl, ?_⟩
  · rw [Continuous.advance, if_neg open?, selected]
    simp only [activated, executeTask, executed, named, completed, if_true, State.inPhase]
  · have finished : front.filter (·.status != .completed) = [] :=
      List.filter_eq_nil_iff.mpr fun other inside => by simp [done other inside]
    have left : unfinished (front ++ updated :: back) = rest := by
      simp only [unfinished, List.filter_append, finished, List.nil_append]
      rw [List.filter_cons_of_neg (by simp [completed]), behind]
    exact ⟨stands.component, definitions.trans stands.definitions, stands.recorded, left,
      fun other inside => stands.waiting other (List.mem_cons_of_mem _ inside), rfl, rfl,
      stands.commit, fun item => by simpa using stands.items item⟩

theorem Stands.allCompleted_iff {item : String} {ids : List String}
    (stands : Stands queue groups work active state) (present : groups.get item = some ids) :
    allCompleted state.queue.tasks ids = true ↔
      ∀ task ∈ work, itemLabel groups task ≠ item := by
  have unique := stands.unique sound
  have item_iff : ∀ task ∈ work, itemLabel groups task = item ↔ task.id ∈ ids := by
    intro task member
    obtain ⟨inside, waiting⟩ := stands.waiting task member
    obtain ⟨others, again, listed⟩ := item_lists sound grouped inside waiting
    constructor
    · intro same
      rw [same, present] at again
      cases again
      exact listed
    · intro named
      have stem := (grouped.contains_iff sound.unique inside).mp ⟨ids, present, named⟩
      have other := (grouped.contains_iff sound.unique inside).mp ⟨others, again, listed⟩
      exact Option.some.inj (other.symm.trans stem)
  rw [allCompleted, List.all_eq_true]
  constructor
  · intro completed task member same
    have named := (item_iff task member).mp same
    have kept : task ∈ unfinished state.queue.tasks := by rwa [stands.left]
    have inside := (List.mem_filter.mp kept).1
    have done := completed task.id named
    rw [taskById_of_mem unique inside] at done
    simp [(stands.waiting task member).2] at done
  · intro foreign id named
    obtain ⟨task, _, same⟩ : ∃ task ∈ queue.tasks, task.id = id := by
      rw [((grouped.get_iff item ids).mp present).1] at named
      obtain ⟨task, kept, same⟩ := List.mem_map.mp named
      exact ⟨task, (List.mem_filter.mp kept).1, same⟩
    have listed : id ∈ state.queue.tasks.map (·.id) := by
      rw [ids_of_same stands.definitions, ← same]
      exact List.mem_map_of_mem ‹_›
    obtain ⟨other, inside, rfl⟩ := List.mem_map.mp listed
    rw [taskById_of_mem unique inside]
    by_contra open?
    have kept : other ∈ work := by
      rw [← stands.left]
      exact List.mem_filter.mpr ⟨inside, by simpa using open?⟩
    exact foreign other kept ((item_iff other kept).mpr named)

private theorem runLoop_schedule (completes : Completes execute) (work : List Task) :
    (∀ state, Stands queue groups work none state → Contiguous (itemLabel groups) work →
      ∃ last, runLoop execute (some groups) (2 * work.length + 1) state =
          (last, some .awaitingApproval) ∧
        Ends queue groups (state.effects ++ schedule (itemLabel groups) work) last) ∧
    ∀ state task, Stands queue groups work (some (itemLabel groups task)) state →
      task ∈ queue.tasks → task.status = .pending →
      Contiguous (itemLabel groups) (task :: work) →
      ∃ last, runLoop execute (some groups) (2 * work.length + 2) state =
          (last, some .awaitingApproval) ∧
        Ends queue groups (state.effects ++ (closing (itemLabel groups) task work ++
          schedule (itemLabel groups) work)) last := by
  induction work with
  | nil =>
      have idle : ∀ state, Stands queue groups [] none state →
          ∃ last, runLoop execute (some groups) 1 state = (last, some .awaitingApproval) ∧
            Ends queue groups state.effects last := by
        intro state stands
        obtain ⟨last, stepped, ends⟩ : ∃ last, turn execute (some groups) state =
            (last, some .awaitingApproval) ∧ Ends queue groups state.effects last :=
          stands.turn_done
        exact ⟨last, by rw [runLoop, stepped], ends⟩
      refine ⟨fun state stands _ => ?_, fun state task stands member waiting _ => ?_⟩
      · obtain ⟨last, ran, ends⟩ := idle state stands
        exact ⟨last, ran, by rwa [schedule, List.append_nil]⟩
      · obtain ⟨ids, present, _⟩ := item_lists sound grouped member waiting
        have done := (stands.allCompleted_iff sound grouped present).mpr fun other kept => by
          cases kept
        obtain ⟨last, ran, ends⟩ := idle _ stands.checkpoint
        refine ⟨last, ?_, by simpa [checkpointItem, closing, schedule] using ends⟩
        rw [List.length_nil, Nat.mul_zero, runLoop, stands.turn_active present, if_pos done]
        exact ran
  | cons next rest ih =>
      have idle : ∀ state, Stands queue groups (next :: rest) none state →
          Contiguous (itemLabel groups) (next :: rest) →
          ∃ last, runLoop execute (some groups) (2 * (next :: rest).length + 1) state =
              (last, some .awaitingApproval) ∧
            Ends queue groups (state.effects ++ schedule (itemLabel groups) (next :: rest))
              last := by
        intro state stands contiguous
        obtain ⟨member, waiting⟩ := stands.waiting next List.mem_cons_self
        obtain ⟨after, stepped, executed, standing⟩ :=
          stands.advance sound grouped completes rfl
        obtain ⟨last, ran, ends⟩ := ih.2 after next standing member waiting contiguous
        refine ⟨last, ?_, by simpa [executed, schedule] using ends⟩
        rw [List.length_cons, Nat.mul_succ, runLoop, stands.turn_idle, stepped]
        exact ran
      refine ⟨idle, fun state task stands inside started contiguous => ?_⟩
      obtain ⟨member, waiting⟩ := stands.waiting next List.mem_cons_self
      obtain ⟨ids, present, _⟩ := item_lists sound grouped inside started
      have shorter := contiguous.sublist (List.sublist_cons_self task (next :: rest))
      by_cases same : itemLabel groups next = itemLabel groups task
      · have left : ¬ allCompleted state.queue.tasks ids = true := fun done =>
          (stands.allCompleted_iff sound grouped present).mp done next List.mem_cons_self same
        obtain ⟨after, stepped, executed, standing⟩ :=
          stands.advance sound grouped completes (by simp [same])
        obtain ⟨last, ran, ends⟩ := ih.2 after next standing member waiting shorter
        refine ⟨last, ?_, by simpa [executed, closing, same, schedule] using ends⟩
        rw [List.length_cons, Nat.mul_succ, Nat.add_right_comm, runLoop,
          stands.turn_active present, if_neg left, stepped]
        exact runLoop_more ran
      · have done := (stands.allCompleted_iff sound grouped present).mpr fun other kept equal => by
          rcases List.mem_cons.mp kept with rfl | later
          · exact same equal
          · exact same (contiguous task next other ((List.singleton_sublist.mpr later).cons_cons
              next |>.cons_cons task) equal)
        obtain ⟨last, ran, ends⟩ := idle _ stands.checkpoint shorter
        refine ⟨last, ?_, by simpa [checkpointItem, closing, same] using ends⟩
        rw [runLoop, stands.turn_active present, if_pos done]
        exact ran

omit sound grouped in
private theorem positions_of_sublist {tasks : List Task} {first inner last : Task}
    (between : [first, inner, last].Sublist tasks) :
    ∃ before middle behind : Nat, before < middle ∧ middle < behind ∧
      tasks[before]? = some first ∧ tasks[middle]? = some inner ∧ tasks[behind]? = some last := by
  obtain ⟨positions, each⟩ := List.sublist_iff_exists_fin_orderEmbedding_get_eq.mp between
  have at? : ∀ index : Fin 3, tasks[(positions index).val]? =
      some ([first, inner, last].get index) := by
    intro index
    rw [each index]
    exact List.getElem?_eq_getElem _
  have ascends : ∀ left right : Fin 3, left < right → positions left < positions right :=
    fun left right less => positions.lt_iff_lt.mpr less
  exact ⟨_, _, _, ascends 0 1 (by decide), ascends 1 2 (by decide), at? 0, at? 1, at? 2⟩

/-- Tasks of one item stand together among the unfinished ones. -/
private theorem contiguous_unfinished
    (waiting : ∀ task ∈ unfinished queue.tasks, task.status = .pending) :
    Contiguous (itemLabel groups) (unfinished queue.tasks) := by
  intro first inner last between same
  obtain ⟨before, middle, behind, lower, upper, start, found, stop⟩ :=
    positions_of_sublist (between.trans List.filter_sublist)
  have kept : ∀ task ∈ [first, inner, last], task.status ≠ .completed ∧
      taskStem queue.tasks task = some (itemLabel groups task) := by
    intro task member
    have inside := between.subset member
    have present := (List.mem_filter.mp inside).1
    rw [← grouped.itemOf_eq sound.unique present, waiting task inside]
    exact ⟨TaskStatus.noConfusion, itemOf_label sound grouped present (waiting task inside)⟩
  obtain ⟨starts, first_item⟩ := kept first (by simp)
  obtain ⟨active, inner_item⟩ := kept inner (by simp)
  obtain ⟨_, last_item⟩ := kept last (by simp)
  have held := grouped.contiguous sound.unique start starts found active stop lower upper
    (by rw [last_item, first_item, same])
  rw [inner_item, first_item] at held
  exact Option.some.inj held

private theorem listed_iff (member : task ∈ queue.tasks) (waiting : task.status = .pending)
    {item : String} :
    (∃ ids, groups.get item = some ids ∧ task.id ∈ ids) ↔ itemLabel groups task = item := by
  rw [grouped.contains_iff sound.unique member, ← grouped.itemOf_eq sound.unique member,
    itemOf_label sound grouped member waiting, Option.some.injEq]

omit sound grouped in
private theorem mem_start_iff {item : String} :
    item ∈ (start queue groups).ledger.completedItems ↔
      ∃ ids, groups.get item = some ids ∧ allCompleted queue.tasks ids = true := by
  simp only [start, List.mem_toFinset, List.mem_map, List.mem_filter]
  constructor
  · intro present
    obtain ⟨entry, ⟨inside, completed⟩, rfl⟩ := present
    exact ⟨entry.2, (OrderedMap.lookup_eq_some_iff groups.ascending).mpr inside, completed⟩
  · intro present
    obtain ⟨ids, found, completed⟩ := present
    exact ⟨(item, ids),
      ⟨(OrderedMap.lookup_eq_some_iff groups.ascending).mp found, completed⟩, rfl⟩

/-- An item is completed before the run, or the run checkpoints it. -/
private theorem item_iff_completed {last : State} {item : String}
    (standing : Stands queue groups (unfinished queue.tasks) none (start queue groups))
    (contiguous : Contiguous (itemLabel groups) (unfinished queue.tasks))
    (ends : Ends queue groups (schedule (itemLabel groups) (unfinished queue.tasks)) last) :
    item ∈ last.ledger.completedItems ↔ (groups.get item).isSome = true := by
  rw [ends.items item, mem_start_iff, ends.effects, Option.isSome_iff_exists]
  constructor
  · intro done
    rcases done with ⟨ids, present, _⟩ | checkpointed
    · exact ⟨ids, present⟩
    · obtain ⟨task, member, rfl⟩ := mem_of_checkpointed checkpointed
      obtain ⟨inside, waiting⟩ := standing.waiting task member
      obtain ⟨ids, present, _⟩ := item_lists sound grouped inside waiting
      exact ⟨ids, present⟩
  · intro listed
    obtain ⟨ids, present⟩ := listed
    by_cases completed : allCompleted queue.tasks ids = true
    · exact .inl ⟨ids, present, completed⟩
    · have working : ∃ task ∈ unfinished queue.tasks, itemLabel groups task = item := by
        by_contra foreign
        exact completed ((standing.allCompleted_iff sound grouped present).mpr
          fun task member same => foreign ⟨task, member, same⟩)
      obtain ⟨front, back, split, _⟩ := schedule_item contiguous working
      rw [split]
      exact .inr (List.mem_append_right _ List.mem_cons_self)

end Runs

/-- From a valid queue of completed and pending tasks with items, when every execution completes its
task: the run executes every unfinished task once, in the declared order, and ends waiting for
approval with every task completed and every item recorded as completed. Each unfinished task is of
one item, and each item of such tasks is checkpointed once, directly behind all of them. -/
theorem run_checkpoints {execute : TaskQueue → String → TaskQueue × Except RunError Unit}
    (completes : Completes execute) {queue : TaskQueue} (valid : validate queue = .ok ())
    (idle : ∀ task ∈ queue.tasks, task.status = .completed ∨ task.status = .pending)
    {groups : Groups} (items : itemGroups queue.tasks = .ok groups) :
    ∃ last, runLoop execute (some groups) (2 * (unfinished queue.tasks).length + 1)
        (start queue groups) = (last, some .awaitingApproval) ∧
      (∀ task ∈ last.queue.tasks, task.status = .completed) ∧
      (∀ item, item ∈ last.ledger.completedItems ↔ (groups.get item).isSome = true) ∧
      executedIds last.effects = (unfinished queue.tasks).map (·.id) ∧
      (∀ item, .checkpointed item ∈ last.effects →
        ∃ task ∈ unfinished queue.tasks, (groups.get item).any (·.contains task.id) = true) ∧
      ∀ task ∈ unfinished queue.tasks, ∃ item,
        (∀ other, (groups.get other).any (·.contains task.id) = true ↔ other = item) ∧
        ∃ front back, last.effects = front ++
            ((unfinished queue.tasks).filter fun other =>
              (groups.get item).any (·.contains other.id)).map (fun other =>
                Effect.executed other.id) ++ .checkpointed item :: back ∧
          .checkpointed item ∉ front ∧ .checkpointed item ∉ back := by
  have sound := ((validate_ok_iff queue).mp valid).2.2.2
  have grouped := itemGroups_ok items
  have waiting : ∀ task ∈ unfinished queue.tasks, task ∈ queue.tasks ∧ task.status = .pending := by
    intro task member
    obtain ⟨inside, active⟩ := List.mem_filter.mp member
    exact ⟨inside, (idle task inside).resolve_left (by simpa using active)⟩
  have listed : ∀ task ∈ unfinished queue.tasks, ∀ item,
      (groups.get item).any (·.contains task.id) = true ↔ itemLabel groups task = item := by
    intro task member item
    rw [← listed_iff sound grouped (waiting task member).1 (waiting task member).2]
    simp [Option.any_eq_true]
  have contiguous := contiguous_unfinished sound grouped fun task member => (waiting task member).2
  have standing : Stands queue groups (unfinished queue.tasks) none (start queue groups) :=
    ⟨rfl, rfl, rfl, rfl, waiting, rfl, rfl, rfl, fun item => by simp [start]⟩
  obtain ⟨last, ran, ends⟩ :=
    (runLoop_schedule sound grouped completes _).1 _ standing contiguous
  change Ends queue groups ([] ++ schedule (itemLabel groups) (unfinished queue.tasks)) last at ends
  rw [List.nil_append] at ends
  have effects := ends.effects
  refine ⟨last, ran, ends.completed,
    fun item => item_iff_completed sound grouped standing contiguous ends, ?_,
    fun item done => ?_, fun task member => ?_⟩
  · rw [effects, executedIds_schedule]
  · rw [effects] at done
    obtain ⟨task, member, same⟩ := mem_of_checkpointed done
    exact ⟨task, member, (listed task member item).mpr same⟩
  · refine ⟨itemLabel groups task, fun other => (listed task member other).trans eq_comm, ?_⟩
    obtain ⟨front, back, split, before, behind⟩ := schedule_item contiguous ⟨task, member, rfl⟩
    refine ⟨front, back, ?_, before, behind⟩
    have block : ((unfinished queue.tasks).filter fun other =>
        (groups.get (itemLabel groups task)).any (·.contains other.id)) =
        (unfinished queue.tasks).filter fun other =>
          itemLabel groups other == itemLabel groups task := by
      refine List.filter_congr fun other inside => ?_
      rw [Bool.eq_iff_iff, listed other inside, beq_iff_eq]
    rw [effects, block, split]

/-- The execution that completes its task at once. -/
def completeTask (queue : TaskQueue) (taskId : String) : TaskQueue × Except RunError Unit :=
  ({ queue with
      tasks := queue.tasks.map fun task =>
        if task.id = taskId then { task with status := .completed } else task }, .ok ())

private theorem completes_completeTask : Completes completeTask := by
  intro queue front back task split unique _
  rw [split, List.map_append, List.map_cons] at unique
  have apart : ∀ other ∈ front ++ back, other.id ≠ task.id := by
    intro other member same
    rcases List.mem_append.mp member with before | behind
    · exact (List.nodup_append.mp unique).2.2 other.id (List.mem_map_of_mem before) task.id
        List.mem_cons_self same
    · have fresh := (List.nodup_cons.mp (List.nodup_append.mp unique).2.1).1
      exact fresh (same ▸ List.mem_map_of_mem behind)
  have kept : ∀ tasks : List Task, (∀ other ∈ tasks, other.id ≠ task.id) →
      tasks.map (fun other =>
        if other.id = task.id then { other with status := .completed } else other) = tasks := by
    intro tasks foreign
    conv_rhs => rw [← List.map_id tasks]
    exact List.map_congr_left fun other member => if_neg (foreign other member)
  refine ⟨{ task with status := .completed }, rfl, rfl, ?_⟩
  rw [completeTask, split, List.map_append, List.map_cons, if_pos rfl,
    kept front fun other member => apart other (List.mem_append_left _ member),
    kept back fun other member => apart other (List.mem_append_right _ member)]

/-- The tests of the parser and the code behind them. -/
def pairQueue : TaskQueue :=
  let queue := singleTaskQueue "Cover the parser"
  { queue with
    tasks := queue.tasks.flatMap fun task =>
      [{ task with id := "parser-write-tests" },
        { task with
          id := "parser-implement-code", kind := .implementation
          dependsOn := ["parser-write-tests"] }] }

private theorem pairQueue_valid : validate pairQueue = .ok () := by
  have component : pairQueue.component = (singleTaskQueue "").component := rfl
  have tasks : validateTasks true pairQueue.tasks = .ok () := by decide
  unfold validate validateWith
  rw [component, singleTaskQueue_component, tasks]
  rfl

def pairItems : Groups :=
  OrderedMap.empty.insert "parser" ["parser-write-tests", "parser-implement-code"]

private theorem pairQueue_items : itemGroups pairQueue.tasks = .ok pairItems := rfl

theorem run_checkpoints_pair :
    ∃ last, runLoop completeTask (some pairItems) 5 (start pairQueue pairItems) =
        (last, some .awaitingApproval) ∧
      executedIds last.effects = ["parser-write-tests", "parser-implement-code"] := by
  obtain ⟨last, ran, _, _, executed, _⟩ :=
    run_checkpoints completes_completeTask pairQueue_valid (by decide) pairQueue_items
  exact ⟨last, ran, executed⟩

end Kvist.Continuous
