import Mathlib.Algebra.BigOperators.Group.Finset.Piecewise
import Kvist.Graph.Search
import Kvist.TaskQueue.Validation

/-!
# Transitive readiness

The two walks over the dependencies of a task: `dependenciesCompleted` stops at the first
dependency that is not completed, `incompleteDependencyCount` counts them all. They agree on every
list of tasks, also where dependencies form a cycle, are repeated or name no task.
-/

set_option autoImplicit false

namespace Kvist.Queue

/-- The loop of `dependencies_completed`; the head of `pending` is the top of the stack. -/
def searchCompleted (tasks : List Task) : Nat → List String → List String → Except Failure Bool
  | 0, _, _ => .error .outOfFuel
  | _ + 1, [], _ => .ok true
  | fuel + 1, dependency :: pending, visited =>
      if visited.contains dependency then searchCompleted tasks fuel pending visited
      else
        match taskById tasks dependency with
        | some other =>
            if other.status != .completed then .ok false
            else searchCompleted tasks fuel (other.dependsOn.reverse ++ pending)
              (dependency :: visited)
        | none => .ok false

/-- `dependencies_completed`. -/
def dependenciesCompleted (task : Task) (tasks : List Task) : Except Failure Bool :=
  searchCompleted tasks (searchFuel task tasks) task.dependsOn.reverse []

/-- The loop of `incomplete_dependency_count`. -/
def countIncomplete (tasks : List Task) :
    Nat → List String → List String → Nat → Except Failure Nat
  | 0, _, _, _ => .error .outOfFuel
  | _ + 1, [], _, incomplete => .ok incomplete
  | fuel + 1, dependency :: pending, visited, incomplete =>
      if visited.contains dependency then countIncomplete tasks fuel pending visited incomplete
      else
        match taskById tasks dependency with
        | some other =>
            countIncomplete tasks fuel (other.dependsOn.reverse ++ pending) (dependency :: visited)
              (if other.status != .completed then incomplete + 1 else incomplete)
        | none => countIncomplete tasks fuel pending (dependency :: visited) (incomplete + 1)

/-- `incomplete_dependency_count`. -/
def incompleteDependencyCount (task : Task) (tasks : List Task) : Except Failure Nat :=
  countIncomplete tasks (searchFuel task tasks) task.dependsOn.reverse [] 0

/-! ## What the walks decide -/

def namedDependencies (tasks : List Task) (id : String) : List String :=
  (taskById tasks id).elim [] (·.dependsOn)

/-- The identity names a task, and that task is completed. -/
def NamesCompleted (tasks : List Task) (id : String) : Prop :=
  ∃ other, taskById tasks id = some other ∧ other.status = .completed

instance (tasks : List Task) (id : String) : Decidable (NamesCompleted tasks id) :=
  decidable_of_iff ((taskById tasks id).any (·.status == .completed) = true) (by
    simp [NamesCompleted, Option.any_eq_true])

/-- An identity is reached from a task by `depends_on`, in one step or in several. -/
def ReachedFrom (tasks : List Task) (task : Task) (id : String) : Prop :=
  ∃ first ∈ task.dependsOn,
    Relation.ReflTransGen (fun source destination => destination ∈ namedDependencies tasks source)
      first id

section Walks

variable {tasks : List Task} {task : Task}

private theorem reachedFrom_iff {id : String} :
    ReachedFrom tasks task id ↔
      Graph.Reached (namedDependencies tasks) task.dependsOn.reverse id := by
  simp only [Graph.Reached, List.mem_reverse]
  exact Iff.rfl

/-! ## The walks end -/

private def mentioned (task : Task) (tasks : List Task) : Finset String :=
  (tasks.map (·.id) ++ tasks.flatMap (·.dependsOn) ++ task.dependsOn).toFinset

private def fanOut (tasks : List Task) (id : String) : Nat := (namedDependencies tasks id).length

private theorem namedDependencies_mentioned {id target : String}
    (edge : target ∈ namedDependencies tasks id) : target ∈ mentioned task tasks := by
  unfold namedDependencies at edge
  cases found : taskById tasks id with
  | none =>
      rw [found] at edge
      cases edge
  | some other =>
      rw [found] at edge
      have member := (taskById_some found).1
      simp only [mentioned, List.mem_toFinset, List.mem_append, List.mem_flatMap]
      exact .inl (.inr ⟨other, member, edge⟩)

private theorem recorded_mentioned :
    ∀ id ∈ task.dependsOn.reverse, id ∈ mentioned task tasks := by
  intro id member
  simp only [mentioned, List.mem_toFinset, List.mem_append]
  exact .inr (List.mem_reverse.mp member)

private theorem fanOut_cons (first : Task) (rest : List Task) (id : String) :
    fanOut (first :: rest) id ≤
      (if first.id = id then first.dependsOn.length else 0) + fanOut rest id := by
  unfold fanOut namedDependencies taskById
  rw [List.find?_cons]
  by_cases same : first.id = id
  · simp [same]
  · rw [beq_false_of_ne same, if_neg same, Nat.zero_add]

/-- Every task is named by at most one identity. -/
private theorem sum_fanOut_le (ids : Finset String) (tasks : List Task) :
    ∑ id ∈ ids, fanOut tasks id ≤
      tasks.foldr (fun other total => other.dependsOn.length + total) 0 := by
  induction tasks with
  | nil => simp [fanOut, namedDependencies, taskById]
  | cons first rest ih =>
      have single : ∑ id ∈ ids, (if first.id = id then first.dependsOn.length else 0) ≤
          first.dependsOn.length := by
        rw [Finset.sum_ite_eq]
        split <;> omega
      calc ∑ id ∈ ids, fanOut (first :: rest) id
          ≤ ∑ id ∈ ids, ((if first.id = id then first.dependsOn.length else 0) + fanOut rest id) :=
            Finset.sum_le_sum fun id _ => fanOut_cons first rest id
        _ = ∑ id ∈ ids, (if first.id = id then first.dependsOn.length else 0) +
              ∑ id ∈ ids, fanOut rest id := Finset.sum_add_distrib
        _ ≤ first.dependsOn.length +
              rest.foldr (fun other total => other.dependsOn.length + total) 0 :=
            Nat.add_le_add single ih

private theorem searchFuel_covers (task : Task) (tasks : List Task) :
    Graph.remaining (mentioned task tasks) (fanOut tasks) task.dependsOn.reverse [] <
      searchFuel task tasks := by
  have edges := sum_fanOut_le ((mentioned task tasks).filter (· ∉ ([] : List String))) tasks
  simp only [Graph.remaining, searchFuel, List.length_reverse]
  omega

/-! ## The walk that counts -/

private def countsIncomplete (tasks : List Task) (id : String) : Bool :=
  !decide (NamesCompleted tasks id)

private theorem countsIncomplete_some {id : String} {other : Task}
    (found : taskById tasks id = some other) :
    countsIncomplete tasks id = (other.status != .completed) := by
  have names : NamesCompleted tasks id ↔ other.status = .completed := by
    simp [NamesCompleted, found]
  by_cases done : other.status = .completed
  · simp [countsIncomplete, names, done]
  · simp [countsIncomplete, names, done]

private theorem countsIncomplete_none {id : String} (absent : taskById tasks id = none) :
    countsIncomplete tasks id = true := by
  simp [countsIncomplete, NamesCompleted, absent]

private theorem countIncomplete_eq (fuel : Nat) (pending visited : List String) :
    countIncomplete tasks fuel pending visited (visited.countP (countsIncomplete tasks)) =
      (Graph.explore (namedDependencies tasks) fuel pending visited).elim (.error .outOfFuel)
        fun all => .ok (all.countP (countsIncomplete tasks)) := by
  induction fuel generalizing pending visited with
  | zero => rfl
  | succ fuel ih =>
      cases pending with
      | nil => rfl
      | cons dependency pending =>
          by_cases seen : dependency ∈ visited
          · rw [Graph.explore_seen seen, countIncomplete, if_pos (by simpa using seen), ih]
          rw [Graph.explore_unseen seen, countIncomplete, if_neg (by simpa using seen), ← ih,
            List.countP_cons]
          cases found : taskById tasks dependency with
          | none => simp [countsIncomplete_none found, namedDependencies, found]
          | some other =>
              rw [countsIncomplete_some found]
              simp only [namedDependencies, found, Option.elim_some]
              congr 1
              split <;> rfl

private theorem incompleteDependencyCount_ok (task : Task) (tasks : List Task) :
    ∃ count, incompleteDependencyCount task tasks = .ok count ∧
      ∃ ids : List String, ids.Nodup ∧ ids.length = count ∧
        ∀ id, id ∈ ids ↔ ReachedFrom tasks task id ∧ ¬NamesCompleted tasks id := by
  obtain ⟨all, explored⟩ : ∃ all, Graph.explore (namedDependencies tasks) (searchFuel task tasks)
      task.dependsOn.reverse [] = some all :=
    Graph.explore_total
      (fun id _ => ⟨Nat.le_refl _, fun _ edge => namedDependencies_mentioned edge⟩)
      recorded_mentioned (searchFuel_covers task tasks)
  have counted := @countIncomplete_eq tasks (searchFuel task tasks) task.dependsOn.reverse []
  rw [explored] at counted
  refine ⟨_, counted, all.filter (countsIncomplete tasks), ?_, List.countP_eq_length_filter.symm, ?_⟩
  · exact (Graph.explore_nodup List.nodup_nil explored).filter _
  · intro id
    rw [List.mem_filter, Graph.mem_explore_iff explored, ← reachedFrom_iff, countsIncomplete,
      Bool.not_eq_true', decide_eq_false_iff_not]

/-! ## The walk that stops early -/

/-- What the walk does with one identity: `none` stops it. -/
private def inspectCompleted (tasks : List Task) (id : String) :
    Except Failure (Option (List String)) :=
  .ok (if NamesCompleted tasks id then some (namedDependencies tasks id) else none)

private theorem searchCompleted_eq (fuel : Nat) (pending visited : List String) :
    searchCompleted tasks fuel pending visited =
      (Graph.search (inspectCompleted tasks) .outOfFuel fuel pending visited).map not := by
  induction fuel generalizing pending visited with
  | zero => rfl
  | succ fuel ih =>
      cases pending with
      | nil => rfl
      | cons dependency pending =>
          by_cases seen : dependency ∈ visited
          · rw [Graph.search_seen seen, searchCompleted, if_pos (by simpa using seen), ih]
          rw [Graph.search_unseen seen, searchCompleted, if_neg (by simpa using seen),
            inspectCompleted]
          cases found : taskById tasks dependency with
          | none => simp [NamesCompleted, found, Except.map]
          | some other =>
              by_cases done : other.status = .completed
              · simp [NamesCompleted, found, done, ih, namedDependencies]
              · simp [NamesCompleted, found, done, Except.map]

private theorem leads_iff {source destination : String} :
    Graph.Leads (inspectCompleted tasks) source destination ↔
      NamesCompleted tasks source ∧ destination ∈ namedDependencies tasks source := by
  unfold Graph.Leads inspectCompleted
  by_cases done : NamesCompleted tasks source
  · simp [done]
  · simp [done]

private theorem goal_iff {id : String} :
    Graph.Goal (inspectCompleted tasks) id ↔ ¬NamesCompleted tasks id := by
  unfold Graph.Goal inspectCompleted
  by_cases done : NamesCompleted tasks id
  · simp [done]
  · simp [done]

/-- The walk stops early exactly when some reached identity names no completed task. -/
private theorem goalReachable_iff :
    Graph.GoalReachable (inspectCompleted tasks) task.dependsOn.reverse ↔
      ∃ id, ReachedFrom tasks task id ∧ ¬NamesCompleted tasks id := by
  constructor
  · intro reachable
    obtain ⟨start, member, id, path, goal⟩ := reachable
    refine ⟨id, ⟨start, List.mem_reverse.mp member, ?_⟩, goal_iff.mp goal⟩
    exact Relation.ReflTransGen.mono (fun _ _ edge => (leads_iff.mp edge).2) _ _ path
  · intro incomplete
    obtain ⟨id, ⟨start, member, path⟩, unfinished⟩ := incomplete
    have expands : ∀ source destination, destination ∈ namedDependencies tasks source →
        Graph.Goal (inspectCompleted tasks) source ∨
          Graph.Leads (inspectCompleted tasks) source destination := by
      intro source destination edge
      by_cases done : NamesCompleted tasks source
      · exact .inr (leads_iff.mpr ⟨done, edge⟩)
      · exact .inl (goal_iff.mpr done)
    obtain ⟨first, leads, goal⟩ :=
      Graph.exists_goal_of_path expands path (goal_iff.mpr unfinished)
    exact ⟨start, List.mem_reverse.mpr member, first, leads, goal⟩

private theorem inspectCompleted_bounded {id : String} {next : List String}
    (inspected : inspectCompleted tasks id = .ok (some next)) :
    NamesCompleted tasks id ∧ next = namedDependencies tasks id := by
  unfold inspectCompleted at inspected
  split at inspected
  · next done => exact ⟨done, by simpa using inspected.symm⟩
  · cases inspected

private theorem namesCompleted_mentioned {id : String} (done : NamesCompleted tasks id) :
    id ∈ mentioned task tasks := by
  obtain ⟨other, found, _⟩ := done
  obtain ⟨member, same⟩ := taskById_some found
  simp only [mentioned, List.mem_toFinset, List.mem_append, List.mem_map]
  exact .inl (.inl ⟨other, member, same⟩)

theorem dependenciesCompleted_ok (task : Task) (tasks : List Task) :
    ∃ completed, dependenciesCompleted task tasks = .ok completed ∧
      (completed = true ↔ ∀ id, ReachedFrom tasks task id → NamesCompleted tasks id) := by
  have bounded : ∀ id next, inspectCompleted tasks id = .ok (some next) →
      id ∈ mentioned task tasks ∧ next.length ≤ fanOut tasks id := by
    intro id next inspected
    obtain ⟨done, rfl⟩ := inspectCompleted_bounded inspected
    exact ⟨namesCompleted_mentioned done, Nat.le_refl _⟩
  have closed : ∀ id ∈ mentioned task tasks, ∃ answer, inspectCompleted tasks id = .ok answer ∧
      ∀ next, answer = some next → ∀ target ∈ next, target ∈ mentioned task tasks := by
    intro id _
    refine ⟨_, rfl, fun next stays target edge => ?_⟩
    have inspected : inspectCompleted tasks id = .ok (some next) := congrArg Except.ok stays
    rw [(inspectCompleted_bounded inspected).2] at edge
    exact namedDependencies_mentioned edge
  obtain ⟨found, searched⟩ : ∃ found, Graph.search (inspectCompleted tasks) .outOfFuel
      (searchFuel task tasks) task.dependsOn.reverse [] = .ok found :=
    Graph.search_total bounded closed recorded_mentioned (searchFuel_covers task tasks)
  refine ⟨!found, ?_, ?_⟩
  · rw [dependenciesCompleted, searchCompleted_eq, searched]
    rfl
  · have reachable := (Graph.search_ok_iff searched).trans goalReachable_iff
    rw [Bool.not_eq_true', ← Bool.not_eq_true, reachable]
    simp only [not_exists, not_and, not_not]

end Walks

/-- Both walks end on every list of tasks, and they agree: a task's dependencies are completed
exactly when none is counted as incomplete. -/
theorem dependenciesCompleted_iff_count_zero (task : Task) (tasks : List Task) :
    ∃ completed count,
      dependenciesCompleted task tasks = .ok completed ∧
      incompleteDependencyCount task tasks = .ok count ∧
      (completed = true ↔ count = 0) ∧
      (count = 0 ↔ ∀ id, ReachedFrom tasks task id → NamesCompleted tasks id) ∧
      ∃ ids : List String, ids.Nodup ∧ ids.length = count ∧
        ∀ id, id ∈ ids ↔ ReachedFrom tasks task id ∧ ¬NamesCompleted tasks id := by
  obtain ⟨completed, walked, complete⟩ := dependenciesCompleted_ok task tasks
  obtain ⟨count, counted, ids, distinct, length, members⟩ := incompleteDependencyCount_ok task tasks
  have none : count = 0 ↔ ∀ id, ReachedFrom tasks task id → NamesCompleted tasks id := by
    rw [← length, List.length_eq_zero_iff, List.eq_nil_iff_forall_not_mem]
    simp only [members, not_and, not_not]
  exact ⟨completed, count, walked, counted, complete.trans none.symm, none, ids, distinct, length,
    members⟩

end Kvist.Queue
