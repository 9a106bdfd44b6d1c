import Mathlib.Data.Finset.Lattice.Fold
import Kvist.Graph.DepthFirst
import Kvist.Graph.Search
import Kvist.TaskQueue.ValidationProperties

/-!
# The dependency part of validation is exact

`validateTasks` accepts a list of tasks exactly when every task is locally valid and the
declared dependencies are sound. The walk of `visitTask` and the search of
`hasTransitiveDependencyOfKind` are the general ones of `Kvist.Graph` at the declared
positions, and end on every list.
-/

set_option autoImplicit false

namespace Kvist.Queue

open Relation

/-- `depends_on` as a relation between identities. -/
def DependsOn (tasks : List Task) (source destination : String) : Prop :=
  ∃ task ∈ tasks, task.id = source ∧ destination ∈ task.dependsOn

def Reaches (tasks : List Task) (task : Task) (kind : TaskKind) : Prop :=
  ∃ other ∈ tasks, other.kind = kind ∧ TransGen (DependsOn tasks) task.id other.id

/-- What the dependency part of validation asks of a list of tasks. -/
structure SoundDependencies (tasks : List Task) : Prop where
  unique : (tasks.map (·.id)).Nodup
  earlier : ∀ (position : Nat) (task : Task), tasks[position]? = some task →
    ∀ dependency ∈ task.dependsOn, ∃ other ∈ tasks.take position, other.id = dependency
  acyclic : ∀ id, ¬ TransGen (DependsOn tasks) id id
  implementation : ∀ task ∈ tasks, task.kind = .implementation → Reaches tasks task .test
  securityAudit : ∀ task ∈ tasks, task.kind = .securityAudit → Reaches tasks task .implementation
  complianceReview : ∀ task ∈ tasks, task.kind = .complianceReview →
    Reaches tasks task .securityAudit

section Lifecycle

variable {tasks : List Task}

theorem SoundDependencies.lifecycle (sound : SoundDependencies tasks) :
    ∀ task ∈ tasks, ∀ kind, requiredPredecessor task.kind = some kind →
      Reaches tasks task kind := by
  intro task member kind required
  cases own : task.kind with
  | test =>
      rw [own] at required
      cases required
  | implementation =>
      rw [own] at required
      cases required
      exact sound.implementation task member own
  | securityAudit =>
      rw [own] at required
      cases required
      exact sound.securityAudit task member own
  | complianceReview =>
      rw [own] at required
      cases required
      exact sound.complianceReview task member own

theorem soundDependencies_of_lifecycle (unique : (tasks.map (·.id)).Nodup)
    (earlier : ∀ (position : Nat) (task : Task), tasks[position]? = some task →
      ∀ dependency ∈ task.dependsOn, ∃ other ∈ tasks.take position, other.id = dependency)
    (acyclic : ∀ id, ¬ TransGen (DependsOn tasks) id id)
    (lifecycle : ∀ task ∈ tasks, ∀ kind, requiredPredecessor task.kind = some kind →
      Reaches tasks task kind) : SoundDependencies tasks where
  unique := unique
  earlier := earlier
  acyclic := acyclic
  implementation := fun task member own => lifecycle task member _ (by rw [own]; rfl)
  securityAudit := fun task member own => lifecycle task member _ (by rw [own]; rfl)
  complianceReview := fun task member own => lifecycle task member _ (by rw [own]; rfl)

end Lifecycle

/-! ## Declared positions -/

/-- The positions that the first loop of `validate_tasks` collects, the last one first. -/
def declaredPositions (tasks : List Task) : Positions :=
  (tasks.zipIdx.map fun entry => (entry.1.id, entry.2)).reverse

private theorem collectPositions_ok_iff {setOrder : Bool} {index : Nat} {tasks : List Task}
    {positions final : Positions} :
    collectPositions setOrder index tasks positions = .ok final ↔
      (∀ task ∈ tasks, validateTask setOrder task = .ok ()) ∧ (tasks.map (·.id)).Nodup ∧
      (∀ task ∈ tasks, positions.lookup task.id = none) ∧
      final = ((tasks.zipIdx index).map fun entry => (entry.1.id, entry.2)).reverse ++
        positions := by
  induction tasks generalizing index positions with
  | nil => simp [collectPositions, eq_comm (a := positions)]
  | cons task rest ih =>
      rw [collectPositions, bind_unit_ok_iff, bind_unit_ok_iff, require, ensure_ok_iff, ih]
      simp only [Option.isNone_iff_eq_none, List.forall_mem_cons, List.map_cons, List.nodup_cons,
        List.zipIdx_cons, List.reverse_cons, List.append_assoc, List.singleton_append]
      constructor
      · rintro ⟨valid, fresh, validRest, unique, freshRest, rfl⟩
        refine ⟨⟨valid, validRest⟩, ⟨?_, unique⟩, ⟨fresh, fun other member => ?_⟩, rfl⟩
        · intro present
          obtain ⟨other, member, same⟩ := List.mem_map.mp present
          have := freshRest other member
          simp [same] at this
        · have := freshRest other member
          rw [List.lookup_cons] at this
          split at this
          · cases this
          · exact this
      · rintro ⟨⟨valid, validRest⟩, ⟨notPresent, unique⟩, ⟨fresh, freshRest⟩, rfl⟩
        refine ⟨valid, fresh, validRest, unique, fun other member => ?_, rfl⟩
        have different : other.id ≠ task.id :=
          fun same => notPresent (List.mem_map.mpr ⟨other, member, same⟩)
        rw [List.lookup_cons, beq_false_of_ne different]
        exact freshRest other member

private theorem declaredPositions_keys (tasks : List Task) :
    (declaredPositions tasks).map (·.1) = (tasks.map (·.id)).reverse := by
  rw [declaredPositions, List.map_reverse, List.map_map]
  have ids : (tasks.zipIdx.map Prod.fst).map (·.id) = tasks.map (·.id) := by
    rw [List.zipIdx_map_fst]
  rw [← ids, List.map_map]
  rfl

/-- With distinct identities an identity is found at the position that declares it. -/
theorem declaredPositions_lookup {tasks : List Task} (unique : (tasks.map (·.id)).Nodup)
    {id : String} {position : Nat} :
    (declaredPositions tasks).lookup id = some position ↔
      ∃ task, tasks[position]? = some task ∧ task.id = id := by
  have keys : ((declaredPositions tasks).map (·.1)).Nodup := by
    rw [declaredPositions_keys]
    exact List.nodup_reverse.mpr unique
  have members : (id, position) ∈ declaredPositions tasks ↔
      ∃ task, tasks[position]? = some task ∧ task.id = id := by
    simp only [declaredPositions, List.mem_reverse, List.mem_map, Prod.exists, Prod.mk.injEq,
      List.mem_zipIdx_iff_getElem?]
    constructor
    · rintro ⟨task, index, found, same, rfl⟩
      exact ⟨task, found, same⟩
    · rintro ⟨task, found, same⟩
      exact ⟨task, position, found, same, rfl⟩
  rw [← members]
  constructor
  · intro found
    obtain ⟨before, after, split, _⟩ := List.lookup_eq_some_iff.mp found
    rw [split]
    simp
  · intro member
    obtain ⟨before, after, split⟩ := List.append_of_mem member
    refine List.lookup_eq_some_iff.mpr ⟨before, after, split, fun entry inside => ?_⟩
    rw [split] at keys
    simp only [List.map_append, List.map_cons, List.nodup_append, List.mem_map, List.mem_cons]
      at keys
    exact bne_iff_ne.mpr fun same => keys.2.2 entry.1 ⟨entry, inside, rfl⟩ id (.inl rfl) same.symm

/-! ## The walk as a depth-first walk -/

/-- The task list as a graph whose edges are the recorded identities. -/
def dependencyGraph (tasks : List Task) (positions : Positions) : Graph.Labelled String where
  labels := fun position => tasks[position]?.map (·.dependsOn)
  target := fun dependency => positions.lookup dependency

/-- The failures of `visit_task`. -/
def visitFaults (tasks : List Task) : Graph.Faults Failure where
  cycle := fun position =>
    .invalid ("dependency cycle includes task `" ++ (tasks[position]?.elim "" (·.id)) ++ "`")
  missing := .panicked
  exhausted := .outOfFuel

theorem visitTask_eq_visit (tasks : List Task) (positions : Positions) (fuel index : Nat)
    (states : List VisitState) :
    visitTask tasks positions fuel index states =
      Graph.visit (dependencyGraph tasks positions) (visitFaults tasks) fuel index states := by
  induction fuel generalizing index states with
  | zero => rfl
  | succ fuel ih =>
      rw [visitTask, Graph.visit]
      cases present : states[index]? with
      | none => simp [visitFaults]
      | some mark =>
          cases found : tasks[index]? with
          | none => cases mark <;> simp [dependencyGraph, visitFaults, found]
          | some task =>
              cases mark with
              | visited => rfl
              | visiting => simp [dependencyGraph, visitFaults, found, invalid]
              | unvisited =>
                  have steps : (fun (states : List VisitState) (dependency : String) => (do
                      let next ← positionOf positions dependency
                      visitTask tasks positions fuel next states)) =
                      Graph.walkLabel (dependencyGraph tasks positions) (visitFaults tasks)
                        (Graph.visit (dependencyGraph tasks positions) (visitFaults tasks) fuel) := by
                    funext states dependency
                    simp only [Graph.walkLabel, dependencyGraph, positionOf, visitFaults]
                    cases positions.lookup dependency with
                    | none => rfl
                    | some next => exact ih next states
                  have labels : (dependencyGraph tasks positions).labels index =
                      some task.dependsOn := by simp [dependencyGraph, found]
                  rw [labels]
                  exact congrArg (fun step => (do
                    let walked ← task.dependsOn.foldlM step (states.set index .visiting)
                    .ok (walked.set index .visited))) steps

theorem validateAcyclic_eq_visitAll (tasks : List Task) (positions : Positions) :
    validateAcyclic tasks positions = (do
      let _ ← Graph.visitAll (dependencyGraph tasks positions) (visitFaults tasks) tasks.length
      .ok ()) := by
  simp only [validateAcyclic, Graph.visitAll, visitTask_eq_visit]

private theorem visitFaults_cycle_ne (tasks : List Task) (position : Nat) :
    (visitFaults tasks).cycle position ≠ (visitFaults tasks).exhausted := by
  simp [visitFaults, Failure.invalid]

private theorem visitFaults_missing_ne (tasks : List Task) :
    (visitFaults tasks).missing ≠ (visitFaults tasks).exhausted := by
  simp [visitFaults]

/-- `visit_task` returns on every list of tasks, from any marks and with any positions. -/
theorem visitTask_terminates (tasks : List Task) (positions : Positions) (index : Nat)
    (states : List VisitState) :
    visitTask tasks positions (states.length + 1) index states ≠ .error .outOfFuel := by
  rw [visitTask_eq_visit]
  exact Graph.visit_not_exhausted (visitFaults_cycle_ne tasks) (visitFaults_missing_ne tasks)
    (Nat.lt_succ_of_le (Graph.unreached_card_le states))

theorem validateAcyclic_terminates (tasks : List Task) (positions : Positions) :
    validateAcyclic tasks positions ≠ .error .outOfFuel := by
  rw [validateAcyclic_eq_visitAll]
  cases walk : Graph.visitAll (dependencyGraph tasks positions) (visitFaults tasks)
      tasks.length with
  | ok marks => simp
  | error error =>
      rw [error_bind]
      intro same
      cases same
      exact Graph.visitAll_not_exhausted (visitFaults_cycle_ne tasks)
        (visitFaults_missing_ne tasks) walk

/-! ## Lists whose identities are distinct and whose dependencies are declared -/

/-- The state of a task list once both loops before the acyclicity check have passed. -/
structure Declared (tasks : List Task) : Prop where
  unique : (tasks.map (·.id)).Nodup
  known : ∀ task ∈ tasks, ∀ dependency ∈ task.dependsOn, ∃ other ∈ tasks, other.id = dependency

section Declared

variable {tasks : List Task}

theorem Declared.lookup (declared : Declared tasks) {id : String} {position : Nat} :
    (declaredPositions tasks).lookup id = some position ↔
      ∃ task, tasks[position]? = some task ∧ task.id = id :=
  declaredPositions_lookup declared.unique

theorem Declared.resolves (declared : Declared tasks) {task : Task} (member : task ∈ tasks)
    {dependency : String} (recorded : dependency ∈ task.dependsOn) :
    ∃ position other, (declaredPositions tasks).lookup dependency = some position ∧
      tasks[position]? = some other ∧ other.id = dependency := by
  obtain ⟨other, inside, same⟩ := declared.known task member dependency recorded
  obtain ⟨position, found⟩ := List.getElem?_of_mem inside
  exact ⟨position, other, declared.lookup.mpr ⟨other, found, same⟩, found, same⟩

theorem Declared.closed (declared : Declared tasks) :
    (dependencyGraph tasks (declaredPositions tasks)).Closed tasks.length where
  defined := fun position => by simp [dependencyGraph]
  resolved := fun position labels found label member => by
    obtain ⟨task, present, rfl⟩ := Option.map_eq_some_iff.mp found
    obtain ⟨next, other, resolved, inside, _⟩ :=
      declared.resolves (List.mem_of_getElem? present) member
    exact ⟨next, (List.getElem?_eq_some_iff.mp inside).1, resolved⟩

theorem Declared.edge_iff (declared : Declared tasks) {source destination : Nat} :
    (dependencyGraph tasks (declaredPositions tasks)).Edge source destination ↔
      ∃ task other, tasks[source]? = some task ∧ tasks[destination]? = some other ∧
        other.id ∈ task.dependsOn := by
  constructor
  · rintro ⟨labels, found, label, member, resolved⟩
    obtain ⟨task, present, rfl⟩ := Option.map_eq_some_iff.mp found
    obtain ⟨other, inside, rfl⟩ := declared.lookup.mp resolved
    exact ⟨task, other, present, inside, member⟩
  · rintro ⟨task, other, present, inside, member⟩
    exact ⟨task.dependsOn, by simp [dependencyGraph, present], other.id, member,
      declared.lookup.mpr ⟨other, inside, rfl⟩⟩

private def idAt (tasks : List Task) (position : Nat) : String := tasks[position]?.elim "" (·.id)

private def positionAt (tasks : List Task) (id : String) : Nat :=
  ((declaredPositions tasks).lookup id).getD 0

private theorem idAt_of_getElem {position : Nat} {task : Task}
    (found : tasks[position]? = some task) : idAt tasks position = task.id := by
  simp [idAt, found]

private theorem Declared.positionAt_id (declared : Declared tasks) {position : Nat} {task : Task}
    (found : tasks[position]? = some task) : positionAt tasks task.id = position := by
  rw [positionAt, declared.lookup.mpr ⟨task, found, rfl⟩, Option.getD_some]

theorem Declared.path_iff (declared : Declared tasks) {source destination : Nat}
    {task other : Task} (found : tasks[source]? = some task)
    (foundOther : tasks[destination]? = some other) :
    TransGen (dependencyGraph tasks (declaredPositions tasks)).Edge source destination ↔
      TransGen (DependsOn tasks) task.id other.id := by
  constructor
  · intro path
    have lifted := path.lift (p := DependsOn tasks) (idAt tasks) (by
      intro left right edge
      obtain ⟨first, second, atLeft, atRight, recorded⟩ := declared.edge_iff.mp edge
      rw [Function.onFun, idAt_of_getElem atLeft, idAt_of_getElem atRight]
      exact ⟨first, List.mem_of_getElem? atLeft, rfl, recorded⟩)
    rwa [Function.onFun, idAt_of_getElem found, idAt_of_getElem foundOther] at lifted
  · intro chain
    have lifted := chain.lift (p := (dependencyGraph tasks (declaredPositions tasks)).Edge)
      (positionAt tasks) (by
        rintro left right ⟨first, member, rfl, recorded⟩
        obtain ⟨position, atFirst⟩ := List.getElem?_of_mem member
        obtain ⟨next, second, _, atSecond, rfl⟩ := declared.resolves member recorded
        rw [Function.onFun, declared.positionAt_id atFirst, declared.positionAt_id atSecond]
        exact declared.edge_iff.mpr ⟨first, second, atFirst, atSecond, recorded⟩)
    rwa [Function.onFun, declared.positionAt_id found, declared.positionAt_id foundOther] at lifted

private theorem Declared.chain_ends (declared : Declared tasks) {source destination : String}
    (chain : TransGen (DependsOn tasks) source destination) :
    (∃ task ∈ tasks, task.id = source) ∧ ∃ other ∈ tasks, other.id = destination := by
  constructor
  · obtain ⟨_, ⟨task, member, same, _⟩, _⟩ := TransGen.head'_iff.mp chain
    exact ⟨task, member, same⟩
  · obtain ⟨_, _, task, member, _, recorded⟩ := TransGen.tail'_iff.mp chain
    exact declared.known task member destination recorded

/-- The walk of `validate_acyclic` accepts exactly the acyclic lists. -/
theorem Declared.validateAcyclic_ok_iff (declared : Declared tasks) :
    validateAcyclic tasks (declaredPositions tasks) = .ok () ↔
      ∀ id, ¬ TransGen (DependsOn tasks) id id := by
  have walked : validateAcyclic tasks (declaredPositions tasks) = .ok () ↔
      (dependencyGraph tasks (declaredPositions tasks)).Acyclic := by
    rw [validateAcyclic_eq_visitAll, bind_ok_iff]
    simpa using Graph.visitAll_ok_iff declared.closed
  rw [walked]
  constructor
  · intro acyclic id cycle
    obtain ⟨⟨task, member, rfl⟩, _⟩ := declared.chain_ends cycle
    obtain ⟨position, found⟩ := List.getElem?_of_mem member
    exact acyclic position ((declared.path_iff found found).mpr cycle)
  · intro acyclic position cycle
    obtain ⟨next, edge, _⟩ := TransGen.head'_iff.mp cycle
    obtain ⟨task, _, found, _⟩ := declared.edge_iff.mp edge
    exact acyclic task.id ((declared.path_iff found found).mp cycle)

end Declared

/-! ## The transitive search -/

/-- What the search does with one declared position. -/
def inspectKind (expected : TaskKind) (tasks : List Task) (positions : Positions)
    (index : Nat) : Except Failure (Option (List Nat)) :=
  match tasks[index]? with
  | none => .error .panicked
  | some dependency =>
      if dependency.kind == expected then .ok none
      else do
        let next ← dependency.dependsOn.mapM (positionOf positions)
        .ok (some next)

theorem searchKind_eq_search (expected : TaskKind) (tasks : List Task) (positions : Positions)
    (fuel : Nat) (pending visited : List Nat) :
    searchKind expected tasks positions fuel pending visited =
      Graph.search (inspectKind expected tasks positions) .outOfFuel fuel pending visited := by
  induction fuel generalizing pending visited with
  | zero => rfl
  | succ fuel ih =>
      cases pending with
      | nil => rfl
      | cons index pending =>
          by_cases seen : index ∈ visited
          · rw [Graph.search_seen seen, searchKind, if_pos (by simpa using seen), ih]
          rw [Graph.search_unseen seen, searchKind, if_neg (by simpa using seen), inspectKind]
          cases found : tasks[index]? with
          | none => rfl
          | some dependency =>
              simp only
              by_cases same : dependency.kind == expected
              · simp [same]
              · simp only [same, Bool.false_eq_true, if_false]
                cases dependency.dependsOn.mapM (positionOf positions) with
                | error error => rfl
                | ok next => exact ih _ _

private theorem positionOf_ok_iff {positions : Positions} {dependency : String} {index : Nat} :
    positionOf positions dependency = .ok index ↔ positions.lookup dependency = some index := by
  rw [positionOf]
  cases positions.lookup dependency <;> simp

private theorem positionOf_ne_outOfFuel {positions : Positions} {dependency : String} :
    positionOf positions dependency ≠ .error .outOfFuel := by
  rw [positionOf]
  cases positions.lookup dependency <;> simp

private theorem positions_ne_outOfFuel {positions : Positions} {dependencies : List String} :
    dependencies.mapM (positionOf positions) ≠ .error .outOfFuel := by
  intro failed
  obtain ⟨dependency, _, failure⟩ := mapM_error failed
  exact positionOf_ne_outOfFuel failure

/-- The number of recorded dependencies of the task at a position. -/
private def dependencyCount (tasks : List Task) (index : Nat) : Nat :=
  tasks[index]?.elim 0 fun task => task.dependsOn.length

private theorem dependencyCount_sum (tasks : List Task) :
    ∑ index ∈ Finset.range tasks.length, dependencyCount tasks index =
      tasks.foldr (fun task total => task.dependsOn.length + total) 0 := by
  induction tasks with
  | nil => rfl
  | cons task rest ih =>
      rw [List.length_cons, Finset.sum_range_succ', List.foldr_cons, ← ih, add_comm]
      rfl

private theorem inspectKind_some {expected : TaskKind} {tasks : List Task} {positions : Positions}
    {index : Nat} {next : List Nat}
    (inspected : inspectKind expected tasks positions index = .ok (some next)) :
    ∃ task, tasks[index]? = some task ∧ task.kind ≠ expected ∧
      task.dependsOn.mapM (positionOf positions) = .ok next := by
  rw [inspectKind] at inspected
  cases found : tasks[index]? with
  | none => simp [found] at inspected
  | some task =>
      by_cases same : task.kind = expected
      · simp [found, same] at inspected
      · simp only [found, beq_iff_eq, same, if_false] at inspected
        obtain ⟨others, mapped, rest⟩ := bind_ok_iff.mp inspected
        cases rest
        exact ⟨task, rfl, same, mapped⟩

private theorem inspectKind_bounded (expected : TaskKind) (tasks : List Task)
    (positions : Positions) (index : Nat) (next : List Nat)
    (inspected : inspectKind expected tasks positions index = .ok (some next)) :
    index ∈ Finset.range tasks.length ∧ next.length ≤ dependencyCount tasks index := by
  obtain ⟨task, found, _, mapped⟩ := inspectKind_some inspected
  refine ⟨by simpa using (List.getElem?_eq_some_iff.mp found).1, ?_⟩
  simp [dependencyCount, found, mapM_ok_length mapped]

private theorem inspectKind_ne_outOfFuel (expected : TaskKind) (tasks : List Task)
    (positions : Positions) (index : Nat) :
    inspectKind expected tasks positions index ≠ .error .outOfFuel := by
  rw [inspectKind]
  cases tasks[index]? with
  | none => simp
  | some task =>
      simp only
      split
      · simp
      · cases mapped : task.dependsOn.mapM (positionOf positions) with
        | ok next => simp
        | error error =>
            rw [error_bind]
            intro same
            cases same
            exact positions_ne_outOfFuel mapped

private theorem searchFuel_enough (task : Task) (tasks : List Task) {pending : List Nat}
    (length : pending.length = task.dependsOn.length) :
    Graph.remaining (Finset.range tasks.length) (dependencyCount tasks) pending.reverse [] <
      searchFuel task tasks := by
  simp only [Graph.remaining, List.not_mem_nil, not_false_eq_true, Finset.filter_true,
    dependencyCount_sum, List.length_reverse, length, searchFuel]
  omega

/-- `has_transitive_dependency_of_kind` returns on every list, with any positions. -/
theorem hasTransitiveDependencyOfKind_terminates (task : Task) (expected : TaskKind)
    (tasks : List Task) (positions : Positions) :
    hasTransitiveDependencyOfKind task expected tasks positions ≠ .error .outOfFuel := by
  rw [hasTransitiveDependencyOfKind]
  cases mapped : task.dependsOn.mapM (positionOf positions) with
  | error error =>
      rw [error_bind]
      intro same
      cases same
      exact positions_ne_outOfFuel mapped
  | ok pending =>
      rw [ok_bind, searchKind_eq_search]
      exact Graph.search_not_exhausted (inspectKind_bounded expected tasks positions)
        (inspectKind_ne_outOfFuel expected tasks positions)
        (searchFuel_enough task tasks (mapM_ok_length mapped))

section Search

variable {tasks : List Task}

private theorem Declared.positions_total (declared : Declared tasks) {task : Task}
    (member : task ∈ tasks) :
    ∃ next, task.dependsOn.mapM (positionOf (declaredPositions tasks)) = .ok next :=
  mapM_total fun _ recorded =>
    have ⟨position, _, found, _⟩ := declared.resolves member recorded
    ⟨position, positionOf_ok_iff.mpr found⟩

private theorem Declared.mem_positions (declared : Declared tasks) {task : Task} {next : List Nat}
    (mapped : task.dependsOn.mapM (positionOf (declaredPositions tasks)) = .ok next)
    (position : Nat) :
    position ∈ next ↔ ∃ other, tasks[position]? = some other ∧ other.id ∈ task.dependsOn := by
  simp only [mem_of_mapM_ok mapped, positionOf_ok_iff, declared.lookup]
  constructor
  · rintro ⟨_, recorded, other, found, rfl⟩
    exact ⟨other, found, recorded⟩
  · rintro ⟨other, found, recorded⟩
    exact ⟨other.id, recorded, other, found, rfl⟩

private theorem Declared.inspect_total (declared : Declared tasks) (expected : TaskKind)
    (index : Nat) (inside : index ∈ Finset.range tasks.length) :
    ∃ answer, inspectKind expected tasks (declaredPositions tasks) index = .ok answer ∧
      ∀ next, answer = some next → ∀ target ∈ next, target ∈ Finset.range tasks.length := by
  obtain ⟨task, found⟩ : ∃ task, tasks[index]? = some task :=
    ⟨_, List.getElem?_eq_getElem (Finset.mem_range.mp inside)⟩
  by_cases same : task.kind = expected
  · exact ⟨none, by simp [inspectKind, found, same], by simp⟩
  · obtain ⟨next, mapped⟩ := declared.positions_total (List.mem_of_getElem? found)
    refine ⟨some next, by simp [inspectKind, found, same, mapped], fun others same target member => ?_⟩
    cases same
    obtain ⟨other, atTarget, _⟩ := (declared.mem_positions mapped target).mp member
    simpa using (List.getElem?_eq_some_iff.mp atTarget).1

private theorem Declared.goal_iff (declared : Declared tasks) {expected : TaskKind} {index : Nat}
    {task : Task} (found : tasks[index]? = some task) :
    Graph.Goal (inspectKind expected tasks (declaredPositions tasks)) index ↔
      task.kind = expected := by
  obtain ⟨next, mapped⟩ := declared.positions_total (List.mem_of_getElem? found)
  by_cases same : task.kind = expected
  · simp [Graph.Goal, inspectKind, found, same]
  · simp [Graph.Goal, inspectKind, found, same, mapped]

/-- The search follows edges, and every edge out of a task of another kind. -/
private theorem Declared.edge_of_leads (declared : Declared tasks) {expected : TaskKind}
    {left right : Nat}
    (leads : Graph.Leads (inspectKind expected tasks (declaredPositions tasks)) left right) :
    (dependencyGraph tasks (declaredPositions tasks)).Edge left right := by
  obtain ⟨next, inspected, target⟩ := leads
  obtain ⟨task, found, _, mapped⟩ := inspectKind_some inspected
  obtain ⟨other, atRight, recorded⟩ := (declared.mem_positions mapped right).mp target
  exact declared.edge_iff.mpr ⟨task, other, found, atRight, recorded⟩

private theorem Declared.expands (declared : Declared tasks) (expected : TaskKind)
    (left right : Nat)
    (edge : (dependencyGraph tasks (declaredPositions tasks)).Edge left right) :
    Graph.Goal (inspectKind expected tasks (declaredPositions tasks)) left ∨
      Graph.Leads (inspectKind expected tasks (declaredPositions tasks)) left right := by
  obtain ⟨task, other, found, atRight, recorded⟩ := declared.edge_iff.mp edge
  by_cases same : task.kind = expected
  · exact .inl ((declared.goal_iff found).mpr same)
  · obtain ⟨next, mapped⟩ := declared.positions_total (List.mem_of_getElem? found)
    refine .inr ⟨next, by simp [inspectKind, found, same, mapped], ?_⟩
    exact (declared.mem_positions mapped right).mpr ⟨other, atRight, recorded⟩

/-- From a task's dependencies the search reaches a goal exactly when some task of the
expected kind is a transitive dependency. -/
private theorem Declared.goalReachable_iff (declared : Declared tasks) {task : Task}
    (member : task ∈ tasks) (expected : TaskKind) {pending : List Nat}
    (mapped : task.dependsOn.mapM (positionOf (declaredPositions tasks)) = .ok pending) :
    Graph.GoalReachable (inspectKind expected tasks (declaredPositions tasks)) pending.reverse ↔
      ∃ other ∈ tasks, other.kind = expected ∧
        TransGen (DependsOn tasks) task.id other.id := by
  obtain ⟨start, atStart⟩ := List.getElem?_of_mem member
  constructor
  · rintro ⟨first, firstMember, goal, path, accepted⟩
    obtain ⟨firstTask, atFirst, recorded⟩ :=
      (declared.mem_positions mapped first).mp (List.mem_reverse.mp firstMember)
    have edges : ReflTransGen (dependencyGraph tasks (declaredPositions tasks)).Edge first goal :=
      path.mono (fun _ _ leads => declared.edge_of_leads leads) first goal
    have whole : TransGen (dependencyGraph tasks (declaredPositions tasks)).Edge start goal :=
      TransGen.head' (declared.edge_iff.mpr ⟨task, firstTask, atStart, atFirst, recorded⟩) edges
    obtain ⟨_, edge⟩ := TransGen.tail'_iff.mp whole
    obtain ⟨_, other, _, atGoal, _⟩ := declared.edge_iff.mp edge.2
    exact ⟨other, List.mem_of_getElem? atGoal, (declared.goal_iff atGoal).mp accepted,
      (declared.path_iff atStart atGoal).mp whole⟩
  · rintro ⟨other, otherMember, kind, chain⟩
    obtain ⟨destination, atOther⟩ := List.getElem?_of_mem otherMember
    have path := (declared.path_iff atStart atOther).mpr chain
    obtain ⟨first, edge, rest⟩ := TransGen.head'_iff.mp path
    obtain ⟨origin, firstTask, atOrigin, atFirst, recorded⟩ := declared.edge_iff.mp edge
    rw [atStart] at atOrigin
    cases atOrigin
    obtain ⟨goal, leads, accepted⟩ := Graph.exists_goal_of_path (declared.expands expected) rest
      ((declared.goal_iff atOther).mpr kind)
    exact ⟨first,
      List.mem_reverse.mpr ((declared.mem_positions mapped first).mpr ⟨firstTask, atFirst, recorded⟩),
      goal, leads, accepted⟩

theorem Declared.hasTransitiveDependencyOfKind_iff (declared : Declared tasks) {task : Task}
    (member : task ∈ tasks) (expected : TaskKind) :
    ∃ found, hasTransitiveDependencyOfKind task expected tasks (declaredPositions tasks) =
        .ok found ∧
      (found = true ↔
        ∃ other ∈ tasks, other.kind = expected ∧
          TransGen (DependsOn tasks) task.id other.id) := by
  obtain ⟨pending, mapped⟩ := declared.positions_total member
  have inside : ∀ position ∈ pending.reverse, position ∈ Finset.range tasks.length := by
    intro position present
    obtain ⟨other, found, _⟩ :=
      (declared.mem_positions mapped position).mp (List.mem_reverse.mp present)
    simpa using (List.getElem?_eq_some_iff.mp found).1
  obtain ⟨found, finished⟩ : ∃ found,
      Graph.search (inspectKind expected tasks (declaredPositions tasks)) Failure.outOfFuel
        (searchFuel task tasks) pending.reverse [] = .ok found := Graph.search_total
    (inspectKind_bounded expected tasks (declaredPositions tasks))
    (declared.inspect_total expected) inside
    (searchFuel_enough task tasks (mapM_ok_length mapped))
  refine ⟨found, ?_, ?_⟩
  · rw [hasTransitiveDependencyOfKind, mapped, ok_bind, searchKind_eq_search, finished]
  · rw [Graph.search_ok_iff finished, declared.goalReachable_iff member expected mapped]

theorem Declared.validateLifecycleDependencies_ok_iff (declared : Declared tasks) {task : Task}
    (member : task ∈ tasks) :
    validateLifecycleDependencies task tasks (declaredPositions tasks) = .ok () ↔
      ∀ kind, requiredPredecessor task.kind = some kind →
        ∃ other ∈ tasks, other.kind = kind ∧
          TransGen (DependsOn tasks) task.id other.id := by
  rw [validateLifecycleDependencies]
  cases required : requiredPredecessor task.kind with
  | none => simp
  | some predecessor =>
      obtain ⟨found, searched, exactly⟩ :=
        declared.hasTransitiveDependencyOfKind_iff member predecessor
      simp only [searched, ok_bind, require, ensure_ok_iff, exactly, Option.some.injEq,
        forall_eq']

end Search

/-! ## The whole of `validate_tasks` -/

private theorem validateKnownDependencies_ok_iff {positions : Positions} {task : Task} :
    validateKnownDependencies positions task = .ok () ↔
      ∀ dependency ∈ task.dependsOn, dependency ≠ task.id ∧
        ∃ position, positions.lookup dependency = some position := by
  simp only [validateKnownDependencies, checkAll_ok_iff, bind_unit_ok_iff, require, ensure_ok_iff,
    bne_iff_ne, Option.isSome_iff_exists]

private theorem Declared.order_ok_iff {tasks : List Task} (declared : Declared tasks)
    (position : Nat) (task : Task) :
    (checkAll (fun dependency => do
        let index ← positionOf (declaredPositions tasks) dependency
        require (index < position)
          ("task `" ++ task.id ++ "` must depend only on an earlier declared task"))
      task.dependsOn = .ok ()) ↔
      ∀ dependency ∈ task.dependsOn, ∃ other ∈ tasks.take position, other.id = dependency := by
  simp only [checkAll_ok_iff, bind_ok_iff, positionOf_ok_iff, require, ensure_ok_iff,
    decide_eq_true_eq]
  refine forall_congr' fun dependency => forall_congr' fun recorded => ?_
  constructor
  · rintro ⟨index, resolved, small⟩
    obtain ⟨other, inside, same⟩ := declared.lookup.mp resolved
    exact ⟨other, List.mem_of_getElem? (by rwa [List.getElem?_take_of_lt small]), same⟩
  · rintro ⟨other, inside, same⟩
    obtain ⟨index, atIndex⟩ := List.getElem?_of_mem inside
    have small : index < position := by
      have := (List.getElem?_eq_some_iff.mp atIndex).1
      simp only [List.length_take] at this
      omega
    rw [List.getElem?_take_of_lt small] at atIndex
    exact ⟨index, declared.lookup.mpr ⟨other, atIndex, same⟩, small⟩

theorem SoundDependencies.declared {tasks : List Task} (sound : SoundDependencies tasks) :
    Declared tasks where
  unique := sound.unique
  known := fun task member dependency recorded => by
    obtain ⟨position, found⟩ := List.getElem?_of_mem member
    obtain ⟨other, inside, same⟩ := sound.earlier position task found dependency recorded
    exact ⟨other, List.mem_of_mem_take inside, same⟩

/-- Past its first two loops, `validate_tasks` checks exactly the remaining conditions. -/
private theorem Declared.rest_ok_iff {tasks : List Task} (declared : Declared tasks) :
    (validateAcyclic tasks (declaredPositions tasks) = .ok () ∧
      checkAll (validateOrderAndLifecycle tasks (declaredPositions tasks)) tasks.zipIdx = .ok ()) ↔
      SoundDependencies tasks := by
  rw [declared.validateAcyclic_ok_iff, checkAll_ok_iff]
  have entry : ∀ position task, tasks[position]? = some task →
      (validateOrderAndLifecycle tasks (declaredPositions tasks) (task, position) = .ok () ↔
        (∀ dependency ∈ task.dependsOn, ∃ other ∈ tasks.take position, other.id = dependency) ∧
        ∀ kind, requiredPredecessor task.kind = some kind →
          ∃ other ∈ tasks, other.kind = kind ∧
            TransGen (DependsOn tasks) task.id other.id) := by
    intro position task found
    rw [validateOrderAndLifecycle, bind_unit_ok_iff, declared.order_ok_iff,
      declared.validateLifecycleDependencies_ok_iff (List.mem_of_getElem? found)]
  constructor
  · rintro ⟨acyclic, checked⟩
    refine soundDependencies_of_lifecycle declared.unique (fun position task found => ?_) acyclic
      fun task member => ?_
    · exact ((entry position task found).mp
        (checked (task, position) (List.mk_mem_zipIdx_iff_getElem?.mpr found))).1
    · obtain ⟨position, found⟩ := List.getElem?_of_mem member
      exact ((entry position task found).mp
        (checked (task, position) (List.mk_mem_zipIdx_iff_getElem?.mpr found))).2
  · intro sound
    refine ⟨sound.acyclic, ?_⟩
    rintro ⟨task, position⟩ member
    have found := List.mk_mem_zipIdx_iff_getElem?.mp member
    exact (entry position task found).mpr
      ⟨sound.earlier position task found, sound.lifecycle task (List.mem_of_getElem? found)⟩

private theorem SoundDependencies.ne_self {tasks : List Task} (sound : SoundDependencies tasks)
    {task : Task} (member : task ∈ tasks) {dependency : String}
    (recorded : dependency ∈ task.dependsOn) : dependency ≠ task.id := by
  rintro rfl
  exact sound.acyclic task.id (.single ⟨task, member, rfl, recorded⟩)

theorem validateTasks_ok_iff {setOrder : Bool} {tasks : List Task} :
    validateTasks setOrder tasks = .ok () ↔
      (∀ task ∈ tasks, validateTask setOrder task = .ok ()) ∧ SoundDependencies tasks := by
  rw [validateTasks, bind_ok_iff]
  simp only [collectPositions_ok_iff, bind_unit_ok_iff, List.append_nil, List.lookup_nil,
    implies_true, true_and]
  constructor
  · rintro ⟨_, ⟨valid, unique, rfl⟩, known, rest⟩
    refine ⟨valid, Declared.rest_ok_iff ⟨unique, fun task member dependency recorded => ?_⟩ |>.mp
      rest⟩
    obtain ⟨_, position, found⟩ :=
      validateKnownDependencies_ok_iff.mp (checkAll_ok_iff.mp known task member) dependency recorded
    obtain ⟨other, inside, same⟩ := (declaredPositions_lookup unique).mp found
    exact ⟨other, List.mem_of_getElem? inside, same⟩
  · rintro ⟨valid, sound⟩
    have declared := sound.declared
    refine ⟨declaredPositions tasks, ⟨valid, sound.unique, rfl⟩, ?_, declared.rest_ok_iff.mpr sound⟩
    refine checkAll_ok_iff.mpr fun task member => validateKnownDependencies_ok_iff.mpr
      fun dependency recorded => ⟨sound.ne_self member recorded, ?_⟩
    obtain ⟨position, _, found, _⟩ := declared.resolves member recorded
    exact ⟨position, found⟩

/-! ## Failures of the dependency part -/

private theorem collectPositions_reported (setOrder : Bool) (index : Nat) (tasks : List Task)
    (positions : Positions) : Reported (collectPositions setOrder index tasks positions) := by
  induction tasks generalizing index positions with
  | nil => exact .ok _
  | cons task rest ih =>
      exact .andThen (validateTask_reported _ _) (.andThen (.require _ _) (ih _ _))

private theorem Declared.validateAcyclic_reported {tasks : List Task} (declared : Declared tasks) :
    Reported (validateAcyclic tasks (declaredPositions tasks)) := by
  rw [validateAcyclic_eq_visitAll]
  refine .bind (fun failure failed => ?_) fun _ _ => .ok ()
  rcases Graph.visitAll_error declared.closed failed with rfl | ⟨position, rfl⟩
  · exact absurd failed (Graph.visitAll_not_exhausted (visitFaults_cycle_ne tasks)
      (visitFaults_missing_ne tasks))
  · exact ⟨_, rfl⟩

private theorem Declared.validateOrderAndLifecycle_reported {tasks : List Task}
    (declared : Declared tasks) {task : Task} (member : task ∈ tasks) (position : Nat) :
    Reported (validateOrderAndLifecycle tasks (declaredPositions tasks) (task, position)) := by
  refine .andThen (.checkAll fun dependency recorded => ?_) ?_
  · obtain ⟨index, _, found, _⟩ := declared.resolves member recorded
    simp only [positionOf_ok_iff.mpr found, ok_bind]
    exact .require _ _
  · rw [validateLifecycleDependencies]
    split
    · exact .ok ()
    · next predecessor _ =>
        obtain ⟨found, searched, _⟩ := declared.hasTransitiveDependencyOfKind_iff member predecessor
        rw [searched]
        exact .require _ _

/-- `validate_tasks` returns on every list: it accepts it or reports an error. -/
theorem validateTasks_reported (setOrder : Bool) (tasks : List Task) :
    Reported (validateTasks setOrder tasks) := by
  refine .bind (collectPositions_reported _ _ _ _) fun positions collected => ?_
  obtain ⟨_, unique, _, rfl⟩ := collectPositions_ok_iff.mp collected
  rw [List.append_nil]
  refine .bind (.checkAll fun task _ => .checkAll fun _ _ => .andThen (.require _ _) (.require _ _))
    fun _ known => ?_
  have declared : Declared tasks := ⟨unique, fun task member dependency recorded => by
    obtain ⟨_, position, found⟩ :=
      validateKnownDependencies_ok_iff.mp (checkAll_ok_iff.mp known task member) dependency recorded
    obtain ⟨other, inside, same⟩ := (declaredPositions_lookup unique).mp found
    exact ⟨other, List.mem_of_getElem? inside, same⟩⟩
  refine .andThen declared.validateAcyclic_reported (.checkAll fun entry member => ?_)
  exact declared.validateOrderAndLifecycle_reported
    (List.mem_of_getElem? (List.mem_zipIdx_iff_getElem?.mp member)) entry.2

/-- Task-graph validation is exact, and both of its recursions end on every list. -/
theorem validateTasks_exact (setOrder : Bool) (tasks : List Task) :
    (validateTasks setOrder tasks = .ok () ↔
      (∀ task ∈ tasks, validateTask setOrder task = .ok ()) ∧ SoundDependencies tasks) ∧
    Reported (validateTasks setOrder tasks) ∧
    (∀ positions index states,
      visitTask tasks positions (states.length + 1) index states ≠ .error .outOfFuel) ∧
    (∀ positions, validateAcyclic tasks positions ≠ .error .outOfFuel) ∧
    (∀ task expected positions,
      hasTransitiveDependencyOfKind task expected tasks positions ≠ .error .outOfFuel) :=
  ⟨validateTasks_ok_iff, validateTasks_reported setOrder tasks, visitTask_terminates tasks,
    validateAcyclic_terminates tasks,
    fun task expected => hasTransitiveDependencyOfKind_terminates task expected tasks⟩

end Kvist.Queue
