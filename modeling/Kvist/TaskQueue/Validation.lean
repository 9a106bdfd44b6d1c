import Kvist.Outcome
import Kvist.Graph.DepthFirst
import Kvist.TaskQueue.Basic

/-!
# Semantic validation

`validate` and the checks it is made of. The two loops of the dependency checks
(`visitTask` and `hasTransitiveDependencyOfKind`) take a bound on their number of steps;
`Kvist.TaskQueue.GraphProperties` shows that the bounds given here are never reached.
-/

set_option autoImplicit false

namespace Kvist.Queue

open Text

def invalid {α : Type} (reason : String) : Except Failure α := .error (.invalid reason)

def require (condition : Bool) (reason : String) : Except Failure Unit :=
  ensure condition (.invalid reason)

def isAsciiDigit (character : Char) : Bool := '0' ≤ character && character ≤ '9'

theorem digit_bounds {character : Char} (digit : isAsciiDigit character = true) :
    '0'.toNat ≤ character.toNat ∧ character.toNat ≤ '9'.toNat := by
  rw [isAsciiDigit, Bool.and_eq_true, decide_eq_true_eq, decide_eq_true_eq] at digit
  exact digit

def isAsciiLowercase (character : Char) : Bool := 'a' ≤ character && character ≤ 'z'

def isLowerHex (character : Char) : Bool :=
  isAsciiDigit character || ('a' ≤ character && character ≤ 'f')

def decimal (digits : List Char) : Nat :=
  digits.foldl (fun value digit => value * 10 + (digit.toNat - '0'.toNat)) 0

def isLeapYear (year : Nat) : Bool :=
  year % 400 == 0 || (year % 4 == 0 && year % 100 != 0)

def daysInMonth (year month : Nat) : Nat :=
  match month with
  | 1 | 3 | 5 | 7 | 8 | 10 | 12 => 31
  | 4 | 6 | 9 | 11 => 30
  | 2 => if isLeapYear year then 29 else 28
  | _ => 0

/-- The 20-byte layout of an instant. All twenty bytes are ASCII when it holds, so the
characters stand for the bytes. -/
def hasInstantLayout (value : List Char) : Bool :=
  value.length == 20 && value[4]? == some '-' && value[7]? == some '-' &&
    value[10]? == some 'T' && value[13]? == some ':' && value[16]? == some ':' &&
    value[19]? == some 'Z' &&
    value.zipIdx.all fun entry =>
      [4, 7, 10, 13, 16, 19].contains entry.2 || isAsciiDigit entry.1

def field (value : List Char) (start stop : Nat) : Nat :=
  decimal ((value.drop start).take (stop - start))

/-- `Timestamp::validate`. -/
def Timestamp.validate (timestamp : Timestamp) (name : String) : Except Failure Unit := do
  let value := timestamp.value.toList
  require (hasInstantLayout value)
    ("`" ++ name ++ "` must be a UTC RFC 3339 instant with whole seconds")
  let year := field value 0 4
  let month := field value 5 7
  let day := field value 8 10
  require (year != 0 && (1 ≤ month && month ≤ 12) && day != 0 && day ≤ daysInMonth year month &&
      field value 11 13 ≤ 23 && field value 14 16 ≤ 59 && field value 17 19 ≤ 59)
    ("`" ++ name ++ "` is not a real UTC calendar instant")

def validateRevision (value name : String) : Except Failure Unit :=
  match stripLeading sha256Prefix.toList value.toList with
  | none => invalid ("`" ++ name ++ "` must start with `" ++ sha256Prefix ++ "`")
  | some hex =>
      require (hex.length == sha256HexLength && hex.all isLowerHex)
        ("`" ++ name ++ "` must contain 64 lowercase hexadecimal digits")

/-- A path component of `std::path::Path` on Unix. -/
inductive PathComponent where
  | rootDir
  | curDir
  | parentDir
  | normal (name : List Char)
  deriving DecidableEq, Repr

/-- `Path::components`: empty pieces and inner `.` pieces are dropped, a leading `.` is kept. -/
def pathComponents (value : List Char) : List PathComponent :=
  let pieces := value.splitOn '/'
  let component (piece : List Char) : Option PathComponent :=
    if piece = [] ∨ piece = ['.'] then none
    else if piece = ['.', '.'] then some .parentDir
    else some (.normal piece)
  let leading :=
    if value.head? = some '/' then [PathComponent.rootDir]
    else if pieces.head? = some ['.'] then [.curDir] else []
  leading ++ pieces.filterMap component

def isParentContractPath (value : String) : Bool :=
  let components := pathComponents value.toList
  let rest := components.dropWhile (· == .parentDir)
  rest.length < components.length && rest == [.normal "CONTRACT.md".toList]

def validateCause (entry : StalenessCause × Nat) : Except Failure Unit := do
  let cause := entry.1
  let location := "component.revalidation.causes[" ++ toString entry.2 ++ "]"
  require (cause.path != "") ("`" ++ location ++ ".path` must not be empty")
  validateRevision cause.expectedRevision (location ++ ".expected_revision")
  validateRevision cause.observedRevision (location ++ ".observed_revision")
  require (cause.expectedRevision != cause.observedRevision)
    ("`" ++ location ++ "` must record different expected and observed revisions")

def validateParentContract (parent : ParentContract) : Except Failure Unit := do
  require (isParentContractPath parent.path)
    ("`component.parent_contract.path` must contain one or more `..` segments followed by " ++
      "`CONTRACT.md`")
  validateRevision parent.revision "component.parent_contract.revision"

/-- The part of `validate_component` that depends on the revalidation state. -/
def validateRevalidationState (revalidation : Revalidation) : Except Failure Unit :=
  match revalidation.state with
  | .current =>
      require (revalidation.staleSince.isNone && revalidation.causes.isEmpty)
        "current revalidation state requires `stale_since: null` and `causes: []`"
  | .stale =>
      match revalidation.staleSince with
      | none => invalid "stale revalidation state requires `stale_since`"
      | some staleSince => do
          staleSince.validate "component.revalidation.stale_since"
          require (!revalidation.checkedAt.before staleSince)
            "`component.revalidation.stale_since` must not be later than `checked_at`"
          require (!revalidation.causes.isEmpty)
            "stale revalidation state requires at least one cause"

def validateComponent (component : ComponentState) : Except Failure Unit := do
  validateRevision component.requirementsRevision "component.requirements_revision"
  validateRevision component.contractRevision "component.contract_revision"
  validateRevision component.designRevision "component.design_revision"
  match component.parentContract with
  | some parent => validateParentContract parent
  | none => .ok ()
  component.revalidation.checkedAt.validate "component.revalidation.checked_at"
  validateRevalidationState component.revalidation
  checkAll validateCause component.revalidation.causes.zipIdx

def validTaskId (value : String) : Bool :=
  let characters := value.toList
  characters != [] && characters.length ≤ maxTaskIdChars && characters.head? != some '-' &&
    characters.getLast? != some '-' &&
    characters.all (fun character =>
      isAsciiLowercase character || isAsciiDigit character || character == '-') &&
    !containsText ['-', '-'] characters

def validAttemptId (value : String) : Bool :=
  match stripLeading "attempt-".toList value.toList with
  | none => false
  | some number => number.length == 4 && number.all isAsciiDigit

def validateText (value name : String) (maximumChars : Nat) (singleLine : Bool) :
    Except Failure Unit :=
  require (!isBlank value && value == trim value && value.toList.length ≤ maximumChars &&
      !(singleLine && value.toList.any fun character => character == '\n' || character == '\r'))
    ("`" ++ name ++ "` must be nonblank, trimmed" ++ (if singleLine then ", one line" else "") ++
      " and at most " ++ toString maximumChars ++ " characters")

/-- `values.windows(2).any(|pair| pair[0] >= pair[1])`, negated. -/
def isStrictlySorted : List String → Bool
  | first :: second :: rest => first < second && isStrictlySorted (second :: rest)
  | _ => true

def validateSortedUnique (values : List String) (name : String) : Except Failure Unit := do
  require (!values.any isBlank) ("`" ++ name ++ "` entries must be nonblank")
  require (isStrictlySorted values)
    ("`" ++ name ++ "` must be lexically sorted and duplicate-free")

def validateRequirement (taskId requirement : String) : Except Failure Unit :=
  match splitOnce '#' requirement.toList with
  | none =>
      invalid ("task `" ++ taskId ++ "` requirement `" ++ requirement ++
        "` must contain a source and `#` locator")
  | some (source, locator) =>
      require (trimList source != [] && trimList locator != [])
        ("task `" ++ taskId ++ "` requirement `" ++ requirement ++
          "` must have nonblank source and locator")

def validateTimestamps (task : Task) : Except Failure Unit := do
  task.timestamps.createdAt.validate ("task `" ++ task.id ++ "` timestamps.created_at")
  task.timestamps.updatedAt.validate ("task `" ++ task.id ++ "` timestamps.updated_at")
  require (!task.timestamps.updatedAt.before task.timestamps.createdAt)
    ("task `" ++ task.id ++ "` updated_at must not precede created_at")

def validateCompletion (task : Task) : Except Failure Unit :=
  match task.status, task.timestamps.completedAt with
  | .completed, some completedAt => do
      completedAt.validate ("task `" ++ task.id ++ "` timestamps.completed_at")
      require (!completedAt.before task.timestamps.updatedAt)
        ("task `" ++ task.id ++ "` completed_at must not precede updated_at")
  | .completed, none =>
      require task.timestamps.recovered
        ("completed task `" ++ task.id ++ "` requires timestamps.completed_at")
  | _, some _ =>
      invalid ("non-completed task `" ++ task.id ++ "` requires timestamps.completed_at: null")
  | _, none => .ok ()

def TaskStatus.isPaused : TaskStatus → Bool
  | .blocked | .awaitingDecision => true
  | _ => false

def validateBlockedReason (task : Task) : Except Failure Unit :=
  match task.status.isPaused, task.blockedReason with
  | true, some reason =>
      require (!isBlank reason)
        (taskStatusName task.status ++ " task `" ++ task.id ++
          "` requires a nonblank blocked_reason")
  | true, none =>
      invalid (taskStatusName task.status ++ " task `" ++ task.id ++
        "` requires a nonblank blocked_reason")
  | false, none => .ok ()
  | false, some _ =>
      invalid (taskStatusName task.status ++ " task `" ++ task.id ++
        "` requires blocked_reason: null")

def validateRecoveryState (task : Task) : Except Failure Unit :=
  match task.status, task.recoveryState with
  | .inProgress, some recovery => do
      require (recovery.state == .fenced)
        ("in-progress task `" ++ task.id ++ "` has an unsupported recovery state")
      require (validAttemptId recovery.attemptId)
        ("in-progress task `" ++ task.id ++ "` recovery attempt ID `" ++ recovery.attemptId ++
          "` must use the bounded `attempt-NNNN` form")
      validateText recovery.reason "recovery_state.reason" maxDetailChars false
  | _, some _ =>
      invalid (taskStatusName task.status ++ " task `" ++ task.id ++
        "` requires recovery_state: null")
  | _, none => .ok ()

/-- `validate_task`. -/
def validateTask (validateSetOrder : Bool) (task : Task) : Except Failure Unit := do
  require (validTaskId task.id)
    ("task ID `" ++ task.id ++ "` must be 1-64 lowercase kebab-case characters")
  validateText task.title "title" maxTitleChars true
  checkAll (fun entry => validateText entry.2 entry.1 maxDetailChars false)
    [("description", task.description), ("context", task.context), ("purpose", task.purpose),
      ("expected_outcome", task.expectedOutcome)]
  if validateSetOrder then do
    validateSortedUnique task.dependsOn "depends_on"
    validateSortedUnique task.requirements "requirements"
  checkAll (validateRequirement task.id) task.requirements
  validateTimestamps task
  validateCompletion task
  validateBlockedReason task
  validateRecoveryState task

/-- The `BTreeMap` from task identities to declared positions. -/
abbrev Positions := List (String × Nat)

/-- `positions[dependency]`, which panics on an absent key. -/
def positionOf (positions : Positions) (dependency : String) : Except Failure Nat :=
  match positions.lookup dependency with
  | some index => .ok index
  | none => .error .panicked

/-- The first loop of `validate_tasks`: local checks and distinct identities. -/
def collectPositions (validateSetOrder : Bool) :
    Nat → List Task → Positions → Except Failure Positions
  | _, [], positions => .ok positions
  | index, task :: rest, positions => do
      validateTask validateSetOrder task
      require (positions.lookup task.id).isNone ("duplicate task ID `" ++ task.id ++ "`")
      collectPositions validateSetOrder (index + 1) rest ((task.id, index) :: positions)

def validateKnownDependencies (positions : Positions) (task : Task) : Except Failure Unit :=
  checkAll (fun dependency => do
    require (dependency != task.id) ("task `" ++ task.id ++ "` cannot depend on itself")
    require (positions.lookup dependency).isSome
      ("task `" ++ task.id ++ "` depends on unknown task `" ++ dependency ++ "`")) task.dependsOn

/-- `VisitState`: unvisited, visiting or visited. -/
abbrev VisitState := Graph.Mark

/-- `visit_task`: `fuel` bounds the depth of the recursion. -/
def visitTask (tasks : List Task) (positions : Positions) :
    Nat → Nat → List VisitState → Except Failure (List VisitState)
  | 0, _, _ => .error .outOfFuel
  | fuel + 1, index, states =>
      match states[index]?, tasks[index]? with
      | some .visited, _ => .ok states
      | some .visiting, some task =>
          invalid ("dependency cycle includes task `" ++ task.id ++ "`")
      | some .unvisited, some task => do
          let states ← task.dependsOn.foldlM (fun states dependency => do
            let next ← positionOf positions dependency
            visitTask tasks positions fuel next states) (states.set index .visiting)
          .ok (states.set index .visited)
      | _, _ => .error .panicked

/-- `validate_acyclic`. No chain of nested calls is longer than the number of tasks. -/
def validateAcyclic (tasks : List Task) (positions : Positions) : Except Failure Unit := do
  let _ ← (List.range tasks.length).foldlM
    (fun states index => visitTask tasks positions (tasks.length + 1) index states)
    (List.replicate tasks.length Graph.Mark.unvisited)
  .ok ()

/-- The loop of `has_transitive_dependency_of_kind`; the head of `pending` is the top of
the stack, the last element of the vector in the source. -/
def searchKind (expected : TaskKind) (tasks : List Task) (positions : Positions) :
    Nat → List Nat → List Nat → Except Failure Bool
  | 0, _, _ => .error .outOfFuel
  | _ + 1, [], _ => .ok false
  | fuel + 1, index :: pending, visited =>
      if visited.contains index then searchKind expected tasks positions fuel pending visited
      else
        match tasks[index]? with
        | none => .error .panicked
        | some dependency =>
            if dependency.kind == expected then .ok true
            else do
              let next ← dependency.dependsOn.mapM (positionOf positions)
              searchKind expected tasks positions fuel (next.reverse ++ pending) (index :: visited)

/-- Every recorded dependency is pushed at most once, and once more for the first task. -/
def searchFuel (task : Task) (tasks : List Task) : Nat :=
  task.dependsOn.length + tasks.foldr (fun other total => other.dependsOn.length + total) 0 + 1

def hasTransitiveDependencyOfKind (task : Task) (expected : TaskKind) (tasks : List Task)
    (positions : Positions) : Except Failure Bool := do
  let pending ← task.dependsOn.mapM (positionOf positions)
  searchKind expected tasks positions (searchFuel task tasks) pending.reverse []

def requiredPredecessor : TaskKind → Option TaskKind
  | .test => none
  | .implementation => some .test
  | .securityAudit => some .implementation
  | .complianceReview => some .securityAudit

def validateLifecycleDependencies (task : Task) (tasks : List Task) (positions : Positions) :
    Except Failure Unit :=
  match requiredPredecessor task.kind with
  | none => .ok ()
  | some predecessor => do
      let found ← hasTransitiveDependencyOfKind task predecessor tasks positions
      require found
        (taskKindName task.kind ++ " task `" ++ task.id ++ "` must depend on a preceding " ++
          taskKindName predecessor ++ " task")

/-- The last loop of `validate_tasks`: declaration order, then the lifecycle. -/
def validateOrderAndLifecycle (tasks : List Task) (positions : Positions) (entry : Task × Nat) :
    Except Failure Unit := do
  checkAll (fun dependency => do
    let position ← positionOf positions dependency
    require (position < entry.2)
      ("task `" ++ entry.1.id ++ "` must depend only on an earlier declared task"))
    entry.1.dependsOn
  validateLifecycleDependencies entry.1 tasks positions

/-- `validate_tasks`. -/
def validateTasks (validateSetOrder : Bool) (tasks : List Task) : Except Failure Unit := do
  let positions ← collectPositions validateSetOrder 0 tasks []
  checkAll (validateKnownDependencies positions) tasks
  validateAcyclic tasks positions
  checkAll (validateOrderAndLifecycle tasks positions) tasks.zipIdx

def validateWith (validateSetOrder : Bool) (queue : TaskQueue) : Except Failure Unit := do
  ensure (queue.schemaVersion == todoQueueVersion)
    (.error (.unsupportedVersion queue.schemaVersion todoQueueVersion))
  validateComponent queue.component
  validateTasks validateSetOrder queue.tasks

/-- `validate`. -/
def validate (queue : TaskQueue) : Except Failure Unit := validateWith true queue

/-- `validate_repairable`. -/
def validateRepairable (queue : TaskQueue) : Except Failure Unit := validateWith false queue

end Kvist.Queue
