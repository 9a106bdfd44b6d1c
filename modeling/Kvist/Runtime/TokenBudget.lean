import Kvist.LoopDetection.Actions
import Kvist.Model.Turn
import Kvist.Transitions

/-!
# The token budget of a run

Every attempt is charged before it is dispatched, and what the provider reports beyond the charge is
taken off afterwards. A step is one attempt, or what the turn loop does around the attempts; what
the transport, the recorder, the sink and the controls answer is part of the action.
-/

set_option autoImplicit false

namespace Kvist.Runtime

open Model (ModelUsage)

def u64Max : Nat := 18446744073709551615

def saturatingAdd (left right : Nat) : Nat := min (left + right) u64Max

structure RecoveryStep where
  attempt : Nat
  limit : Nat
  deriving DecidableEq, Repr

structure RecoveryBudget where
  spent : Nat
  deriving DecidableEq, Repr

/-- Consumes one of two corrections. -/
def RecoveryBudget.take (budget : RecoveryBudget) : Option RecoveryStep × RecoveryBudget :=
  if budget.spent = 2 then (none, budget) else (some ⟨budget.spent + 1, 2⟩, ⟨budget.spent + 1⟩)

structure BudgetLimits where
  responseReserve : Nat
  maxAttempts : Nat
  contextLimit : Nat
  deriving DecidableEq, Repr

/-- The tokens that remain, with what was charged, what of it was dispatched, and what the reports
took beyond the charges. -/
structure Tokens where
  remaining : Option Nat
  charged : List Nat
  dispatched : List Nat
  overdrawn : List Nat
  deriving DecidableEq, Repr

namespace Tokens

/-- Takes the charge of an attempt off, unless more would be taken than remains. -/
def charge (tokens : Tokens) (charge : Nat) : Option Tokens :=
  match tokens.remaining with
  | none => some { tokens with charged := tokens.charged ++ [charge] }
  | some remaining =>
      if remaining < charge then none
      else some { tokens with
        remaining := some (remaining - charge)
        charged := tokens.charged ++ [charge] }

def dispatch (tokens : Tokens) (charge : Nat) : Tokens :=
  { tokens with dispatched := tokens.dispatched ++ [charge] }

/-- Takes off what is reported beyond the charge, and says whether that was more than remained. -/
def reconcile (tokens : Tokens) (charge : Nat) (usage : Option ModelUsage) : Bool × Tokens :=
  match usage, tokens.remaining with
  | some reported, some remaining =>
      let actual := max reported.totalTokens
        (saturatingAdd reported.inputTokens reported.outputTokens)
      let extra := actual - charge
      (remaining < extra, { tokens with
        remaining := some (remaining - extra)
        overdrawn := tokens.overdrawn ++ [min extra remaining] })
  | _, _ => (false, tokens)

end Tokens

/-! ## One attempt -/

inductive TransportResult where
  | complete (turn : Model.ModelTurn)
  | error (retryable : Bool)

def TransportResult.usage : TransportResult → Option ModelUsage
  | .complete turn => turn.usage
  | .error _ => none

/-- How a wait ends that can be interrupted. -/
inductive Waited where
  | over
  | stopped
  | pending
  deriving DecidableEq

structure AttemptAnswers where
  stopped : Bool
  pending : Bool
  expired : Bool
  announced : Bool
  stoppedThen : Bool
  started : Bool
  result : TransportResult
  presented : Bool
  recorded : Bool
  interrupted : Bool
  stoppedAfter : Bool
  operationCancelled : Bool
  repetition : Bool
  finished : Waited
  lateRepetition : Bool
  cancelledLate : Bool
  noticed : Bool
  waited : Waited

inductive AttemptEnd where
  | again (request : ModelRequest) (attempt : Nat)
  | turn (turn : Model.ModelTurn)
  | steering (attempt reserve : Nat)
  | repetitive
  | stopped

def reserveOf (limits : BudgetLimits) (request : ModelRequest) : Nat :=
  request.maxOutputTokens.getD limits.responseReserve

def chargeOf (limits : BudgetLimits) (request : ModelRequest) : Nat :=
  saturatingAdd (estimateRequest request) (reserveOf limits request)

/-- A turn that ended with its length is generated again where more room can be reserved. -/
def enlarge (limits : BudgetLimits) (request : ModelRequest) : Option ModelRequest :=
  let reserve := reserveOf limits request
  let nextReserve := min (reserve * 2) 1048576
  let enlarged := { request with maxOutputTokens := some nextReserve }
  if nextReserve ≤ reserve || limits.contextLimit < estimateRequest enlarged + nextReserve then none
  else some enlarged

/-- What follows from the result, as long as nothing interrupts. -/
def concluded (limits : BudgetLimits) (request : ModelRequest) (attempt : Nat)
    (answers : AttemptAnswers) : AttemptEnd :=
  match answers.result with
  | .complete turn =>
      if turn.finishReason = .length ∧ attempt < limits.maxAttempts ∧ !answers.cancelledLate then
        match enlarge limits request with
        | none => .turn turn
        | some enlarged => if answers.noticed then .again enlarged (attempt + 1) else .stopped
      else .turn turn
  | .error retryable =>
      if !retryable || limits.maxAttempts ≤ attempt || answers.cancelledLate || !answers.noticed then
        .stopped
      else
        match answers.waited with
        | .over => .again request (attempt + 1)
        | .stopped => .stopped
        | .pending => .steering (attempt + 1) (reserveOf limits request)

/-- What follows from a dispatched attempt, behind the accounting. -/
def received (limits : BudgetLimits) (request : ModelRequest) (attempt : Nat)
    (answers : AttemptAnswers) (exhausted : Bool) : AttemptEnd :=
  if !answers.presented || !answers.recorded then .stopped
  else if answers.interrupted then .steering (attempt + 1) (reserveOf limits request)
  else if answers.stoppedAfter || answers.operationCancelled && !answers.repetition || exhausted then
    .stopped
  else
    match answers.result, answers.finished with
    | .complete _, .stopped => .stopped
    | .complete _, .pending => .steering (attempt + 1) (reserveOf limits request)
    | .complete _, .over =>
        if answers.repetition || answers.lateRepetition then .repetitive
        else concluded limits request attempt answers
    | .error _, _ =>
        if answers.repetition then .repetitive else concluded limits request attempt answers

/-- One pass of the loop over the attempts of a turn. -/
def driveAttempt (limits : BudgetLimits) (tokens : Tokens) (request : ModelRequest) (attempt : Nat)
    (answers : AttemptAnswers) : Tokens × AttemptEnd :=
  if answers.stopped then (tokens, .stopped)
  else if answers.pending then (tokens, .steering attempt (reserveOf limits request))
  else if answers.expired then (tokens, .stopped)
  else
    let charge := chargeOf limits request
    match tokens.charge charge with
    | none => (tokens, .stopped)
    | some tokens =>
        if !answers.announced || answers.stoppedThen || !answers.started then (tokens, .stopped)
        else
          let reconciled := (tokens.dispatch charge).reconcile charge answers.result.usage
          (reconciled.2, received limits request attempt answers reconciled.1)

/-! ## The run -/

inductive RunPhase where
  | head
  | attempting (request : ModelRequest) (attempt : Nat)
  | driven (turn : Model.ModelTurn)
  | calling
  | correcting
  | ended

structure TokenRun where
  tokens : Tokens
  recovery : RecoveryBudget
  corrections : Nat
  nextAttempt : Nat
  nextReserve : Nat
  phase : RunPhase

/-- The head of the loop: `request` is what the session prepares, if it prepares one. -/
structure TurnHead where
  stopped : Bool
  guided : Option Bool
  turnLimit : Bool
  request : Option ModelRequest
  started : Bool

/-- What the detection over the turns of a run says about a turn. -/
inductive Continuity where
  | stopped
  | steered
  | repetitive
  | kept
  deriving DecidableEq

/-- What follows from the tool calls of a turn. -/
inductive Called where
  | again
  | report
  | stopped
  deriving DecidableEq

structure CorrectionAnswers where
  stopped : Bool
  pending : Bool
  noticed : Bool
  stoppedThen : Bool

inductive RunAction where
  | head (answers : TurnHead)
  | attempt (answers : AttemptAnswers)
  | drive (continuity : Continuity)
  | call (called : Called)
  | correct (answers : CorrectionAnswers)

namespace TokenRun

def start (limits : BudgetLimits) (maxTokens : Option Nat) : TokenRun where
  tokens := ⟨maxTokens, [], [], []⟩
  recovery := ⟨0⟩
  corrections := 0
  nextAttempt := 1
  nextReserve := limits.responseReserve
  phase := .head

def withPhase (run : TokenRun) (phase : RunPhase) : TokenRun := { run with phase }

def afresh (limits : BudgetLimits) (run : TokenRun) : TokenRun :=
  { run with nextAttempt := 1, nextReserve := limits.responseReserve }

def head (limits : BudgetLimits) (run : TokenRun) (answers : TurnHead) : TokenRun :=
  if answers.stopped then run.withPhase .ended
  else
    match answers.guided with
    | none => run.withPhase .ended
    | some guided =>
        let run := if guided then { run with nextAttempt := 1 } else run
        if answers.turnLimit || limits.maxAttempts < run.nextAttempt then run.withPhase .ended
        else
          match answers.request with
          | none => run.withPhase .ended
          | some request =>
              if answers.started then
                run.withPhase (.attempting { request with maxOutputTokens := some run.nextReserve }
                  run.nextAttempt)
              else run.withPhase .ended

def attempt (limits : BudgetLimits) (run : TokenRun) (request : ModelRequest) (attempt : Nat)
    (answers : AttemptAnswers) : TokenRun :=
  let driven := driveAttempt limits run.tokens request attempt answers
  let run := { run with tokens := driven.1 }
  match driven.2 with
  | .again request attempt => run.withPhase (.attempting request attempt)
  | .turn turn => run.withPhase (.driven turn)
  | .steering attempt reserve =>
      { run with nextAttempt := attempt, nextReserve := reserve, phase := .head }
  | .repetitive => run.withPhase .correcting
  | .stopped => run.withPhase .ended

def drive (limits : BudgetLimits) (run : TokenRun) (turn : Model.ModelTurn) :
    Continuity → TokenRun
  | .stopped => run.withPhase .ended
  | .steered => (run.afresh limits).withPhase .head
  | .repetitive => run.withPhase .correcting
  | .kept =>
      match validateTurn turn.toModelTurn with
      | .error _ => (run.afresh limits).withPhase .ended
      | .ok () => (run.afresh limits).withPhase .calling

def call (run : TokenRun) : Called → TokenRun
  | .again => run.withPhase .head
  | .report => run.withPhase .correcting
  | .stopped => run.withPhase .ended

/-- One correction, whether it is a turn or its tool calls that repeat. -/
def correct (limits : BudgetLimits) (run : TokenRun) (answers : CorrectionAnswers) : TokenRun :=
  if answers.stopped then run.withPhase .ended
  else
    let run := run.afresh limits
    if answers.pending then run.withPhase .head
    else
      match run.recovery.take with
      | (none, _) => run.withPhase .ended
      | (some _, recovery) =>
          let run := { run with recovery }
          if !answers.noticed || answers.stoppedThen then run.withPhase .ended
          else { run with corrections := run.corrections + 1, phase := .head }

def step (limits : BudgetLimits) (run : TokenRun) : RunAction → Option TokenRun
  | .head answers =>
      match run.phase with
      | .head => some (run.head limits answers)
      | _ => none
  | .attempt answers =>
      match run.phase with
      | .attempting request attempt => some (run.attempt limits request attempt answers)
      | _ => none
  | .drive continuity =>
      match run.phase with
      | .driven turn => some (run.drive limits turn continuity)
      | _ => none
  | .call called =>
      match run.phase with
      | .calling => some (run.call called)
      | _ => none
  | .correct answers =>
      match run.phase with
      | .correcting => some (run.correct limits answers)
      | _ => none

end TokenRun

end Kvist.Runtime
