import Kvist.Transitions
import Kvist.Runtime.Session

/-!
# The turn loop

One run after the other drives the same conversation. A step is one pass of one of the loops of
`run_inner`; what the model, the tools, the recorder, the event sink and the controls answer on
the way is part of the action, and every answer is possible. A false answer of a recorder, a sink
or a notice is an error there, which ends the run with this error.
-/

set_option autoImplicit false

namespace Kvist.Runtime

/-- What the recorder, the sink and the controls answer at the head of the loop. -/
structure HeadAnswers where
  stopped : Bool
  delivered : List String
  deliveryFailed : Bool
  turnLimit : Bool
  noticed : Bool
  attemptsExhausted : Bool

/-- What the turn comes back with, after the detection of repetitive output. -/
inductive Drive where
  | turn (turn : ModelTurn)
  | steered
  | feedback (message : String)
  | stopped
  | failed

/-- How the executor answers: it may be cancelled, refuse the call or fail. -/
inductive Executed where
  | outcome
  | cancelled
  | refused
  | failed
  deriving DecidableEq

/-- The answers on the way through one tool call; `content` is the text of its result. -/
structure CallAnswers where
  interrupted : Bool
  observationNoticed : Bool
  blocked : Bool
  dispatched : Bool
  ready : Option Bool
  executed : Executed
  refusalNoticed : Bool
  content : String
  recorded : Bool
  progressed : Bool
  report : Bool

/-- The answers behind the tool calls of a turn. -/
structure TurnAnswers where
  presented : Bool
  cancelled : Bool
  pending : Bool
  recovery : Option String
  noticed : Bool
  cancelledThen : Bool
  idle : Option Bool

/-- The calls of a turn that have no result yet, with what the loop over them remembers. -/
structure Batch where
  terminal : Bool
  failed : Bool
  report : Bool
  remaining : List ToolIntent

inductive LoopPhase where
  | idle
  | head
  | preparing
  | driving
  | batch (batch : Batch)
  | closing (batch : Batch)

/-- The state between the steps; `returned` says which of the earlier runs have returned `Ok`. -/
structure Driver where
  session : AgentSession
  context : ContextManager
  phase : LoopPhase
  returned : List Bool

inductive DriverAction where
  | pushUser (text : String)
  | begin (context : ContextManager) (started : Bool)
  | head (answers : HeadAnswers)
  | prepare (responseReserve : Nat) (noticed started : Bool)
  | drive (drive : Drive)
  | call (answers : CallAnswers)
  | close (content : String) (recorded : Bool)
  | settle (answers : TurnAnswers)

namespace Driver

def start (session : AgentSession) (context : ContextManager) : Driver :=
  { session, context, phase := .idle, returned := [] }

/-- The run returns. -/
def finish (driver : Driver) (ok : Bool) : Driver :=
  { driver with phase := .idle, returned := driver.returned ++ [ok] }

def withPhase (driver : Driver) (phase : LoopPhase) : Driver := { driver with phase }

def withSession (driver : Driver) (session : AgentSession) : Driver := { driver with session }

/-- Cancellation, guidance and the limits, up to the next request. -/
def head (driver : Driver) (answers : HeadAnswers) : Driver :=
  if answers.stopped then driver.finish true
  else
    let driver := driver.withSession (answers.delivered.foldl .pushUser driver.session)
    if answers.deliveryFailed then driver.finish false
    else if answers.turnLimit then driver.finish answers.noticed
    else if answers.attemptsExhausted then driver.finish false
    else driver.withPhase .preparing

def prepare (fromStr : String → Option Json.Value) (driver : Driver) (responseReserve : Nat)
    (noticed started : Bool) : Driver :=
  let prepared := driver.session.prepareRequest fromStr driver.context responseReserve
  let driver := { driver with session := prepared.session, context := prepared.context }
  match prepared.result with
  | .error _ => driver.finish false
  | .ok none => driver.finish true
  | .ok (some (_, compaction)) =>
      if compaction.isSome && !noticed then driver.finish false
      else if started then driver.withPhase .driving
      else driver.finish false

def drive (driver : Driver) : Drive → Driver
  | .turn turn =>
      match validateTurn turn with
      | .error _ => driver.finish true
      | .ok () =>
          (driver.withSession (driver.session.applyAssistant turn)).withPhase
            (.batch ⟨turn.toolIntents.isEmpty, false, false, turn.toolIntents⟩)
  | .steered => driver.withPhase .head
  | .feedback message => (driver.withSession (driver.session.pushUser message)).withPhase .head
  | .stopped => driver.finish true
  | .failed => driver.finish false

/-- The result of a call is appended first; the recorder and the sink follow. -/
def foldOutcome (driver : Driver) (intent : ToolIntent) (content : String) (recorded : Bool)
    (next : LoopPhase) : Driver :=
  let driver := driver.withSession (driver.session.recordToolResult intent.id intent.name content)
  if recorded then driver.withPhase next else driver.finish false

/-- One pass of the loop over the calls of a turn. -/
def call (driver : Driver) (batch : Batch) (intent : ToolIntent) (rest : List ToolIntent)
    (answers : CallAnswers) : Driver :=
  if answers.interrupted || batch.failed || batch.report then driver.withPhase (.closing batch)
  else if !answers.observationNoticed then driver.finish false
  else if answers.blocked then
    driver.foldOutcome intent answers.content answers.recorded
      (.batch { batch with report := true, remaining := rest })
  else if !answers.dispatched then driver.finish false
  else
    match answers.ready with
    | none => driver.finish false
    | some false => driver.withPhase (.closing batch)
    | some true =>
        if answers.executed = .refused && !answers.refusalNoticed then driver.finish false
        else if answers.executed = .outcome && !answers.progressed then
          -- the result stands, but what it changed is unknown
          (driver.withSession
            (driver.session.recordToolResult intent.id intent.name answers.content)).finish false
        else
          driver.foldOutcome intent answers.content answers.recorded
            (.batch { batch with
              failed := answers.executed = .failed
              report := answers.report
              remaining := rest })

/-- One pass of a loop that answers the rest of the calls without executing them. -/
def close (driver : Driver) (batch : Batch) (intent : ToolIntent) (rest : List ToolIntent)
    (content : String) (recorded : Bool) : Driver :=
  driver.foldOutcome intent content recorded (.closing { batch with remaining := rest })

/-- Behind the calls: accounting, the feedback on repeated calls, and the end of the run. -/
def settle (driver : Driver) (batch : Batch) (answers : TurnAnswers) : Driver :=
  if !answers.presented then driver.finish false
  else if batch.report then
    if batch.failed || answers.cancelled then driver.finish true
    else if answers.pending then driver.withPhase .head
    else
      match answers.recovery with
      | none => driver.finish answers.noticed
      | some message =>
          if !answers.noticed then driver.finish false
          else if answers.cancelledThen then driver.finish true
          else (driver.withSession (driver.session.pushUser message)).withPhase .head
  else if batch.terminal && !batch.failed && !answers.cancelled then
    match answers.idle with
    | none => driver.finish false
    | some false => driver.withPhase .head
    | some true => driver.finish true
  else if batch.terminal || batch.failed || answers.cancelled then driver.finish true
  else driver.withPhase .head

def step (fromStr : String → Option Json.Value) (driver : Driver) :
    DriverAction → Option Driver
  | .pushUser text =>
      match driver.phase with
      | .idle => some (driver.withSession (driver.session.pushUser text))
      | _ => none
  | .begin context started =>
      match driver.phase with
      | .idle =>
          let driver := { driver with context }
          some (if started then driver.withPhase .head else driver.finish false)
      | _ => none
  | .head answers =>
      match driver.phase with
      | .head => some (driver.head answers)
      | _ => none
  | .prepare responseReserve noticed started =>
      match driver.phase with
      | .preparing => some (driver.prepare fromStr responseReserve noticed started)
      | _ => none
  | .drive drive =>
      match driver.phase with
      | .driving => some (driver.drive drive)
      | _ => none
  | .call answers =>
      match driver.phase with
      | .batch batch =>
          match batch.remaining with
          | [] => none
          | intent :: rest => some (driver.call batch intent rest answers)
      | _ => none
  | .close content recorded =>
      match driver.phase with
      | .closing batch =>
          match batch.remaining with
          | [] => none
          | intent :: rest => some (driver.close batch intent rest content recorded)
      | _ => none
  | .settle answers =>
      match driver.phase with
      | .batch batch | .closing batch =>
          if batch.remaining.isEmpty then some (driver.settle batch answers) else none
      | _ => none

end Driver

end Kvist.Runtime
