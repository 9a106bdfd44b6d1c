import Kvist.LoopDetection.ActionIdentity
import Kvist.Runtime.ToolResult

/-!
# Loops of actions

The tracker keeps what the last actions were and what came of them. It refuses an action that would
repeat itself and reports a sequence of actions that does.
-/

set_option autoImplicit false

namespace Kvist.LoopDetection

open Kvist.Runtime (ToolIntent ToolOutcome)

def historyLimit : Nat := 128
def cycleLimit : Nat := 32

inductive ProgressEvidence where
  | none
  | stateChanged
  deriving DecidableEq, Repr

inductive ToolLoopKind where
  | repeatedAction
  | repeatedObservation
  | repeatedFailure
  | actionCycle
  deriving DecidableEq, Repr

structure ToolLoopReport where
  kind : ToolLoopKind
  period : Nat
  copies : Nat
  deriving DecidableEq, Repr

structure Record where
  action : String
  outcome : List UInt8
  failed : Bool
  deriving DecidableEq, Repr

structure ToolLoopTracker where
  history : List Record
  deriving DecidableEq, Repr

def littleEndianBytes : Nat → Nat → List UInt8
  | 0, _ => []
  | count + 1, value => UInt8.ofNat (value % 256) :: littleEndianBytes count (value / 256)

def flag (value : Bool) : UInt8 := if value then 1 else 0

/-- The bytes of an outcome that are hashed: captured bytes stand behind their number. -/
def outcomeBytes (outcome : ToolOutcome) : List UInt8 :=
  [flag outcome.exited, flag outcome.status.isSome, flag outcome.timedOut,
    flag outcome.outputLimitExceeded, flag outcome.cancelled] ++
  (outcome.status.map fun status => littleEndianBytes 4 status.toBitVec.toNat).getD [] ++
  littleEndianBytes 8 outcome.stdout.length ++ outcome.stdout ++
  littleEndianBytes 8 outcome.stderr.length ++ outcome.stderr

section Tracker

variable (sha256 : List UInt8 → List UInt8)

def actionOf (intent : ToolIntent) : String :=
  computeActionHash sha256 intent.name intent.arguments

def recordOf (intent : ToolIntent) (outcome : ToolOutcome) : Record where
  action := actionOf sha256 intent
  outcome := sha256 (outcomeBytes outcome)
  failed := outcome.failed

namespace ToolLoopTracker

def new : ToolLoopTracker := ⟨[]⟩

/-- Checks a proposal before its effects. What is repeatable is compared by its outcome only. -/
def propose (tracker : ToolLoopTracker) (intent : ToolIntent) (repeatable : Bool) :
    Option ToolLoopReport :=
  if repeatable then none
  else
    let action := actionOf sha256 intent
    let count := tracker.history.countP fun record => record.action == action
    if (tracker.history.getLast?.any fun record => record.action == action) || 2 ≤ count then
      some ⟨.repeatedAction, 1, count + 1⟩
    else none

/-- The history with one record more, without the oldest where it is full. -/
def push (tracker : ToolLoopTracker) (record : Record) : ToolLoopTracker :=
  if tracker.history.length = historyLimit then ⟨tracker.history.drop 1 ++ [record]⟩
  else ⟨tracker.history ++ [record]⟩

/-- The shortest cycle that the history ends with twice. -/
def cycle (tracker : ToolLoopTracker) : Option ToolLoopReport :=
  let tail := tracker.history.reverse.take (cycleLimit * 2)
  ((List.range' 2 (min cycleLimit (tail.length / 2) - 1)).find? fun period =>
    tail.take period == (tail.drop period).take period).map fun period =>
      ⟨.actionCycle, period, 2⟩

/-- Records what was executed or refused; a change of the state clears the history before. -/
def observe (tracker : ToolLoopTracker) (intent : ToolIntent) (outcome : ToolOutcome)
    (repeatable : Bool) (progress : ProgressEvidence) : Option ToolLoopReport × ToolLoopTracker :=
  let tracker := if progress = .stateChanged then new else tracker
  let record := recordOf sha256 intent outcome
  let observedCopies := (tracker.history.countP fun prior =>
    prior.action == record.action && prior.outcome == record.outcome) + 1
  let failureCopies :=
    if record.failed then
      (tracker.history.countP fun prior => prior.failed && prior.outcome == record.outcome) + 1
    else 0
  let pushed := tracker.push record
  let report :=
    if 3 ≤ failureCopies then some ⟨.repeatedFailure, 1, failureCopies⟩
    else if repeatable && 3 ≤ observedCopies then some ⟨.repeatedObservation, 1, observedCopies⟩
    else pushed.cycle
  (report, pushed)

end ToolLoopTracker

end Tracker

end Kvist.LoopDetection
