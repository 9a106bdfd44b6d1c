import Kvist.Model.Turn
import Kvist.Observation.Journal
import Kvist.Utf8

/-!
# The session log

The transcript of a session is one text. The log writes a line where a prompt starts and where it
has finished, and between them the texts of the prompt, each behind its label and as it stands.
-/

set_option autoImplicit false

namespace Kvist.Session

open Json (utf8 utf8Bytes)
open Kvist.Runtime (ModelMessage)
open Kvist.Model (ModelUsage)
open Kvist.Observation (maxU64 saturatingAdd)

def maxTranscriptText : Nat := 64 * 1024

inductive BudgetResource where
  | wallTime
  | modelTokens
  | turns
  | modelAttempts
  | context
  deriving DecidableEq, Repr

inductive StopReason where
  | completed
  | noWork
  | cancelled
  | limit (resource : BudgetResource)
  | stalled
  | failed
  deriving DecidableEq, Repr

def resourceLabel : BudgetResource → String
  | .wallTime => "wall_time"
  | .modelTokens => "model_tokens"
  | .turns => "turns"
  | .modelAttempts => "model_attempts"
  | .context => "context"

/-- The word for the status, and the text that is logged. -/
def stopText : StopReason → String × String
  | .completed => ("done", "completed")
  | .noWork => ("awaiting", "no answer this turn — send a follow-up to continue")
  | .cancelled => ("cancelled",
      "cancelled — completed effects are not rolled back; inspect state before continuing")
  | .limit resource => ("exhausted",
      "prompt limit reached [" ++ resourceLabel resource ++
        "] — review this resource limit and inspect completed work before continuing")
  | .stalled => ("stalled",
      "stalled — inspect completed work and revise the request; " ++
        "do not blindly replay uncertain effects")
  | .failed => ("error",
      "failed — inspect diagnostics and reconcile possible effects before continuing")

structure RunSummary where
  stopReason : Option StopReason
  answer : Option String
  turns : UInt32
  cancelled : Bool
  exhausted : Bool
  budgetExhausted : Bool
  failure : Option String
  deriving DecidableEq, Repr

inductive Disposition where
  | budgetExhausted
  | cancelled
  | failed
  | turnLimit
  | completed
  | noWork
  deriving DecidableEq, Repr

def Disposition.name : Disposition → String
  | .budgetExhausted => "budget_exhausted"
  | .cancelled => "cancelled"
  | .failed => "failed"
  | .turnLimit => "turn_limit"
  | .completed => "completed"
  | .noWork => "no_work"

namespace RunSummary

def success (summary : RunSummary) : Bool :=
  summary.answer.isSome && !summary.cancelled && !summary.exhausted && !summary.budgetExhausted &&
    summary.failure.isNone

def disposition (summary : RunSummary) : Disposition :=
  if summary.budgetExhausted then .budgetExhausted
  else if summary.cancelled then .cancelled
  else if summary.failure.isSome then .failed
  else if summary.exhausted then .turnLimit
  else if summary.success then .completed
  else .noWork

end RunSummary

structure SessionMetadata where
  contextLimit : Nat
  contextSource : String
  responseReserve : Nat
  responseSource : String
  deriving DecidableEq, Repr

/-! ## What is written -/

inductive Label where
  | user
  | assistant
  | providerReasoning
  | toolFailure
  | notice
  | toolStdout
  | toolStderr
  | stopReason
  | failure
  deriving DecidableEq, Repr

def Label.text : Label → String
  | .user => "user"
  | .assistant => "assistant"
  | .providerReasoning => "provider reasoning"
  | .toolFailure => "tool failure"
  | .notice => "notice"
  | .toolStdout => "tool stdout"
  | .toolStderr => "tool stderr"
  | .stopReason => "stop reason"
  | .failure => "failure"

abbrev TokenCount := { total : Nat // total ≤ maxU64 }

/-- What the finish line of a prompt tells. -/
structure Finish where
  turns : UInt32
  tokens : Option TokenCount
  seconds : Nat
  prompt : Nat
  success : Bool
  disposition : Disposition
  deriving DecidableEq, Repr

/-- What one `writeln!` writes, without the line feed at the end. -/
inductive Entry where
  | started (taskId : List Char) (seconds : Nat)
  | budget (metadata : SessionMetadata)
  | text (label : Label) (content : List Char)
  | finished (taskId : List Char) (finish : Finish)
  deriving DecidableEq, Repr

def decimal (value : Nat) : List Char := (toString value).toList

def bounded (text : List Char) : List Char := Utf8.takeBytes maxTranscriptText text

def Entry.render : Entry → List Char
  | .started taskId seconds =>
      "== session ".toList ++ taskId ++ " started ".toList ++ decimal seconds ++ "s ago ==".toList
  | .budget metadata =>
      "model budget: ".toList ++ decimal metadata.contextLimit ++ " context tokens (".toList ++
        metadata.contextSource.toList ++ "), ".toList ++ decimal metadata.responseReserve ++
        " output tokens (".toList ++ metadata.responseSource.toList ++ ")".toList
  | .text label content =>
      let preview := bounded content
      label.text.toList ++ ": ".toList ++ preview ++
        if utf8Bytes preview < utf8Bytes content then "\n[transcript truncated]".toList else []
  | .finished taskId finish =>
      "== session ".toList ++ taskId ++ " finished: ".toList ++ decimal finish.turns.toNat ++
        " turns, ".toList ++
        ((finish.tokens.map (decimal ·.val)).getD "unknown provider usage".toList) ++
        " tokens, ".toList ++ decimal finish.seconds ++ "s, prompt ".toList ++
        decimal finish.prompt ++ ", ".toList ++
        (if finish.success then "ok" else finish.disposition.name).toList ++ " ==".toList

structure SessionLog where
  taskId : List Char
  transcript : List Entry
  prompt : Nat
  totalInputTokens : Nat
  totalOutputTokens : Nat
  usageComplete : Bool
  pendingUsage : Bool
  metadata : Option SessionMetadata
  deriving DecidableEq, Repr

/-- What the recorder is called with. The text of a tool failure is the one `failure_text` gives. -/
inductive Call where
  | toolFailure (text : List Char)
  | notice (message : List Char)
  | sessionStart (seconds : Nat)
  | request (messages : List ModelMessage) (attempt : Nat)
  | turnStart (text : List Char) (reasoning : Option (List Char))
  | turnFinish (usage : Option ModelUsage)
  | toolResult (stdout stderr : List UInt8)
  | sessionFinish (summary : RunSummary) (seconds : Nat)

namespace SessionLog

def create (taskId : List Char) (metadata : Option SessionMetadata) : SessionLog where
  taskId := taskId
  transcript := []
  prompt := 0
  totalInputTokens := 0
  totalOutputTokens := 0
  usageComplete := true
  pendingUsage := false
  metadata := metadata

def totalTokens (log : SessionLog) : TokenCount :=
  ⟨saturatingAdd log.totalInputTokens log.totalOutputTokens, Nat.min_le_right _ _⟩

def write (log : SessionLog) (entry : Entry) : SessionLog :=
  { log with transcript := log.transcript ++ [entry] }

def text (log : SessionLog) (label : Label) (content : List Char) : SessionLog :=
  log.write (.text label content)

def sessionStart (log : SessionLog) (seconds : Nat) : SessionLog :=
  let log := { log with
    prompt := log.prompt + 1
    totalInputTokens := 0
    totalOutputTokens := 0
    usageComplete := true
    pendingUsage := false }
  let log := log.write (.started log.taskId seconds)
  match log.metadata with
  | none => log
  | some metadata => log.write (.budget metadata)

/-- The prompt of the user is the last message, and is written at the first attempt only. -/
def request (log : SessionLog) (messages : List ModelMessage) (attempt : Nat) : SessionLog :=
  let log := { log with
    usageComplete := log.usageComplete && !log.pendingUsage
    pendingUsage := true }
  match messages.getLast? with
  | some (.user text) => if attempt = 1 then log.text .user text.toList else log
  | _ => log

def turnStart (log : SessionLog) (content : List Char) (reasoning : Option (List Char)) :
    SessionLog :=
  let log := log.text .assistant content
  match reasoning with
  | none => log
  | some reasoning => log.text .providerReasoning reasoning

def turnFinish (log : SessionLog) : Option ModelUsage → SessionLog
  | some usage =>
      { log with
        pendingUsage := false
        totalInputTokens := saturatingAdd log.totalInputTokens usage.inputTokens
        totalOutputTokens := saturatingAdd log.totalOutputTokens usage.outputTokens }
  | none => { log with pendingUsage := false, usageComplete := false }

def truncateText (bytes : List UInt8) (limit : Nat) : List Char :=
  Utf8.fromUtf8Lossy (if limit < bytes.length then bytes.take limit else bytes)

def toolResult (log : SessionLog) (stdout stderr : List UInt8) : SessionLog :=
  (log.text .toolStdout (truncateText stdout maxTranscriptText)).text .toolStderr
    (truncateText stderr maxTranscriptText)

def finishOf (log : SessionLog) (summary : RunSummary) (seconds : Nat) : Finish where
  turns := summary.turns
  tokens := if log.usageComplete then some log.totalTokens else none
  seconds := seconds
  prompt := log.prompt
  success := summary.success
  disposition := summary.disposition

def sessionFinish (log : SessionLog) (summary : RunSummary) (seconds : Nat) : SessionLog :=
  let log := { log with usageComplete := log.usageComplete && !log.pendingUsage }
  let log := match summary.stopReason with
    | none => log
    | some reason => log.text .stopReason (stopText reason).2.toList
  let log := log.write (.finished log.taskId (log.finishOf summary seconds))
  match summary.failure with
  | none => log
  | some failure => log.text .failure failure.toList

def call (log : SessionLog) : Call → SessionLog
  | .toolFailure text => log.text .toolFailure text
  | .notice message => log.text .notice message
  | .sessionStart seconds => log.sessionStart seconds
  | .request messages attempt => log.request messages attempt
  | .turnStart text reasoning => log.turnStart text reasoning
  | .turnFinish usage => log.turnFinish usage
  | .toolResult stdout stderr => log.toolResult stdout stderr
  | .sessionFinish summary seconds => log.sessionFinish summary seconds

/-- The log after these calls. -/
def run (taskId : List Char) (metadata : Option SessionMetadata) (calls : List Call) : SessionLog :=
  calls.foldl call (create taskId metadata)

/-- The bytes of the transcript file. -/
def bytes (log : SessionLog) : List UInt8 :=
  utf8 (log.transcript.flatMap fun entry => entry.render ++ ['\n'])

end SessionLog

end Kvist.Session
