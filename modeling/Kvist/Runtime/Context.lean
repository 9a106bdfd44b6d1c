import Kvist.Runtime.History
import Kvist.Runtime.Summary

/-!
# The context manager

`prepare` fits a request into the context window: it folds complete groups into the rolling
summary, oldest first, until the request without them fits, and inserts as much of the summary as
fits then. The work on the history is done by `plan`, for messages with arbitrary keys; `prepare`
takes the positions in the request as keys. Sums of byte counts stay below the bound of a
`usize`, where the source would saturate.
-/

set_option autoImplicit false

namespace Kvist.Runtime

def BYTES_PER_TOKEN : Nat := 4

def REQUEST_OVERHEAD_TOKENS : Nat := 8

def MESSAGE_OVERHEAD_TOKENS : Nat := 4

def TOOL_DEFINITION_OVERHEAD_TOKENS : Nat := 8

def MAX_MESSAGES : Nat := 1024

def usizeMax : Nat := 18446744073709551615

def divCeil (value divisor : Nat) : Nat := (value + divisor - 1) / divisor

def serializedTokens (value : Json.Value) : Nat :=
  divCeil (Json.serializedBytes value) BYTES_PER_TOKEN

def estimateRequest (request : ModelRequest) : Nat :=
  serializedTokens request.toJson + REQUEST_OVERHEAD_TOKENS +
    request.messages.length * MESSAGE_OVERHEAD_TOKENS +
    request.tools.length * TOOL_DEFINITION_OVERHEAD_TOKENS

structure Compaction where
  compactedTurns : Nat
  summaryChars : Nat
  deriving DecidableEq, Repr

structure ContextManager where
  limitTokens : Nat
  warmupTokens : Nat
  keepFullTurns : Nat
  summary : String := ""
  compactions : Nat := 0
  deriving DecidableEq, Repr

namespace ContextManager

def withBounds (limitTokens warmupTokens keepFullTurns : Nat) : ContextManager :=
  { limitTokens, warmupTokens, keepFullTurns }

def new (limitTokens keepFullTurns : Nat) : ContextManager :=
  withBounds limitTokens (limitTokens - divCeil limitTokens 4) keepFullTurns

/-- Window-based retention instead of a fixed number of recent groups. -/
def forModel (limitTokens : Nat) : ContextManager := new limitTokens usizeMax

def shouldCompact (manager : ContextManager) (contextTokens : Nat) : Bool :=
  manager.warmupTokens < contextTokens

end ContextManager

/-! ## What must stay -/

section Keys

variable {κ : Type} [DecidableEq κ]

/-- The first message that equals the envelope of the summary. -/
def priorSummary (summary : String) (entries : Keyed κ) : Option κ :=
  if summary = "" then none
  else (entries.find? fun entry => isEnvelope summary entry.1).map (·.2)

def isAnswer : ModelMessage → Bool
  | .assistant text toolIntents => toolIntents.isEmpty && !Text.isBlank text
  | _ => false

def isGoal (envelope : Option κ) (entry : ModelMessage × κ) : Bool :=
  some entry.2 ≠ envelope && entry.1.isUser

/-- The user messages behind the last text answer, or all of them without an answer. -/
def outstandingGoals (envelope : Option κ) (entries : Keyed κ) : List κ :=
  ((entries.reverse.takeWhile fun entry => !isAnswer entry.1).filter (isGoal envelope)).map (·.2)

/-- The last user message that is not the envelope. -/
def activeGoal (envelope : Option κ) (entries : Keyed κ) : Option κ :=
  (entries.reverse.find? (isGoal envelope)).map (·.2)

def isFoldable (envelope : Option κ) (entries : Keyed κ) (group : List κ) : Bool :=
  !(group.any fun key => outstandingGoals envelope entries |>.contains key) &&
    !(group.any fun key => activeGoal envelope entries = some key)

/-- The groups that may be folded, with their positions; the newest one never is. -/
def eligible (envelope : Option κ) (entries : Keyed κ) (groups : List (List κ)) :
    List (List κ × Nat) :=
  groups.zipIdx.filter fun indexed =>
    indexed.2 + 1 ≠ groups.length && isFoldable envelope entries indexed.1

def messagesAt (entries : Keyed κ) (group : List κ) : List ModelMessage :=
  group.filterMap fun key => (entries.find? fun entry => entry.2 = key).map (·.1)

def keptEntries (envelope : Option κ) (folded : List (List κ)) (entries : Keyed κ) : Keyed κ :=
  entries.filter fun entry => some entry.2 ≠ envelope && !folded.flatten.contains entry.2

end Keys

/-! ## Inserting the summary -/

def insertSummary (messages : List ModelMessage) (summary : String) : List ModelMessage :=
  messages.takeWhile (·.isSystem) ++ summaryMessage summary :: messages.dropWhile (·.isSystem)

/-- The binary search for the longest suffix that fits. -/
def fitLength (fits : Nat → Bool) (low high : Nat) : Nat :=
  if low < high then
    let length := low + divCeil (high - low) 2
    if fits length then fitLength fits length high else fitLength fits low (length - 1)
  else low
termination_by high - low
decreasing_by
  · simp only [divCeil]
    omega
  · simp only [divCeil]
    omega

/-- The last characters of a text. -/
def suffix (text : String) (length : Nat) : String :=
  String.ofList (text.toList.drop (text.toList.length - length))

def withSummary (request : ModelRequest) (summary : String) : ModelRequest :=
  { request with messages := insertSummary request.messages summary }

def fitSummary (request : ModelRequest) (summary : String) (reserve limit : Nat) :
    ModelRequest × String :=
  if summary = "" then (request, "")
  else
    let fits := fun candidate : String =>
      decide (estimateRequest (withSummary request candidate) + reserve ≤ limit)
    if fits summary then (withSummary request summary, summary)
    else
      let length := fitLength (fun length => fits (suffix summary length)) 0 summary.toList.length
      if length = 0 then (request, "")
      else (withSummary request (suffix summary length), suffix summary length)

/-! ## Folding groups -/

/-- A rewritten history: the groups that were folded, what is kept, and the fitted summary. -/
structure Rewrite (κ : Type) where
  folded : List (List κ)
  kept : Keyed κ
  summary : String
  messages : List ModelMessage

namespace ContextManager

def capacityRetention (manager : ContextManager) : Bool := manager.keepFullTurns = usizeMax

def target (manager : ContextManager) : Nat :=
  if manager.capacityRetention then min (manager.limitTokens * 65) usizeMax / 100
  else manager.limitTokens

section Plan

variable {κ : Type} [DecidableEq κ]

/-- The request with what is left of its history. -/
def irreducible (request : ModelRequest) (envelope : Option κ) (entries : Keyed κ)
    (folded : List (List κ)) : ModelRequest :=
  { request with messages := (keptEntries envelope folded entries).map (·.1) }

def fitsWindow (manager : ContextManager) (reserve : Nat) (candidate : ModelRequest)
    (canRemoveMore : Bool) : Bool :=
  estimateRequest candidate + reserve ≤ manager.limitTokens &&
    candidate.messages.length ≤ MAX_MESSAGES &&
    (!manager.capacityRetention ||
      (estimateRequest candidate + reserve ≤ manager.target &&
        candidate.messages.length < MAX_MESSAGES * 65 / 100) ||
      !canRemoveMore)

/-- The outcome once the rest of the history fits. -/
def settleSummary (manager : ContextManager) (request : ModelRequest) (reserve : Nat)
    (envelope : Option κ) (entries : Keyed κ) (rolled : String) (folded : List (List κ)) :
    Option (Rewrite κ) :=
  let candidate := irreducible request envelope entries folded
  if folded.isEmpty && envelope.isNone then none
  else
    let rolled := if candidate.messages.length = MAX_MESSAGES then "" else rolled
    let fitted := fitSummary candidate rolled reserve
      (if manager.capacityRetention then max manager.target (estimateRequest candidate + reserve)
        else manager.limitTokens)
    some ⟨folded, keptEntries envelope folded entries, fitted.2, fitted.1.messages⟩

def overflowError (manager : ContextManager) (reserve : Nat) (candidate : ModelRequest) : Error :=
  if MAX_MESSAGES < candidate.messages.length then
    .invalidModelTurn ("protected context reaches the " ++ toString MAX_MESSAGES ++
      "-message request bound; shorten task guidance or start a new conversation")
  else .contextBudget (estimateRequest candidate) manager.limitTokens reserve

variable (fromStr : String → Option Json.Value)

def compactFrom (manager : ContextManager) (request : ModelRequest) (reserve : Nat)
    (envelope : Option κ) (entries : Keyed κ) (rolled : String) (folded : List (List κ)) :
    List (List κ) → Except Error (Option (Rewrite κ))
  | [] =>
      if manager.fitsWindow reserve (irreducible request envelope entries folded) false then
        .ok (manager.settleSummary request reserve envelope entries rolled folded)
      else .error (manager.overflowError reserve (irreducible request envelope entries folded))
  | group :: rest =>
      if manager.fitsWindow reserve (irreducible request envelope entries folded) true then
        .ok (manager.settleSummary request reserve envelope entries rolled folded)
      else
        compactFrom manager request reserve envelope entries
          (appendGroupSummary fromStr rolled (messagesAt entries group)) (folded ++ [group]) rest

/-- The rewriting of a history, or nothing where it stays as it is. -/
def plan (manager : ContextManager) (request : ModelRequest) (reserve : Nat)
    (entries : Keyed κ) : Except Error (Option (Rewrite κ)) := do
  let envelope := priorSummary manager.summary entries
  let groups ← completeGroups envelope entries
  let candidates := eligible envelope entries groups
  let initialUsed := estimateRequest request + reserve
  if initialUsed ≤ manager.limitTokens && !manager.shouldCompact initialUsed &&
      request.messages.length ≤ MAX_MESSAGES then
    return none
  else
    let preferredStart := groups.length - manager.keepFullTurns
    let compacted := (candidates.takeWhile (·.2 < preferredStart)).map (·.1)
    let rolled := compacted.foldl
      (fun rolled group => appendGroupSummary fromStr rolled (messagesAt entries group))
      manager.summary
    compactFrom fromStr manager request reserve envelope entries rolled compacted
      ((candidates.dropWhile (·.2 < preferredStart)).map (·.1))

end Plan

/-- What `prepare` returns and leaves behind. -/
structure Prepared where
  result : Except Error (Option Compaction)
  manager : ContextManager
  request : ModelRequest

def validSettings (manager : ContextManager) (reserve : Nat) : Bool :=
  (1 ≤ reserve && reserve ≤ 1048576) && reserve < manager.limitTokens &&
    manager.warmupTokens < manager.limitTokens && manager.keepFullTurns ≠ 0

def prepare (fromStr : String → Option Json.Value) (manager : ContextManager)
    (request : ModelRequest) (reserve : Nat) : Prepared :=
  if manager.validSettings reserve then
    let candidate := { request with maxOutputTokens := some reserve }
    match manager.plan fromStr candidate reserve request.messages.zipIdx with
    | .error error => ⟨.error error, manager, request⟩
    | .ok none => ⟨.ok none, manager, candidate⟩
    | .ok (some rewrite) =>
        let changed := !rewrite.folded.isEmpty || rewrite.summary ≠ manager.summary
        ⟨.ok (if changed then
            some ⟨rewrite.folded.length, rewrite.summary.toList.length⟩ else none),
          { manager with
            summary := rewrite.summary
            compactions :=
              if changed then min (manager.compactions + 1) usizeMax else manager.compactions },
          { candidate with messages := rewrite.messages }⟩
  else
    ⟨.error (.config ("context limit must exceed response reserve (1..=1048576), warm-up must be " ++
      "below the limit, and at least one recent unit must be retained")), manager, request⟩

end ContextManager

end Kvist.Runtime
