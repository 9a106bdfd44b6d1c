import Kvist.Decision.Quoting
import Kvist.Decision.Types
import Kvist.TaskQueue.Timestamps

/-!
# The records of a decision

A plan is kept as JSON and as a preview to approve. While it is applied a journal keeps what is done
of it, and in the end a receipt stands for it. Both hold the whole plan.
-/

set_option autoImplicit false

namespace Kvist.Decision

open Json Queue Text

abbrev Digest := List UInt8 → String

abbrev Names := OrderedMap String Unit

structure Journal where
  schemaVersion : Nat
  plan : Plan
  completed : Names
  lockDigest : String
  authenticationTag : String

structure Receipt where
  schemaVersion : Nat
  plan : Plan
  appliedAt : Timestamp
  sourceDerivedEvidenceStale : Bool
  followUp : String
  executionAccepted : Bool
  complianceCertified : Bool
  modelFindingsAccepted : Bool
  gitPublished : Bool
  authenticationTag : String

def journalMembers (journal : Journal) (plan : Value) : List (String × Value) :=
  [("schema_version", natural journal.schemaVersion), ("plan", plan),
    ("completed", stringsJson journal.completed.keys), ("lock_digest", .string journal.lockDigest),
    ("authentication_tag", .string journal.authenticationTag)]

def Journal.toJson (journal : Journal) : Except Failure Value := do
  let plan ← journal.plan.toJson
  return .object (journalMembers journal plan)

def receiptMembers (receipt : Receipt) (plan : Value) : List (String × Value) :=
  [("schema_version", natural receipt.schemaVersion), ("plan", plan),
    ("applied_at", timestampJson receipt.appliedAt),
    ("source_derived_evidence_stale", .boolean receipt.sourceDerivedEvidenceStale),
    ("follow_up", .string receipt.followUp),
    ("execution_accepted", .boolean receipt.executionAccepted),
    ("compliance_certified", .boolean receipt.complianceCertified),
    ("model_findings_accepted", .boolean receipt.modelFindingsAccepted),
    ("git_published", .boolean receipt.gitPublished),
    ("authentication_tag", .string receipt.authenticationTag)]

def Receipt.toJson (receipt : Receipt) : Except Failure Value := do
  let plan ← receipt.plan.toJson
  return .object (receiptMembers receipt plan)

def sealPlan (hmac : Hmac) (secret : List UInt8) (plan : Plan) : Except Failure Plan := do
  let value ← plan.toJson
  return { plan with authenticationTag := authenticated hmac value secret }

def sealJournal (hmac : Hmac) (secret : List UInt8) (journal : Journal) :
    Except Failure Journal := do
  let value ← journal.toJson
  return { journal with authenticationTag := authenticated hmac value secret }

def sealReceipt (hmac : Hmac) (secret : List UInt8) (receipt : Receipt) :
    Except Failure Receipt := do
  let value ← receipt.toJson
  return { receipt with authenticationTag := authenticated hmac value secret }

/-! ## Identity -/

/-- `str::trim_start_matches`, with a bound on the number of times. -/
def trimStartMatches (leading : List Char) : Nat → List Char → List Char
  | 0, text => text
  | fuel + 1, text =>
      match stripLeading leading text with
      | some rest => trimStartMatches leading fuel rest
      | none => text

def identity (digest : Digest) (plan : Plan) : Except Failure (String × String) := do
  let value ← Plan.toJson { plan with id := "", approval := "", authenticationTag := "" }
  let json := encode value.sorted
  let id := (digest (bytesOf "kvist decision plan v1\n" ++ json)).toList
  return (String.ofList (trimStartMatches "sha256:".toList id.length id),
    digest (bytesOf "kvist decision human approval v1\n" ++ json))

/-! ## Preview -/

/-- The text between fences that are longer than any run of backticks in it. -/
def codeBlock (text : List Char) : List Char :=
  let longest := ((text.splitOnP (· != '\x60')).map List.length).foldr max 0
  let fence := List.replicate (max longest 2 + 1) '\x60'
  fence ++ '\n' :: (text ++ (if text.getLast? = some '\n' then [] else ['\n']) ++ fence ++ ['\n'])

def Disposition.debugName : Disposition → String
  | .resolve => "Resolve"
  | .withdraw => "Withdraw"

/-- The template with its arguments in the places of the empty braces. -/
def format : List Char → List (List Char) → List Char
  | '\x7b' :: '\x7d' :: rest, argument :: arguments => argument ++ format rest arguments
  | character :: rest, arguments => character :: format rest arguments
  | [], _ => []

def previewTemplate : String :=
  "# Deterministic decision plan\n\nPlan: \x60\x7b\x7d\x60\n\nComponent: \x60\x7b\x7d\x60\n\n" ++
  "Paused task: \x60\x7b\x7d\x60\n\nDisposition: \x60\x7b\x7d\x60\n\n" ++
  "Exact approval: \x60\x7b\x7d\x60\n\n" ++
  "This approves only these local intent and scheduling changes, not execution, compliance, model " ++
  "findings or Git publication. Application is a durable, recoverable multi-file transaction, not " ++
  "one atomic filesystem operation.\n\n" ++
  "## Selected option and human guidance\n\n\x7b\x7d\n## Rationale\n\n\x7b\x7d\n" ++
  "## Advisory review or explicit exception\n\nException: \x60\x7b\x7d\x60\n\n\x7b\x7d\n"

def commandTemplate : String := "kvist decision \x7b\x7d apply \x7b\x7d --approve \x7b\x7d"

def fileTemplate : String :=
  "\n## \x7b\x7d\n\n### Exact before\n\n\x7b\x7d\n### Exact after\n\n\x7b\x7d\n"

def retiredTemplate : String :=
  "\n## Retired task history\n\n\x7b\x7d\n### Exact retirement reasons\n\n\x7b\x7d\n"

def evidenceText : String :=
  "\n## Evidence and follow-up\n\nRetained IMPL.md and source-derived reports remain historical " ++
  "observations; new intent needs fresh tests, implementation, independent audit, clean-slate " ++
  "observation and source-blind comparison. No source was removed and no task was marked " ++
  "completed by this decision.\n\n### Frozen input bindings\n\n"

def applyHeading : String := "\n## Apply exactly this plan\n\n"

def previewFile (plan : Plan) (entry : String × String) : List Char :=
  format fileTemplate.toList [entry.1.toList, codeBlock entry.2.toList,
    codeBlock ((plan.outputs.get entry.1).getD entry.2).toList]

def preview (plan : Plan) : List Char :=
  format previewTemplate.toList [plan.id.toList, Utf8.fromUtf8Lossy plan.input.component,
    plan.input.task.id.toList, plan.disposition.debugName.toList, plan.approval.toList,
    codeBlock (compact plan.selection.toJson), codeBlock plan.rationale.toList,
    (toString plan.review.exception).toList, codeBlock plan.review.report.toList] ++
  applyHeading.toList ++
  codeBlock (format commandTemplate.toList
    [componentArgument plan.input.component, plan.id.toList, plan.approval.toList]) ++
  plan.input.files.entries.flatMap (previewFile plan) ++
  format retiredTemplate.toList [codeBlock (compact (.array (plan.retired.map taskJson))),
    codeBlock (compact (textsJson plan.retirementReasons))] ++
  evidenceText.toList ++ codeBlock (compact (textsJson plan.input.bindings))

end Kvist.Decision
