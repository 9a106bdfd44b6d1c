import Kvist.Decision.Records
import Kvist.Decision.Tasks

/-!
# Preparing and applying a plan

A plan is prepared from a draft and kept. Applying it replaces the files one after the other, with a
journal of the progress, until the receipt is written. Everything that is kept passes the bound of
the storage, when it is written and when it is read again.
-/

set_option autoImplicit false

namespace Kvist.Decision

open Json Queue

/-! ## Prepare -/

/-- What comes from outside while a plan is prepared, each in its turn. -/
structure PrepareSources where
  intent : IntentSources
  hmac : Hmac
  context : Except Failure TaskContext
  fresh : Except Failure Capture
  now : Except Failure Timestamp
  secret : Except Failure (List UInt8)
  again : Except Failure Capture
  directory : Except Failure Unit
  keptPreview : Option (List UInt8)
  previewWritten : Except Failure Unit
  keptPlan : Option (List UInt8)
  planWritten : Except Failure Unit

/-- `char::is_control`. -/
def isControl (character : Char) : Bool :=
  character.toNat < 0x20 || (0x7f ≤ character.toNat && character.toNat ≤ 0x9f)

def validOption (option : String) : Bool :=
  !Text.isBlank option && (bytesOf option).length ≤ 256 && !option.toList.any isControl

def sameCapture (left right : Capture) : Except Failure Bool := do
  let left ← left.toJson
  let right ← right.toJson
  return encode left == encode right

/-- A record is written once, and is never replaced by other bytes. -/
def retain (path : PathBytes) (text : List UInt8) (kept : Option (List UInt8))
    (written : Except Failure Unit) : Except Failure Unit :=
  match kept with
  | some bytes => do
      let current ← readText path bytes
      ensure (current == text) (fail path ("content-addressed decision history already exists " ++
        "with different bytes; never clobber it"))
  | none => do
      bounded text path
      written

def totalSize (texts : Texts) : Nat := (texts.values.map fun text => (bytesOf text).length).sum

def sealedPlan (around : PrepareSources) (input : Capture) (selection : Selection)
    (review : IntentReview) (disposition : Disposition) (changes : Changes) (instant : Timestamp) :
    Except Failure Plan := do
  let plan : Plan :=
    { schemaVersion := 1, id := "", approval := "", input := input, selection := selection
      rationale := changes.rationale, review := review, outputs := changes.outputs
      retired := changes.retired, retirementReasons := changes.retirementReasons
      disposition := disposition, createdAt := instant, authenticationTag := "" }
  let (id, approval) ← identity around.intent.digest plan
  let secret ← around.secret
  sealPlan around.hmac secret { plan with id := id, approval := approval }

def prepare (around : PrepareSources) (input : Capture) (draft : Draft) (selection : Selection)
    (review : IntentReview) : Except Failure Plan := do
  let context ← around.context
  let fresh ← around.fresh
  let same ← sameCapture fresh input
  ensure same (fail context.componentDir
    "captured inputs are stale or inconsistent; capture again")
  ensure (!Text.isBlank review.report) (fail context.componentDir
    "a nonblank advisory review or explicit review exception is required")
  checkAll (fun text => bounded (bytesOf text) (bytesOf "decision input"))
    [review.report, selection.guidance]
  ensure (selection.option.all validOption) (fail context.componentDir
    "selected option ID must be nonblank, bounded and free of control characters")
  let instant ← around.now
  let changes ← outputs around.intent context input draft instant
  let plan ← sealedPlan around input selection review draft.disposition changes instant
  let value ← plan.toJson
  let json := encode value
  bounded json (bytesOf "plan.json")
  let markdown := utf8 (preview plan)
  bounded markdown (bytesOf "plan.md")
  let total := saturatingAdd (saturatingAdd (saturatingAdd json.length markdown.length)
    (totalSize plan.input.files)) (totalSize plan.outputs)
  ensure (total ≤ maxTotal)
    (fail context.componentDir "plan and preview exceed the 8 MiB aggregate limit")
  let again ← around.again
  let same ← sameCapture again plan.input
  ensure same (fail context.componentDir "inputs changed before plan persistence; regenerate")
  around.directory
  let directory := joinPath context.componentDir directoryName
  retain (joinPath directory (bytesOf (plan.id ++ ".md"))) markdown around.keptPreview
    around.previewWritten
  retain (joinPath directory (bytesOf (plan.id ++ ".json"))) json around.keptPlan
    around.planWritten
  return plan

/-! ## Apply -/

/-- The controlled files, and the records of the plan that is applied. -/
structure Workspace where
  files : Texts
  pending : Option Journal
  receipt : Option Receipt

/-- Why a call stops: what it reads or writes does not fit the storage, or anything else. -/
inductive Stop where
  | size (failure : Failure)
  | other (failure : Failure)

/-- A part of a call changes the workspace also where it stops. -/
abbrev Transaction := ExceptT Stop (StateM Workspace)

/-- The places of a call at which something outside may fail. -/
inductive Moment where
  | start
  | journal
  | refresh
  | output (name : String)
  | replace (name : String)
  | replaced (name : String)
  | progress (name : String)
  | finish
  | receipt
  | clear

/-- A time before the year 10000, where the text of an instant gets longer. -/
structure Instant where
  seconds : Nat
  early : seconds < 253402300800

def Instant.timestamp (instant : Instant) : Timestamp := ⟨unixSecondsToRfc3339 instant.seconds⟩

def isSha256Text (text : String) : Bool :=
  (Text.stripLeading sha256Prefix.toList text.toList).any fun hex =>
    hex.length == sha256HexLength && hex.all isLowerHex

abbrev DigestText := { text : String // isSha256Text text = true }

/-- What comes from outside while a plan is applied. The lock gives the digest of its contents. -/
structure Checks where
  loaded : Except Failure Unit
  now : Except Failure Instant
  acquired : Except Failure DigestText
  storage : Moment → Except Failure Unit
  locked : Moment → Except Failure Unit
  captured : Moment → Except Failure Unit
  released : Except Failure Unit
  failAfter : Option Nat

variable (hmac : Hmac) (secret : List UInt8) (context : TaskContext) (checks : Checks)

def sized {α : Type} (result : Except Failure α) : Transaction α :=
  ExceptT.mk (pure (result.mapError Stop.size))

def checked {α : Type} (result : Except Failure α) : Transaction α :=
  ExceptT.mk (pure (result.mapError Stop.other))

def decisionPath (name : String) : PathBytes :=
  joinPath (joinPath context.componentDir directoryName) (bytesOf name)

/-- A file of the storage is read only up to its bound. -/
def fits (path : PathBytes) (bytes : List UInt8) : Except Failure Unit :=
  ensure (bytes.length ≤ maxFile) (fail path "input must be a regular file no larger than 1 MiB")

def readControlled (moment : Moment) (name : String) : Transaction String := do
  checked (checks.storage moment)
  let workspace ← get
  let text ← checked (okOr (workspace.files.get name)
    (fail (bytesOf name) "No such file or directory"))
  sized (fits (bytesOf name) (bytesOf text))
  return text

def readJournal (moment : Moment) : Transaction (Option Journal) := do
  checked (checks.storage moment)
  let workspace ← get
  match workspace.pending with
  | none => return none
  | some journal => do
      let path := decisionPath context "pending.json"
      let value ← checked journal.toJson
      sized (fits path (encode value))
      checked (ensure (journal.schemaVersion == 1 &&
          equal (bytesOf journal.authenticationTag) (bytesOf (authenticated hmac value secret)) &&
          journal.completed.keys.all fun name => (journal.plan.outputs.get name).isSome)
        (fail path ("pending transaction authentication/progress failed; preserve recovery " ++
          "evidence")))
      return some journal

/-- The journal in the file is the one that this call wrote last. -/
def requireCurrent (journal : Journal) : Transaction Unit := do
  let path := decisionPath context "pending.json"
  let workspace ← get
  let current ← checked (okOr workspace.pending (fail path "No such file or directory"))
  let value ← checked current.toJson
  sized (fits path (encode value))
  checked (ensure
    (equal (bytesOf current.authenticationTag) (bytesOf (authenticated hmac value secret)) &&
      equal (bytesOf current.authenticationTag) (bytesOf journal.authenticationTag))
    (fail path "pending progress changed outside this authenticated transaction"))

def writeJournal (moment : Moment) (journal : Journal) : Transaction Journal := do
  let journal ← checked (sealJournal hmac secret journal)
  let value ← checked journal.toJson
  sized (bounded (encode value) (decisionPath context "pending.json"))
  checked (checks.storage moment)
  modify fun workspace => { workspace with pending := some journal }
  return journal

def saveJournal (moment : Moment) (journal : Journal) (new : Bool) : Transaction Journal :=
  if new then writeJournal hmac secret context checks moment journal
  else do
    requireCurrent hmac secret context journal
    writeJournal hmac secret context checks moment journal

/-- The files are the captured ones, or in a recovery already the new ones. The bounds on the bytes
and on the number of files that the comparison walks over, which outputs in place may exceed, are left
to `checks.captured`. -/
def verify (moment : Moment) (plan : Plan) (recovery : Bool) : Transaction Unit := do
  let workspace ← get
  workspace.files.entries.forM fun entry => sized (fits (bytesOf entry.1) (bytesOf entry.2))
  checked (checks.captured moment)
  checked (ensure
    (workspace.files.entries.length == plan.input.files.entries.length &&
      workspace.files.entries.all fun entry => plan.input.files.get entry.1 == some entry.2 ||
        (recovery && plan.outputs.get entry.1 == some entry.2))
    (fail context.componentDir ("controlled inputs changed outside the exact before/after " ++
      "transaction; preserve edits and regenerate the plan")))

def requireOutputs (moment : Moment) (plan : Plan) : Transaction Unit := do
  plan.outputs.entries.forM fun entry => do
    let current ← readControlled checks moment entry.1
    checked (ensure (current == entry.2) (fail (joinPath context.componentDir (bytesOf entry.1))
      "applied receipt requires exact final output bytes"))

def clearPending (plan : Plan) : Transaction Unit := do
  let retained ← readJournal hmac secret context checks .clear
  let retained ← checked (okOr retained (fail context.componentDir
    "pending decision journal disappeared before durable cleanup"))
  checked (ensure (retained.plan.id == plan.id)
    (fail context.componentDir "pending decision identity changed before cleanup"))
  checked (checks.storage .clear)
  modify fun workspace => { workspace with pending := none }

def replaceFile (name before after : String) : Transaction Unit := do
  let path := joinPath context.componentDir (bytesOf name)
  sized (bounded (bytesOf after) path)
  let current ← readControlled checks (.replace name) name
  checked (ensure (current == before)
    (fail path "controlled input changed while staging its replacement"))
  checked (checks.locked (.replace name))
  modify fun workspace => { workspace with files := workspace.files.insert name after }
  let current ← readControlled checks (.replaced name) name
  checked (ensure (current == after)
    (fail path "controlled output changed immediately after replacement"))

def replaceOutput (plan : Plan) (progress : Journal × Nat) (name after : String) :
    Transaction Nat := do
  let path := joinPath context.componentDir (bytesOf name)
  let current ← readControlled checks (.output name) name
  if current == after then return progress.2
  else do
    checked (ensure (progress.1.completed.get name).isNone (fail path
      "a recorded completed write was externally reverted; recovery refuses to clobber it"))
    checked (ensure (plan.input.files.get name == some current)
      (fail path "file is neither the exact before nor after bytes"))
    checked (checks.locked (.replace name))
    replaceFile context checks name current after
    checked (ensure (checks.failAfter != some (progress.2 + 1))
      (fail path "injected interruption after durable file replacement"))
    return progress.2 + 1

/-- One output with its entry in the journal, and the number of files replaced so far. -/
def applyOutput (plan : Plan) (progress : Journal × Nat) (output : String × String) :
    Transaction (Journal × Nat) := do
  let name := output.1
  checked (checks.locked (.output name))
  verify context checks (.output name) plan true
  let writes ← replaceOutput context checks plan progress name output.2
  let journal := { progress.1 with completed := progress.1.completed.insert name () }
  checked (checks.locked (.progress name))
  let journal ← saveJournal hmac secret context checks (.progress name) journal false
  return (journal, writes)

def followUpText : String :=
  "Run the ordinary test, implementation, independent security audit and clean-slate " ++
  "observation/source-blind compliance review lifecycle for changed intent; retained IMPL.md and " ++
  "reports were not rewritten and do not certify the new intent."

def newReceipt (plan : Plan) (appliedAt : Timestamp) : Receipt :=
  { schemaVersion := 1, plan := plan, appliedAt := appliedAt
    sourceDerivedEvidenceStale := true, followUp := followUpText, executionAccepted := false
    complianceCertified := false, modelFindingsAccepted := false, gitPublished := false
    authenticationTag := "" }

def newJournal (plan : Plan) (lockDigest : String) : Journal :=
  { schemaVersion := 1, plan := plan, completed := OrderedMap.empty, lockDigest := lockDigest
    authenticationTag := "" }

def samePlan (left right : Plan) : Except Failure Bool := do
  let left ← left.toJson
  let right ← right.toJson
  return encode left == encode right

def checkReceipt (plan : Plan) (receipt : Receipt) : Transaction Unit := do
  let path := decisionPath context (plan.id ++ ".applied.json")
  let value ← checked receipt.toJson
  sized (fits path (encode value))
  let same ← checked (samePlan receipt.plan plan)
  checked (ensure (receipt.schemaVersion == 1 &&
      equal (bytesOf receipt.authenticationTag) (bytesOf (authenticated hmac value secret)) &&
      same && receipt.sourceDerivedEvidenceStale && !receipt.executionAccepted &&
      !receipt.complianceCertified && !receipt.modelFindingsAccepted && !receipt.gitPublished)
    (fail path "applied receipt authentication/identity failed"))

def writeReceipt (plan : Plan) : Transaction Unit := do
  let path := decisionPath context (plan.id ++ ".applied.json")
  let instant ← checked checks.now
  let receipt ← checked (sealReceipt hmac secret (newReceipt plan instant.timestamp))
  let value ← checked receipt.toJson
  sized (bounded (encode value) path)
  checked (checks.storage .receipt)
  modify fun workspace => { workspace with receipt := some receipt }
  checked (ensure (checks.failAfter != some (plan.outputs.entries.length + 1))
    (fail path "injected interruption after durable applied receipt"))

def startJournal (plan : Plan) (pending : Option Journal) (lockDigest : String) :
    Transaction Journal :=
  match pending with
  | some journal => return journal
  | none => do
      checked (checks.locked .journal)
      saveJournal hmac secret context checks .journal (newJournal plan lockDigest) true

def applyLocked (plan : Plan) (pending : Option Journal) (lockDigest : String) :
    Transaction Unit := do
  checked (checks.storage .start)
  let workspace ← get
  match workspace.receipt with
  | some receipt => do
      checkReceipt hmac secret context plan receipt
      if pending.isSome then
        verify context checks .start plan true
        requireOutputs context checks .finish plan
        checked (checks.locked .finish)
        clearPending hmac secret context checks plan
  | none => do
      verify context checks .start plan pending.isSome
      let journal ← startJournal hmac secret context checks plan pending lockDigest
      let journal := { journal with lockDigest := lockDigest }
      checked (checks.locked .refresh)
      let journal ← saveJournal hmac secret context checks .refresh journal false
      let _ ← plan.outputs.entries.foldlM (applyOutput hmac secret context checks plan) (journal, 0)
      verify context checks .finish plan true
      requireOutputs context checks .finish plan
      checked (checks.locked .finish)
      writeReceipt hmac secret context checks plan
      checked (checks.locked .clear)
      clearPending hmac secret context checks plan

def requireSamePlan (plan : Plan) (pending : Option Journal) : Transaction Unit :=
  match pending with
  | none => return ()
  | some journal => do
      let same ← checked (samePlan journal.plan plan)
      checked (ensure same (fail context.componentDir ("another decision transaction is pending; " ++
        "only its identical approved plan may recover")))

/-- One call for a plan that was prepared. -/
def apply (plan : Plan) (approval : String) : Transaction Unit := do
  let value ← checked plan.toJson
  sized (fits (decisionPath context (plan.id ++ ".json")) (encode value))
  sized (fits (decisionPath context (plan.id ++ ".md")) (utf8 (preview plan)))
  checked checks.loaded
  checked (ensure (equal (bytesOf approval) (bytesOf plan.approval))
    (fail context.componentDir "exact content-bound human approval is required"))
  let pending ← readJournal hmac secret context checks .start
  requireSamePlan context plan pending
  let _ ← checked checks.now
  let lockDigest ← checked checks.acquired
  applyLocked hmac secret context checks plan pending lockDigest.val
  checked checks.released

end Kvist.Decision
