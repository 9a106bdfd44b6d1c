import Std.Data.String.ToNat
import Kvist.Decision.Quoting
import Kvist.Decision.Types
import Kvist.Numbering

/-!
# Numbered responses

Exact commands are kept under numbers in a registry, which is one authenticated file. A call reads
the file, gives a number to each of its commands, and writes the file again.
-/

set_option autoImplicit false

namespace Kvist.Decision

open Json Kvist.Numbering OrderedMap

def maxActions : Nat := 2048

def maxNumber : Nat := 4294967295

inductive Command where
  | optionPlan (task catalogDigest option title : String)
  | applyPlan (task planId approval : String) (continueRun : Bool)
  deriving DecidableEq, Repr

structure ResponseAction where
  number : Nat
  description : String
  command : String
  deriving DecidableEq, Repr

structure Registry where
  schemaVersion : Nat
  project : PathBytes
  component : PathBytes
  nextNumber : Nat
  actions : List (Nat × Command)
  authenticationTag : String

/-! ## The registry as JSON -/

def Command.kind : Command → String
  | .optionPlan .. => "option-plan"
  | .applyPlan .. => "apply-plan"

def optionPlanFields : List String := ["task", "catalog_digest", "option", "title"]

def applyPlanFields : List String := ["task", "plan_id", "approval", "continue_run"]

def Command.members : Command → List (String × Value)
  | .optionPlan task catalogDigest option title =>
      optionPlanFields.zip [.string task, .string catalogDigest, .string option, .string title]
  | .applyPlan task planId approval continueRun =>
      applyPlanFields.zip [.string task, .string planId, .string approval, .boolean continueRun]

def Command.toJson (command : Command) : Value :=
  .object (("kind", .string command.kind) :: command.members)

def Command.fromJson (value : Value) : Option Command :=
  (taggedContent "kind" value).bind fun content =>
    if content.1 = "option-plan" then
      match recordFields optionPlanFields content.2 with
      | some [.string task, .string catalogDigest, .string option, .string title] =>
          some (.optionPlan task catalogDigest option title)
      | _ => none
    else if content.1 = "apply-plan" then
      match recordFields applyPlanFields content.2 with
      | some [.string task, .string planId, .string approval, .boolean continueRun] =>
          some (.applyPlan task planId approval continueRun)
      | _ => none
    else none

def asNumber : Value → Option Nat
  | .number literal => literal.toNat?.filter (· ≤ maxNumber)
  | _ => none

/-- A number as the name of a member: its digits, without leading zeros. -/
def keyNumber (name : String) : Option Nat :=
  name.toNat?.filter fun number => number ≤ maxNumber && toString number == name

def asPath : Value → Option PathBytes
  | .string text => some (bytesOf text)
  | _ => none

/-- The actions of an object; the last of two under one number is kept. -/
def actionsFromJson : Value → Option (List (Nat × Command))
  | .object members =>
      (members.mapM fun member => (keyNumber member.1).bind fun number =>
        (Command.fromJson member.2).map fun command => (number, command)).map fun entries =>
          entries.foldl (fun actions entry => put entry.1 entry.2 actions) []
  | _ => none

def actionsToJson (actions : List (Nat × Command)) : Value :=
  .object (actions.map fun entry => (toString entry.1, entry.2.toJson))

def registryFields : List String :=
  ["schema_version", "project", "component", "next_number", "actions", "authentication_tag"]

def registryMembers (registry : Registry) (project component : List Char) :
    List (String × Value) :=
  registryFields.zip [natural registry.schemaVersion, .string (String.ofList project),
    .string (String.ofList component), natural registry.nextNumber,
    actionsToJson registry.actions, .string registry.authenticationTag]

def Registry.toJson (registry : Registry) : Except Failure Value :=
  match Utf8.fromUtf8 registry.project, Utf8.fromUtf8 registry.component with
  | some project, some component => .ok (.object (registryMembers registry project component))
  | _, _ => .error (fail directoryName "path contains invalid UTF-8 characters")

def Registry.fromJson (value : Value) : Option Registry :=
  match recordFields registryFields value with
  | some [schemaVersion, project, component, nextNumber, actions, .string authenticationTag] => do
      let schemaVersion ← asNumber schemaVersion
      let project ← asPath project
      let component ← asPath component
      let nextNumber ← asNumber nextNumber
      let actions ← actionsFromJson actions
      some ⟨schemaVersion, project, component, nextNumber, actions, authenticationTag⟩
  | _ => none

/-! ## What a command is shown as -/

def openingPart : List Char := "kvist decision ".toList
def planPart : List Char := " plan --task ".toList
def optionPart : List Char := " --option ".toList
def catalogPart : List Char := " --catalog ".toList
def applyPart : List Char := " apply ".toList
def approvePart : List Char := " --approve ".toList
def continuePart : List Char := " --continue".toList

def expansion (component : PathBytes) (command : Command) : List Char :=
  let component := componentArgument component
  match command with
  | .optionPlan task catalogDigest option _ =>
      openingPart ++ component ++ planPart ++ shellToken task.toList ++
        optionPart ++ quote option.toList ++ catalogPart ++ quote catalogDigest.toList
  | .applyPlan _ planId approval continueRun =>
      openingPart ++ component ++ applyPart ++ quote planId.toList ++
        approvePart ++ quote approval.toList ++ if continueRun then continuePart else []

def response (context : TaskContext) (number : Nat) (command : Command) : ResponseAction :=
  let description :=
    match command with
    | .optionPlan task _ _ title => "Prepare " ++ title ++ " (" ++ task ++ "); no controlled edits"
    | .applyPlan task _ _ continueRun =>
        "Approve exact plan for " ++ task ++
          if continueRun then " and continue ordinary execution" else "; stop after application"
  ⟨number, description, String.ofList (expansion context.componentPath command)⟩

/-! ## Calls -/

/-- What the steps of a call meet apart from the registry: each of them succeeds or fails. -/
structure Surroundings where
  currentDir : Except Failure PathBytes
  safeComponent : Except Failure Unit
  lock : Except Failure Unit
  revalidate : Except Failure Unit
  ensureNoPending : Except Failure Unit
  inspect : Except Failure Unit
  access : Except Failure Unit
  existingSecret : Except Failure (List UInt8)
  secret : Except Failure (List UInt8)
  directory : Except Failure Unit
  revalidateAgain : Except Failure Unit
  ensureNoPendingAgain : Except Failure Unit
  stage : Except Failure Unit
  persist : Except Failure Unit
  settle : Except Failure Unit
  release : Except Failure Unit

abbrev File := Option (List UInt8)

def registryPath (context : TaskContext) : PathBytes :=
  joinPath (joinPath context.componentDir directoryName) (bytesOf "shortcuts.json")

variable (hmac : Hmac) (fromStr : List UInt8 → Option Value)

def identityFailure (context : TaskContext) : Failure :=
  fail (registryPath context)
    "shortcut authentication, numbering or component identity failed; no response was executed"

def checkRegistry (context : TaskContext) (around : Surroundings) (secret : List UInt8)
    (registry : Registry) : Except Failure Unit := do
  let refused := identityFailure context
  ensure (registry.schemaVersion == 1) refused
  let project ← absolute around.currentDir context.projectDir
  ensure (components registry.project == components project) refused
  let component ← absolute around.currentDir context.componentDir
  ensure (components registry.component == components component) refused
  ensure (registry.nextNumber != 0) refused
  ensure (registry.actions.length ≤ maxActions) refused
  ensure (!registry.actions.any fun entry => entry.1 == 0 || registry.nextNumber ≤ entry.1) refused
  let value ← registry.toJson
  ensure (equal (bytesOf registry.authenticationTag)
      (bytesOf (authenticated hmac value secret)) ||
    equal (bytesOf registry.authenticationTag)
      (bytesOf (authenticatedStructOrder hmac value registry.authenticationTag secret))) refused

def read (context : TaskContext) (around : Surroundings) (file : File) :
    Except Failure (Option (Registry × List UInt8)) := do
  around.inspect
  match file with
  | none => return none
  | some bytes => do
      around.access
      let text ← readText (registryPath context) bytes
      let registry ← okOr ((fromStr text).bind Registry.fromJson)
        (fail (registryPath context) "invalid shortcut JSON")
      let secret ← around.existingSecret
      checkRegistry hmac context around secret registry
      return some (registry, text)

def registerCommand (context : TaskContext) (state : Registry × List ResponseAction)
    (command : Command) : Except Failure (Registry × List ResponseAction) :=
  match Table.numberOf command state.1.actions with
  | some number => .ok (state.1, state.2 ++ [response context number command])
  | none => do
      ensure (state.1.actions.length < maxActions)
        (fail context.componentDir ("shortcut registry reached 2048 retained actions; use the " ++
          "full exact command; numbers were not recycled"))
      let number := state.1.nextNumber
      ensure (number + 1 ≤ maxNumber)
        (fail context.componentDir "shortcut number space exhausted; use the full command")
      return ({ state.1 with
          nextNumber := number + 1, actions := put number command state.1.actions },
        state.2 ++ [response context number command])

/-- The registry that a call goes on with: the one in the file, or a new one. -/
def startRegistry (context : TaskContext) (around : Surroundings)
    (previous : Option (Registry × List UInt8)) : Except Failure Registry :=
  match previous with
  | some (registry, _) => .ok registry
  | none => do
      let project ← absolute around.currentDir context.projectDir
      let component ← absolute around.currentDir context.componentDir
      return ⟨1, project, component, 1, [], ""⟩

def sealRegistry (secret : List UInt8) (registry : Registry) : Except Failure Registry := do
  let value ← registry.toJson
  return { registry with authenticationTag := authenticated hmac value secret }

def prepareRegistry (context : TaskContext) (around : Surroundings) (commands : List Command)
    (file : File) : Except Failure (List ResponseAction × Option (List UInt8) × List UInt8) := do
  around.revalidate
  around.ensureNoPending
  let previous ← read hmac fromStr context around file
  let registry ← startRegistry context around previous
  let (registry, responses) ← commands.foldlM (registerCommand context) (registry, [])
  let secret ← around.secret
  let registry ← sealRegistry hmac secret registry
  around.directory
  let value ← registry.toJson
  let text := encode value
  bounded text (registryPath context)
  around.revalidateAgain
  around.ensureNoPendingAgain
  return (responses, previous.map (·.2), text)

def writeNew (around : Surroundings) (path : PathBytes) (text : List UInt8) (file : File) :
    File × Except Failure Unit :=
  match (do bounded text path; around.stage; around.persist) with
  | .error error => (file, .error error)
  | .ok () => (some text, around.settle)

def replaceControlled (around : Surroundings) (path : PathBytes) (before after : List UInt8)
    (file : File) : File × Except Failure Unit :=
  match (do
      bounded after path
      around.stage
      let current ← readText path (file.getD [])
      ensure (current == before)
        (fail path "controlled input changed while staging its replacement")
      around.persist) with
  | .error error => (file, .error error)
  | .ok () => (some after, do
      around.settle
      let current ← readText path after
      ensure (current == after)
        (fail path "controlled output changed immediately after replacement"))

def publish (around : Surroundings) (path : PathBytes) (before : Option (List UInt8))
    (text : List UInt8) (file : File) : File × Except Failure Unit :=
  match before with
  | some before =>
      if before != text then replaceControlled around path before text file else (file, .ok ())
  | none => writeNew around path text file

/-- The file after a call, and what the call returns. -/
def register (context : TaskContext) (around : Surroundings) (commands : List Command)
    (file : File) : File × Except Failure (List ResponseAction) :=
  match (do around.safeComponent; around.lock) with
  | .error error => (file, .error error)
  | .ok () =>
      match prepareRegistry hmac fromStr context around commands file with
      | .error error => (file, .error error)
      | .ok (responses, before, text) =>
          let written := publish around (registryPath context) before text file
          (written.1, do
            written.2
            around.release
            return responses)

def resolve (context : TaskContext) (around : Surroundings) (number : Nat) (file : File) :
    Except Failure (Command × ResponseAction) := do
  let found ← read hmac fromStr context around file
  okOr ((found.bind fun entry => lookup number entry.1.actions).map fun command =>
      (command, response context number command))
    (fail context.componentDir ("unknown response " ++ toString number ++ "; run \x60kvist decision "
      ++ String.ofList (componentArgument context.componentPath) ++
      " actions\x60; no latest-plan fallback"))

/-! ## Sequences of calls -/

structure Call where
  context : TaskContext
  around : Surroundings
  commands : List Command

def Call.run (call : Call) (file : File) : File × Except Failure (List ResponseAction) :=
  register hmac fromStr call.context call.around call.commands file

/-- The file after these calls, whether they succeed or fail. -/
def runCalls (calls : List Call) (file : File) : File :=
  calls.foldl (fun file call => (call.run hmac fromStr file).1) file

def registryOf (file : File) : Option Registry :=
  (file.bind fromStr).bind Registry.fromJson

end Kvist.Decision
