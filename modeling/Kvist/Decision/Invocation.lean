import Kvist.CommandLine
import Kvist.Decision.Shortcuts
import Kvist.TaskQueue.Validation

/-!
# Invoking a response

A response is invoked by its number, or by the words of the command line that it is shown as. Both
come to an action on a component.
-/

set_option autoImplicit false

namespace Kvist.Decision

open CommandLine Json

/-- The actions that a response can be. -/
inductive Action where
  | plan (task option catalog guidance «import» reviewException : Option Word)
  | apply (planId approve : Word) (continueRun : Bool)
  deriving DecidableEq, Repr

/-- What invoking the number of a command does. -/
def Command.action : Command → Action
  | .optionPlan task catalogDigest option _ =>
      .plan (some task.toList) (some option.toList) (some catalogDigest.toList) none none none
  | .applyPlan _ planId approval continueRun =>
      .apply planId.toList approval.toList continueRun

/-! ## The declared command line -/

def programName : Word := "kvist".toList
def decisionName : Word := "decision".toList
def planName : Word := "plan".toList
def applyName : Word := "apply".toList
def jsonName : Word := "json".toList
def taskName : Word := "task".toList
def optionName : Word := "option".toList
def catalogName : Word := "catalog".toList
def guidanceName : Word := "guidance".toList
def importName : Word := "import".toList
def reviewExceptionName : Word := "review-exception".toList
def approveName : Word := "approve".toList
def continueName : Word := "continue".toList

/-- A command with optional arguments only, besides the flag that every command has. -/
def plainDeclaration : Declaration := ⟨0, 0, [], [jsonName], [], [], [], []⟩

def planDeclaration : Declaration :=
  { plainDeclaration with
    options :=
      [taskName, optionName, catalogName, guidanceName, importName, reviewExceptionName]
    requires := [(catalogName, optionName)]
    conflicts := [(optionName, importName)] }

def applyDeclaration : Declaration :=
  { plainDeclaration with
    required := 1
    positionals := 1
    options := [approveName]
    flags := [jsonName, continueName]
    mandatory := [approveName] }

def decisionDeclaration : Declaration :=
  { plainDeclaration with
    required := 1
    positionals := 1
    subcommands := [
      ("actions".toList, plainDeclaration),
      ("do".toList, { plainDeclaration with required := 1, positionals := 1 }),
      ("show".toList, { plainDeclaration with positionals := 1 }),
      ("options".toList, { plainDeclaration with options := [taskName] }),
      ("discuss".toList,
        { plainDeclaration with required := 1, positionals := 1, options := [taskName] }),
      (planName, planDeclaration),
      (applyName, applyDeclaration)] }

/-- The whole program, with its other commands. -/
def programDeclaration (others : List (Word × Declaration)) : Declaration :=
  { plainDeclaration with subcommands := (decisionName, decisionDeclaration) :: others }

def optionValue (name : Word) (items : List Item) : Option Word :=
  items.findSome? fun item =>
    match item with
    | .option other value => if other = name then some value else none
    | _ => none

def positionalValues (items : List Item) : List Word :=
  items.filterMap fun item =>
    match item with
    | .positional value => some value
    | _ => none

def actionOf (name : Word) (items : List Item) : Option Action :=
  if name = planName then
    some (.plan (optionValue taskName items) (optionValue optionName items)
      (optionValue catalogName items) (optionValue guidanceName items)
      (optionValue importName items) (optionValue reviewExceptionName items))
  else if name = applyName then
    match positionalValues items, optionValue approveName items with
    | [planId], some approve =>
        some (.apply planId approve (decide (Item.flag continueName ∈ items)))
    | _, _ => none
  else none

def invocation (parse : Parser) (others : List (Word × Declaration)) :
    List Word → Option (Word × Action)
  | [] => none
  | _ :: arguments =>
      (parse (programDeclaration others) arguments).bind fun found =>
        match found with
        | (_, [(command, outer), (name, items)]) =>
            if command = decisionName then
              match positionalValues outer with
              | [component] => (actionOf name items).map fun action => (component, action)
              | _ => none
            else none
        | _ => none

/-- A component's path from the root of the components: no `.`, unless it is the root itself, and
no `..`. -/
def normalizeComponentPath (path : PathBytes) : Option PathBytes :=
  if components path = (false, [[dot]]) then some [dot]
  else
    let parts := (components path).2.filter (· != [dot])
    if parts.isEmpty || isAbsolute path || parts.contains [dot, dot] then none
    else some ([slash].intercalate parts)

/-! ## The commands that are registered -/

def digestPrefix : List Char := "sha256:".toList

def isDigest (text : String) : Bool :=
  (Text.stripLeading digestPrefix text.toList).any fun hex =>
    hex.length == 64 && hex.all Queue.isLowerHex

/-- The identifiers of the alternatives of a catalog. -/
def validOptionId (id : String) : Bool :=
  !id.toList.isEmpty && id.toList.length ≤ 128 && id.toList.all fun character =>
    character.isAlphanum || character == '-' || character == '_'

def validPlanId (id : String) : Bool := id.toList.length == 64 && id.toList.all Queue.isLowerHex

/-- What the callers of the registry have checked of a command. -/
def Command.registrable : Command → Bool
  | .optionPlan task catalogDigest option _ =>
      Queue.validTaskId task && isDigest catalogDigest && validOptionId option
  | .applyPlan task planId approval _ =>
      Queue.validTaskId task && validPlanId planId && isDigest approval

/-- Whether the command has an option that the command line takes for the name of another one. -/
def Command.optionHyphenated : Command → Bool
  | .optionPlan _ _ option _ => hyphenated option.toList
  | .applyPlan .. => false

/-! ## Printed command lines -/

/-- An argument as it is printed, always between quotation marks or only where it has to be. -/
def printArgument (quoted : Bool) (argument : Word) : List Char :=
  if quoted then quote argument else shellToken argument

def commandLine (program : Word) (arguments : List (Bool × Word)) : List Char :=
  [' '].intercalate (program :: arguments.map fun argument => printArgument argument.1 argument.2)

/-- The line that a command is shown as invokes it, on the same component. -/
def ParsesBack (parse : Parser) (others : List (Word × Declaration)) (component : PathBytes)
    (command : Command) : Prop :=
  ∃ words argument, ShellWords.splitWords (expansion component command) = some words ∧
    invocation parse others words = some (argument, command.action) ∧
    normalizeComponentPath (utf8 argument) = some component

end Kvist.Decision
