import Kvist.Outcome
import Kvist.Placeholders
import Kvist.Runtime.Message
import Kvist.Text
import Kvist.Utf8

/-!
# Commands from templates

A template is split into arguments without a shell. The placeholders in them are replaced one after
the other.
-/

set_option autoImplicit false

namespace Kvist.Command

open Occurrences Text
open Kvist.Runtime (ReasoningEffort)

inductive Failure where
  | invalidCommandTemplate (reason : List Char)
  deriving DecidableEq

def invalid (reason : String) : Failure := .invalidCommandTemplate reason.toList

inductive Placeholder where
  | promptJson
  | prompt
  | targetDirectory
  | reasoningEffort
  | contextFiles
  deriving DecidableEq

def Placeholder.text : Placeholder → List Char
  | .promptJson => "\x7bprompt_json\x7d".toList
  | .prompt => "\x7bprompt\x7d".toList
  | .targetDirectory => "\x7btarget_directory\x7d".toList
  | .reasoningEffort => "\x7breasoning_effort\x7d".toList
  | .contextFiles => "\x7bcontext_files\x7d".toList

/-! ## Splitting -/

def parseLoop : List (List Char) → List Char → Option Char → Bool → List Char →
    Except Failure (List (List Char))
  | arguments, current, quote, started, [] =>
      match quote with
      | some quote => .error (.invalidCommandTemplate
          ("unterminated \x60".toList ++ quote :: "\x60 quote".toList))
      | none => .ok (if started then arguments ++ [current] else arguments)
  | arguments, current, quote, started, character :: rest =>
      match quote with
      | none =>
          if character = '\x27' ∨ character = '"' then
            parseLoop arguments current (some character) true rest
          else if isWhitespace character then
            if started then parseLoop (arguments ++ [current]) [] none false rest
            else parseLoop arguments current none started rest
          else parseLoop arguments (current ++ [character]) none true rest
      | some active =>
          if character = active then parseLoop arguments current none started rest
          else if character = '\\' then
            match rest with
            | next :: behind =>
                if next = active ∨ next = '\\' then
                  parseLoop arguments (current ++ [next]) (some active) true behind
                else parseLoop arguments (current ++ ['\\']) (some active) true (next :: behind)
            | [] => parseLoop arguments (current ++ ['\\']) (some active) true []
          else parseLoop arguments (current ++ [character]) (some active) true rest

def parseArguments (template : List Char) : Except Failure (List (List Char)) :=
  parseLoop [] [] none false template

def splitRawCommand (template : List Char) : Except Failure (List Char × List (List Char)) := do
  let arguments ← parseArguments template
  match arguments with
  | [] => .error (invalid "template must contain a program")
  | program :: arguments => return (program, arguments)

/-! ## Rendering -/

/-- What a command is rendered with. A path is its bytes. -/
structure Request where
  prompt : List Char
  contextPaths : List (List UInt8)
  targetDir : List UInt8
  reasoningEffort : Option ReasoningEffort

def jsonString (value : List Char) : List Char := Json.quote (String.ofList value)

def directoryFailure (path : List UInt8) : Failure :=
  .invalidCommandTemplate ("target directory \x60".toList ++ Utf8.fromUtf8Lossy path ++
    "\x60 is not valid UTF-8".toList)

def contextFailure (path : List UInt8) : Failure :=
  .invalidCommandTemplate ("context path \x60".toList ++ Utf8.fromUtf8Lossy path ++
    "\x60 is not valid UTF-8".toList)

def toStr (failure : List UInt8 → Failure) (path : List UInt8) : Except Failure (List Char) :=
  (Utf8.fromUtf8 path).elim (.error (failure path)) .ok

def afterOption (arguments : List (List Char)) : Bool :=
  arguments.getLast?.any fun argument => ['-'].isPrefixOf argument

def pushContext (contextPaths : List (List UInt8)) (rendered : List Char → List Char)
    (arguments : List (List Char)) : Except Failure (List (List Char)) :=
  contextPaths.foldlM (fun arguments path => do
    let path ← toStr contextFailure path
    return arguments ++ [rendered path]) arguments

def renderArgument (request : Request) (arguments : List (List Char)) (raw : List Char) :
    Except Failure (List (List Char)) := do
  let rendered := replace Placeholder.prompt.text request.prompt
    (replace Placeholder.promptJson.text (jsonString request.prompt) raw)
  let rendered ←
    if containsText Placeholder.targetDirectory.text rendered then do
      let directory ← toStr directoryFailure request.targetDir
      pure (replace Placeholder.targetDirectory.text directory rendered)
    else pure rendered
  if containsText Placeholder.reasoningEffort.text raw then
    match request.reasoningEffort with
    | some effort =>
        return arguments ++ [replace Placeholder.reasoningEffort.text effort.asStr.toList rendered]
    | none =>
        if raw = Placeholder.reasoningEffort.text ∧ afterOption arguments then
          return arguments.dropLast
        else return arguments ++ [replace Placeholder.reasoningEffort.text [] rendered]
  else if containsText Placeholder.contextFiles.text raw then
    if request.contextPaths.isEmpty then
      if raw = Placeholder.contextFiles.text ∧ afterOption arguments then
        return arguments.dropLast
      else return arguments ++ [replace Placeholder.contextFiles.text [] rendered]
    else
      pushContext request.contextPaths
        (fun path => replace Placeholder.contextFiles.text path rendered) arguments
  else return arguments ++ [rendered]

/-- The command, where the arguments behind the program are rendered one by one. -/
def commandWith
    (render : Request → List (List Char) → List Char → Except Failure (List (List Char)))
    (template : List Char) (request : Request) : Except Failure (List Char × List (List Char)) := do
  let rawArguments ← parseArguments template
  match rawArguments with
  | [] => .error (invalid "template must contain a program")
  | program :: rawArguments => do
      ensure (!containsText Placeholder.reasoningEffort.text program)
        (invalid "\x7breasoning_effort\x7d cannot select the executable")
      ensure (!(request.reasoningEffort.isSome &&
          !rawArguments.any (containsText Placeholder.reasoningEffort.text)))
        (invalid ("a reasoning effort was requested but the command has no " ++
          "\x7breasoning_effort\x7d placeholder"))
      let arguments ← rawArguments.foldlM (render request) []
      return (program, arguments)

def renderCommandWithReasoningEffort (template : List Char) (request : Request) :
    Except Failure (List Char × List (List Char)) :=
  commandWith renderArgument template request

def renderCommand (template prompt : List Char) (contextPaths : List (List UInt8))
    (targetDir : List UInt8) : Except Failure (List Char × List (List Char)) :=
  renderCommandWithReasoningEffort template ⟨prompt, contextPaths, targetDir, none⟩

end Kvist.Command
