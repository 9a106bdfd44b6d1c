import Kvist.Authoring.Broker

/-!
# The plan of one model turn

Every intent of a turn is classified against the tree as it stands before the turn. Some writes
and edits are answered instead of carried out: those of the manifest, those that change nothing,
and those that look like a mistake.
-/

set_option autoImplicit false

namespace Kvist.Authoring

open FileSystem Text
open Json (Value utf8)
open Kvist.Runtime (ToolIntent)

/-! ## Rust sources -/

/-- The balance of braces in one line, outside of texts. The flags tell whether a text is open, and
whether a backslash stands before. -/
def lineBalance : Bool → Bool → List Char → Int
  | _, _, [] => 0
  | true, true, _ :: rest => lineBalance true false rest
  | true, false, character :: rest =>
      if character = '\\' then lineBalance true true rest
      else lineBalance (character != '"') false rest
  | false, escaped, character :: rest =>
      if character = '"' then lineBalance true escaped rest
      else if character = '\x7b' then lineBalance false escaped rest + 1
      else if character = '\x7d' then lineBalance false escaped rest - 1
      else lineBalance false escaped rest

def rustBraceBalance (source : List Char) : Int :=
  (lines source).foldl
    (fun balance line =>
      if "//".toList.isPrefixOf (trimStart line) then balance
      else balance + lineBalance false false (trimStart line)) 0

def isAsciiAlphanumeric (character : Char) : Bool := character.isAlphanum

/-- The kind and the name of an item that begins at the start of a line. -/
def keywordSymbol (rest : List Char) : List (List Char × List Char) → Option (List Char)
  | [] => none
  | (keyword, kind) :: others =>
      match stripLeading keyword rest with
      | none => keywordSymbol rest others
      | some after =>
          let ident := after.takeWhile fun character =>
            isAsciiAlphanumeric character || character == '_'
          if ident.isEmpty then keywordSymbol rest others else some (kind ++ ' ' :: ident)

def itemKeywords : List (List Char × List Char) :=
  [("async fn ".toList, "fn".toList), ("unsafe fn ".toList, "fn".toList),
    ("const fn ".toList, "fn".toList), ("fn ".toList, "fn".toList),
    ("struct ".toList, "struct".toList), ("enum ".toList, "enum".toList)]

def withoutVisibility (rest : List Char) : List Char :=
  match stripLeading "pub ".toList rest with
  | some after => trimStart after
  | none =>
      match stripLeading "pub(crate) ".toList rest with
      | some after => trimStart after
      | none =>
          match stripLeading "pub(super) ".toList rest with
          | some after => trimStart after
          | none => rest

def extractTopLevelRustSymbol (line : List Char) : Option (List Char) :=
  if line.head? = some ' ' || line.head? = some '\t' then none
  else keywordSymbol (withoutVisibility (trimStart line)) itemKeywords

def findDuplicateRustTopLevelSymbol (existing replacement content : List Char) :
    Option (List Char) :=
  let replacedSymbols := (lines replacement).filterMap extractTopLevelRustSymbol
  let addedSymbols := ((lines content).filterMap extractTopLevelRustSymbol).filter
    fun symbol => !replacedSymbols.contains symbol
  ((lines existing).filterMap extractTopLevelRustSymbol).find? addedSymbols.contains

/-! ## Checks before an effect -/

section

variable (tree : FileTree String) (root : String)

def excludedReadDirs : List String := [".git", ".kvist", ".kvist-attempts", "target"]

def resolveSafeParts : List String → List Component → Option (List String)
  | parts, [] => some parts
  | parts, .curDir :: rest => resolveSafeParts parts rest
  | parts, .normal name :: rest =>
      if excludedReadDirs.contains name then none
      else if maxDestinationDepth < parts.length + 1 then none
      else if symlinkMetadata tree root (parts ++ [name]) matches .ok (.link _) then none
      else resolveSafeParts (parts ++ [name]) rest
  | _, .parentDir :: _ => none
  | _, .rootDir :: _ => none

def resolveSafeReadPath (path : String) : Option (List String) :=
  let trimmed := trimList path.toList
  if trimmed.isEmpty || isAbsolute trimmed then none
  else (resolveSafeParts tree root [] (components trimmed)).filter fun parts => !parts.isEmpty

def readToString (parts : List String) : Option (List Char) :=
  match tree.read (componentPath root parts) with
  | .ok bytes => Utf8.fromUtf8 bytes
  | .error _ => none

/-- `trim_start_matches`. -/
def withoutHere : List Char → List Char
  | '.' :: '/' :: rest => withoutHere rest
  | path => path

/-- A proposal to change the manifest is a decision, or answered when it changes nothing. -/
def checkManifestDecision (arguments : Value) : Option BrokerOutcome :=
  match textArgument arguments "destination" with
  | none => none
  | some destination =>
      if withoutHere (trimList destination.toList) = "Cargo.toml".toList then
        -- An empty text cannot be searched for.
        if textArgument arguments "replace" = some "" then some .panicked else some .withoutEffect
      else none

def checkWriteNoopOrDestructiveOverwrite (arguments : Value) : Bool :=
  match textArgument arguments "destination", textArgument arguments "content" with
  | some destination, some content =>
      match resolveSafeReadPath tree root destination with
      | none => false
      | some parts =>
          if ".rs".toList.isSuffixOf (displayParts parts).toList &&
              rustBraceBalance content.toList != 0 then true
          else
            match readToString tree root parts with
            | none => false
            | some existing =>
                trimList existing == trimList content.toList ||
                  (parts.head? == some "src" && 256 ≤ (utf8 existing).length &&
                    (bytesOf content).length * 2 < (utf8 existing).length)
  | _, _ => false

def checkEditRustBraceBalance (arguments : Value) : Bool :=
  match textArgument arguments "destination", textArgument arguments "replace",
      textArgument arguments "content" with
  | some destination, some replacement, some content =>
      if !".rs".toList.isSuffixOf (trimList destination.toList) then false
      else
        match (resolveSafeReadPath tree root destination).bind (readToString tree root) with
        | none => false
        | some existing =>
            if countOccurrences (utf8 existing) (bytesOf replacement) ≠ 1 then false
            else
              match (replaceSingleOccurrence (utf8 existing) (bytesOf replacement)
                  (bytesOf content)).bind Utf8.fromUtf8 with
              | none => false
              | some newText =>
                  (rustBraceBalance existing == 0 && rustBraceBalance newText != 0) ||
                    (findDuplicateRustTopLevelSymbol existing replacement.toList
                      content.toList).isSome
  | _, _, _ => false

variable (sha256Hex : List UInt8 → String)

def effectOf : Except String CheckedIntent → BrokerOutcome
  | .ok checked => .effect checked
  | .error _ => .withoutEffect

def classifyIntent (intent : ToolIntent) (policy : BrokerPolicy) : BrokerOutcome :=
  if isBlank intent.name || !allowedTools.contains intent.name || !intent.arguments.isObject ||
      (textArgument intent.arguments "_malformed_arguments_error").isSome then .withoutEffect
  else if intent.name = "write_file" then
    match checkManifestDecision intent.arguments with
    | some outcome => outcome
    | none =>
        if checkWriteNoopOrDestructiveOverwrite tree root intent.arguments then .withoutEffect
        else effectOf (authorizeWrite sha256Hex tree root intent policy)
  else if intent.name = "edit_file" then
    match checkManifestDecision intent.arguments with
    | some outcome => outcome
    | none =>
        if checkEditRustBraceBalance tree root intent.arguments then .withoutEffect
        else effectOf (authorizeEdit sha256Hex tree root intent policy)
  else .withoutEffect

def authorizedEffects (policy : BrokerPolicy) : List ToolIntent → Option (List CheckedIntent)
  | [] => some []
  | intent :: rest =>
      match classifyIntent tree root sha256Hex intent policy with
      | .panicked => none
      | .withoutEffect => authorizedEffects policy rest
      | .effect checked => (authorizedEffects policy rest).map (checked :: ·)

def contentBytes : List CheckedIntent → Nat
  | [] => 0
  | effect :: rest => effect.contentBytes + contentBytes rest

def enforceBound (effects : List CheckedIntent) (policy : BrokerPolicy) : List CheckedIntent :=
  if policy.maxPlanContentBytes < contentBytes effects then [] else effects

/-- The effects of the plan of one turn. -/
def authorizeIntents (intents : List ToolIntent) (policy : BrokerPolicy) :
    Option (List CheckedIntent) :=
  (authorizedEffects tree root sha256Hex policy intents).map fun effects =>
    enforceBound effects policy

end

end Kvist.Authoring
