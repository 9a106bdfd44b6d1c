import Kvist.Json.Bytes
import Kvist.Model.Turn
import Kvist.Outcome

/-!
# Tool arguments of a provider

The arguments of a tool call are JSON text. What is no JSON is repaired where that is possible, and
otherwise answered with an object that tells the model about it.
-/

set_option autoImplicit false

namespace Kvist.Transport

open Text
open Json (Value)

def maxRecordBytes : Nat := 1048576
def maxTools : Nat := 128
def maxU64 : Nat := 18446744073709551615

inductive Error where
  | malformedModelResponse (reason : String)
  | modelResponseLimitExceeded (maxBytes : Nat)
  | duplicateToolCall
  /-- An error of the host that the events are delivered to. -/
  | host (reason : String)
  deriving DecidableEq, Repr

def malformed {Result : Type} (reason : String) : Except Error Result :=
  .error (.malformedModelResponse reason)

def isControl (character : Char) : Bool :=
  character.toNat < 0x20 || (0x7f ≤ character.toNat && character.toNat ≤ 0x9f)

def escapeUnicode (character : Char) : List Char :=
  ['\\', 'u', '\x7b'] ++ Nat.toDigits 16 character.toNat ++ ['\x7d']

def escapeDefault (character : Char) : List Char :=
  if character = '\t' then ['\\', 't']
  else if character = '\r' then ['\\', 'r']
  else if character = '\n' then ['\\', 'n']
  else escapeUnicode character

def sanitizeSseDiagnostic (input : List Char) (maxChars : Nat) : List Char :=
  (input.take maxChars).flatMap (fun character =>
    if isControl character then escapeDefault character else [character]) ++
    if maxChars < input.length then ['.', '.', '.'] else []

/-- Control characters inside texts are escaped. The flags tell whether a text is open, and
whether a backslash stands before. -/
def escapeRawControls : Bool → Bool → List Char → List Char
  | _, _, [] => []
  | true, true, character :: rest => character :: escapeRawControls true false rest
  | true, false, character :: rest =>
      if character = '\\' then character :: escapeRawControls true true rest
      else if character = '"' then character :: escapeRawControls false false rest
      else if character = '\n' then '\\' :: 'n' :: escapeRawControls true false rest
      else if character = '\r' then '\\' :: 'r' :: escapeRawControls true false rest
      else if character = '\t' then '\\' :: 't' :: escapeRawControls true false rest
      else if isControl character then
        escapeUnicode character ++ escapeRawControls true false rest
      else character :: escapeRawControls true false rest
  | false, backslash, character :: rest =>
      character :: escapeRawControls (character == '"') backslash rest

/-- A comma before a closing bracket is left out, unless a text is open. -/
def dropTrailingCommas : Bool → Bool → List Char → List Char
  | _, _, [] => []
  | true, escaped, character :: rest =>
      character :: dropTrailingCommas (escaped || character != '"')
        (!escaped && character == '\\') rest
  | false, escaped, character :: rest =>
      if character = '"' then character :: dropTrailingCommas true escaped rest
      else if character = ',' &&
          (rest.dropWhile isWhitespace).head?.any fun next => next == '}' || next == ']' then
        dropTrailingCommas false escaped rest
      else character :: dropTrailingCommas false escaped rest

def escapeRawControlsAndTrailingCommas (input : List Char) : List Char :=
  dropTrailingCommas false false (escapeRawControls false false input)

def ticks : List Char := ['\x60', '\x60', '\x60']

def stripCodeBlock (text : List Char) : List Char :=
  match stripLeading ticks text with
  | none => text
  | some rest =>
      let rest := match stripLeading "json".toList rest with
        | some body => body
        | none => (stripLeading "JSON".toList rest).getD rest
      let rest := trimStart rest
      trimList ((stripTrailing ticks rest).getD rest)

/-- The part from the first opening brace to the last closing one. -/
def bracedPart (text : List Char) : List Char :=
  match text.idxOf? '{', text.reverse.idxOf? '}' with
  | some start, some behind =>
      let finish := text.length - 1 - behind
      if start < finish then (text.take (finish + 1)).drop start else text
  | _, _ => text

section

variable (fromStr : List Char → Except String Value)

/-- Closing braces at the end are left out as long as there is no object. -/
def dropBraces : Nat → List Char → Option Value
  | 0, _ => none
  | fuel + 1, text =>
      match stripTrailing ['}'] text with
      | none => none
      | some stripped =>
          match fromStr (stripped ++ ['}']) with
          | .ok (.object members) => some (.object members)
          | _ =>
              let shorter := trimEnd stripped
              if shorter.getLast? = some '}' then dropBraces fuel shorter else none

def repairToolArgumentsJson (raw : List Char) : Option Value :=
  let normalized :=
    escapeRawControlsAndTrailingCommas (bracedPart (stripCodeBlock (trimList raw)))
  match fromStr normalized with
  | .ok (.object members) => some (.object members)
  | _ => dropBraces fromStr (normalized.length + 1) normalized

def parseLenientToolArguments (raw : List Char) : Except Error Value :=
  let trimmed := trimList raw
  if trimmed.isEmpty then .ok (.object [])
  else
    match fromStr trimmed with
    | .ok parsed =>
        if parsed.isObject then .ok parsed else malformed "tool arguments must be a JSON object"
    | .error detail =>
        match repairToolArgumentsJson fromStr trimmed with
        | some repaired => .ok repaired
        | none => .ok (.object
            [("_malformed_arguments_error", .string detail),
              ("_malformed_arguments_preview",
                .string (String.ofList (sanitizeSseDiagnostic trimmed 240)))])

def parseOpenaiArgumentsForTool (value : Option Value) : Except Error Value := do
  let arguments ← match value with
    | some (.string raw) => parseLenientToolArguments fromStr raw.toList
    | some (.object members) => .ok (.object members)
    | none | some .null => .ok (.object [])
    | _ => malformed "tool arguments must be JSON text or an object"
  ensure arguments.isObject (.malformedModelResponse "tool arguments must be a JSON object")
  return arguments

end

end Kvist.Transport
