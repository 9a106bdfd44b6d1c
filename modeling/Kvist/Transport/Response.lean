import Kvist.Transport.Arguments

/-!
# Provider responses

The parts that unary and streamed responses have in common, and the tool calls of each.
-/

set_option autoImplicit false

namespace Kvist.Transport

open Model Text
open Kvist.Runtime (ToolIntent FinishReason)
open Json (Value)

def asU64 : Value → Option Nat
  | .number literal => literal.toNat?.filter (· ≤ maxU64)
  | _ => none

def asBool : Value → Option Bool
  | .boolean value => some value
  | _ => none

def asArray : Value → Option (List Value)
  | .array items => some items
  | _ => none

def isNull : Value → Bool
  | .null => true
  | _ => false

def member (object : Option Value) (name : String) : Option Value := object.bind (·.get? name)

def objectOf (value : Option Value) : Option Value := value.filter Value.isObject

def stringOf (value : Option Value) : Option String := value.bind Value.asStr?

def firstString (object : Value) : List String → Except Error (Option String)
  | [] => .ok none
  | key :: rest =>
      match object.get? key with
      | none | some .null => firstString object rest
      | some (.string value) => .ok (some value)
      | some _ => malformed ("message " ++ key ++ " must be text or null")

def optionalBoundedString (value : Option Value) (label : String) (maxBytes : Nat) :
    Except Error (Option String) :=
  match value with
  | none | some .null => .ok none
  | some (.string text) =>
      if !isBlank text && text.utf8ByteSize ≤ maxBytes && !text.toList.any isControl then
        .ok (some text)
      else malformed (label ++ " is invalid")
  | some _ => malformed (label ++ " must be text")

def requiredBoundedString (value : Option Value) (label : String) (maxBytes : Nat) :
    Except Error String := do
  match ← optionalBoundedString value label maxBytes with
  | some text => return text
  | none => malformed (label ++ " is missing")

def toolNameCharacter (character : Char) : Bool :=
  character.isAlphanum || character == '_' || character == '-' || character == '.'

def validateProviderToolName (value : String) : Except Error Unit :=
  ensure (value != "" && value.utf8ByteSize ≤ 128 && value.toList.all toolNameCharacter)
    (.malformedModelResponse "tool name is invalid")

def parseFinishReason (value : Option Value) : Except Error FinishReason :=
  match value with
  | none | some .null => .ok (.other "unknown")
  | some (.string reason) =>
      if 128 < reason.utf8ByteSize || reason.toList.any isControl then
        malformed "finish reason is invalid"
      else if reason = "stop" then .ok .stop
      else if reason = "length" then .ok .length
      else if reason = "tool_calls" || reason = "tool_call" then .ok .toolCalls
      else if reason = "content_filter" then .ok .contentFilter
      else .ok (.other reason)
  | some _ => malformed "finish reason must be text"

def inferOllamaFinishReason (hasTools : Bool) : FinishReason :=
  if hasTools then .toolCalls else .stop

def parseOllamaFinishReason (value : Option Value) (hasTools : Bool) :
    Except Error FinishReason :=
  if value.all isNull then .ok (inferOllamaFinishReason hasTools)
  else do
    match ← parseFinishReason value with
    | .stop => return inferOllamaFinishReason hasTools
    | reason => return reason

def requiredU64 (value : Option Value) (label : String) : Except Error Nat :=
  match value.bind asU64 with
  | some count => .ok count
  | none => malformed (label ++ " is missing or invalid")

def parseOpenaiUsage (value : Option Value) : Except Error (Option ModelUsage) :=
  match value with
  | none | some .null => .ok none
  | some usage => do
      let inputTokens ← requiredU64 (usage.get? "prompt_tokens") "prompt token count"
      let outputTokens ← requiredU64 (usage.get? "completion_tokens") "completion token count"
      let totalTokens := ((usage.get? "total_tokens").bind asU64).getD
        (min (inputTokens + outputTokens) maxU64)
      return some ⟨inputTokens, outputTokens, totalTokens⟩

def parseOllamaUsage (root : Value) : Except Error (Option ModelUsage) :=
  match (root.get? "prompt_eval_count").bind asU64 with
  | none => .ok none
  | some inputTokens => do
      let outputTokens ← requiredU64 (root.get? "eval_count") "Ollama output token count"
      ensure (inputTokens + outputTokens ≤ maxU64) (.malformedModelResponse "token count overflow")
      return some ⟨inputTokens, outputTokens, inputTokens + outputTokens⟩

section

variable (fromStr : List Char → Except String Value)

/-! ## The tool calls of a complete message -/

def parseOpenaiFunction (function : Option Value) : Except Error (String × Value) :=
  match objectOf function with
  | none => malformed "tool call has no function"
  | some function => do
      let name ← requiredBoundedString (function.get? "name") "tool name" 128
      validateProviderToolName name
      let arguments ← parseOpenaiArgumentsForTool fromStr (function.get? "arguments")
      return (name, arguments)

def parseOpenaiToolCall (ids : List String) (call : Value) : Except Error ToolIntent := do
  let id ← requiredBoundedString (call.get? "id") "tool call identity" 256
  ensure (!ids.contains id) .duplicateToolCall
  let function ← parseOpenaiFunction fromStr (call.get? "function")
  return { id := id, providerId := some id, name := function.1, arguments := function.2 }

def parseOpenaiToolCallsFrom : List String → List Value → Except Error (List ToolIntent)
  | _, [] => .ok []
  | ids, call :: rest => do
      let intent ← parseOpenaiToolCall fromStr ids call
      let others ← parseOpenaiToolCallsFrom (intent.id :: ids) rest
      return intent :: others

def parseOpenaiToolCalls (value : Option Value) : Except Error (List ToolIntent) :=
  match value with
  | none | some .null => .ok []
  | some (.array calls) => parseOpenaiToolCallsFrom fromStr [] calls
  | some _ => malformed "tool calls must be an array"

def parseOllamaArguments (value : Option Value) : Except Error Value :=
  match value with
  | some (.object members) => .ok (.object members)
  | some (.string raw) => parseLenientToolArguments fromStr raw.toList
  | none | some .null => .ok (.object [])
  | some _ => malformed "tool arguments must be a JSON object"

def parseOllamaToolCall (providerIds : List String) (index : Nat) (call : Value) :
    Except Error ToolIntent := do
  match objectOf (call.get? "function") with
  | none => malformed "tool call has no function"
  | some function => do
      let name ← requiredBoundedString (function.get? "name") "tool name" 128
      validateProviderToolName name
      let arguments ← parseOllamaArguments fromStr (function.get? "arguments")
      ensure arguments.isObject (.malformedModelResponse "tool arguments must be a JSON object")
      let providerId ← optionalBoundedString (call.get? "id") "tool call identity" 256
      ensure (!providerId.any providerIds.contains) .duplicateToolCall
      return {
        id := providerId.getD ("ollama-call-" ++ toString index)
        providerId := providerId
        name := name
        arguments := arguments }

def parseOllamaToolCallsFrom : List String → Nat → List Value → Except Error (List ToolIntent)
  | _, _, [] => .ok []
  | providerIds, index, call :: rest => do
      let intent ← parseOllamaToolCall fromStr providerIds index call
      let others ← parseOllamaToolCallsFrom (intent.providerId.toList ++ providerIds) (index + 1) rest
      return intent :: others

def parseOllamaToolCalls (value : Option Value) (offset : Nat) :
    Except Error (List ToolIntent) :=
  match value with
  | none | some .null => .ok []
  | some (.array calls) => do
      ensure (offset + calls.length ≤ maxTools)
        (.malformedModelResponse "tool call count exceeds limit")
      parseOllamaToolCallsFrom fromStr [] offset calls
  | some _ => malformed "tool calls must be an array"

end

/-! ## The tool calls of a stream -/

structure PartialToolCall where
  providerId : Option String := none
  name : String := ""
  arguments : String := ""
  deriving DecidableEq, Repr

/-- The calls so far, by their indices. -/
abbrev PartialCalls := List (Nat × PartialToolCall)

def findCall (index : Nat) : PartialCalls → Option PartialToolCall
  | [] => none
  | (other, call) :: rest => if index = other then some call else findCall index rest

def setCall (index : Nat) (call : PartialToolCall) : PartialCalls → PartialCalls
  | [] => [(index, call)]
  | (other, existing) :: rest =>
      if index < other then (index, call) :: (other, existing) :: rest
      else if index = other then (index, call) :: rest
      else (other, existing) :: setCall index call rest

def mergeId (entry : PartialToolCall) (value : Option Value) : Except Error PartialToolCall := do
  match ← optionalBoundedString value "tool call identity" 256 with
  | none => return entry
  | some id =>
      ensure (entry.providerId.all (· == id))
        (.malformedModelResponse "stream tool call identity changed")
      return { entry with providerId := some id }

def mergeName (entry : PartialToolCall) (value : Option Value) :
    Except Error (PartialToolCall × Bool) :=
  match value with
  | none => .ok (entry, false)
  | some (.string name) => do
      let merged := entry.name ++ name
      ensure (merged.utf8ByteSize ≤ 128)
        (.malformedModelResponse "stream tool name exceeds limit")
      return ({ entry with name := merged }, name != "")
  | some _ => malformed "stream tool name must be text"

def mergeArguments (entry : PartialToolCall) (value : Option Value) :
    Except Error (PartialToolCall × Bool) :=
  match value with
  | none => .ok (entry, false)
  | some (.string arguments) => do
      let merged := entry.arguments ++ arguments
      ensure (merged.utf8ByteSize ≤ maxRecordBytes) (.modelResponseLimitExceeded maxRecordBytes)
      return ({ entry with arguments := merged }, arguments != "")
  | some _ => malformed "stream tool arguments must be JSON text"

def mergeFunction (entry : PartialToolCall) (value : Option Value) :
    Except Error (PartialToolCall × Bool) :=
  match value with
  | none => .ok (entry, false)
  | some (.object members) => do
      let (entry, named) ← mergeName entry ((Value.object members).get? "name")
      let (entry, argued) ← mergeArguments entry ((Value.object members).get? "arguments")
      return (entry, named || argued)
  | some _ => malformed "stream tool call function must be an object"

def mergeOpenaiToolDelta (calls : PartialCalls) (delta : Value) :
    Except Error (PartialCalls × Bool) :=
  match (delta.get? "index").bind asU64 with
  | none => malformed "stream tool call has no valid index"
  | some index => do
      ensure (index < maxTools) (.malformedModelResponse "stream tool call index exceeds limit")
      let entry ← mergeId ((findCall index calls).getD {}) (delta.get? "id")
      let (entry, progress) ← mergeFunction entry (delta.get? "function")
      return (setCall index entry calls, progress)

def mergeOpenaiToolDeltasFrom : PartialCalls → List Value → Except Error (PartialCalls × Bool)
  | calls, [] => .ok (calls, false)
  | calls, delta :: rest => do
      let (calls, progress) ← mergeOpenaiToolDelta calls delta
      let (calls, others) ← mergeOpenaiToolDeltasFrom calls rest
      return (calls, progress || others)

def mergeOpenaiToolDeltas (value : Option Value) (calls : PartialCalls) :
    Except Error (PartialCalls × Bool) :=
  match value with
  | none => .ok (calls, false)
  | some (.array deltas) => mergeOpenaiToolDeltasFrom calls deltas
  | some _ => malformed "stream tool calls must be an array"

def finishOpenaiToolCall (fromStr : List Char → Except String Value) (ids : List String)
    (call : PartialToolCall) : Except Error ToolIntent :=
  match call.providerId with
  | none => malformed "stream tool call has no identity"
  | some id => do
      ensure (!ids.contains id) .duplicateToolCall
      validateProviderToolName call.name
      let arguments ← parseOpenaiArgumentsForTool fromStr (some (.string call.arguments))
      return { id := id, providerId := some id, name := call.name, arguments := arguments }

def finishOpenaiToolCalls (fromStr : List Char → Except String Value) :
    List String → PartialCalls → Except Error (List ToolIntent)
  | _, [] => .ok []
  | ids, (_, call) :: rest => do
      let intent ← finishOpenaiToolCall fromStr ids call
      let others ← finishOpenaiToolCalls fromStr (intent.id :: ids) rest
      return intent :: others

end Kvist.Transport
