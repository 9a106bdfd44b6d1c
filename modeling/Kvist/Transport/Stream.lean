import Kvist.Lines
import Kvist.Transport.Response

/-!
# Streamed responses

A decoder takes the bytes of a response in chunks and processes them line by line: server-sent
events of the OpenAI-compatible server, or one JSON record a line. The events are delivered to the
host while the response is read. A run that is cancelled or out of time is not modelled.
-/

set_option autoImplicit false

namespace Kvist.Transport

open Model Text Lines
open Kvist.Runtime (ToolIntent FinishReason)
open Json (Value)

structure OpenAiStreamState where
  requestedModel : String
  text : String := ""
  reasoning : String := ""
  calls : PartialCalls := []
  terminal : Bool := false
  finishReason : Option FinishReason := none
  model : Option String := none
  requestId : Option String := none
  eventId : Option String := none
  currentEvent : Option (List Char) := none
  pendingData : List Char := []
  usage : Option ModelUsage := none

structure OllamaStreamState where
  requestedModel : String
  text : String := ""
  reasoning : String := ""
  toolIntents : List ToolIntent := []
  terminal : Bool := false
  finishReason : Option FinishReason := none
  model : Option String := none
  usage : Option ModelUsage := none
  providerIds : List String := []

inductive StreamState where
  | openAi (state : OpenAiStreamState)
  | ollama (state : OllamaStreamState)

structure StreamDecoder where
  pending : List UInt8
  state : StreamState

def StreamDecoder.new (provider : LocalModelProvider) (requestedModel : String) : StreamDecoder where
  pending := []
  state := match provider with
    | .llamaServer => .openAi { requestedModel := requestedModel }
    | .ollama => .ollama { requestedModel := requestedModel }

/-- The host, which is told about each event, and the parser of JSON text. -/
structure Environment (Host : Type) where
  fromSlice : List UInt8 → Except String Value
  onEvent : ModelStreamEvent → EStateM Error Host Unit

namespace Environment

variable {Host : Type} (environment : Environment Host)

def fromStr (text : List Char) : Except String Value := environment.fromSlice (Json.utf8 text)

def parseJson (text : List Char) : Except Error Value :=
  match environment.fromStr text with
  | .ok value => .ok value
  | .error _ => malformed "provider returned invalid JSON"

end Environment

variable {Host : Type}

def lift {Result : Type} (outcome : Except Error Result) : EStateM Error Host Result :=
  match outcome with
  | .ok value => pure value
  | .error error => throw error

namespace OpenAiStreamState

variable (environment : Environment Host)

def mergeChoice (state : OpenAiStreamState) (choice : Value) :
    EStateM Error Host (OpenAiStreamState × Bool) := do
  let state ← match (choice.get? "finish_reason").filter fun value => !isNull value with
    | none => pure state
    | some reason => do
        let reason ← lift (parseFinishReason (some reason))
        pure { state with finishReason := some reason }
  match objectOf (choice.get? "delta") with
  | none => return (state, false)
  | some delta => do
      let (state, worded) ← match stringOf (delta.get? "content") with
        | none => pure (state, false)
        | some fragment => do
            environment.onEvent (.textDelta fragment)
            pure ({ state with text := state.text ++ fragment }, fragment != "")
      let reasoning ← lift (firstString delta ["reasoning_content", "reasoning", "thinking"])
      let (state, reasoned) ← match reasoning.filter (· != "") with
        | none => pure (state, false)
        | some fragment => do
            environment.onEvent (.reasoningDelta fragment)
            pure ({ state with reasoning := state.reasoning ++ fragment }, true)
      let (calls, called) ← lift (mergeOpenaiToolDeltas (delta.get? "tool_calls") state.calls)
      return ({ state with calls := calls }, worded || reasoned || called)

def mergeChoices (state : OpenAiStreamState) : List Value →
    EStateM Error Host (OpenAiStreamState × Bool)
  | [] => pure (state, false)
  | choice :: rest => do
      let (state, progress) ← state.mergeChoice environment choice
      let (state, others) ← state.mergeChoices rest
      return (state, progress || others)

/-- The choices of a record. They may be left out where it is about something else. -/
def choicesOf (state : OpenAiStreamState) (chunk : Value) : Except Error (List Value) :=
  match chunk.get? "choices" with
  | some (.array choices) => .ok choices
  | none | some .null =>
      if (chunk.get? "usage").isSome || (chunk.get? "timings").isSome ||
          state.currentEvent == some "ping".toList then
        .ok []
      else malformed "streaming response has no choices array"
  | some _ => malformed "streaming response has no choices array"

def processChunk (state : OpenAiStreamState) (chunk : Value) :
    EStateM Error Host (OpenAiStreamState × Bool) := do
  lift (ensure (chunk.get? "error").isNone
    (.malformedModelResponse "streaming response reported a provider error"))
  let model ← lift (optionalBoundedString (chunk.get? "model") "model identity" 256)
  let requestId ← lift (optionalBoundedString (chunk.get? "id") "request identity" 256)
  let usage ← lift (parseOpenaiUsage (chunk.get? "usage"))
  let state := { state with
    model := model <|> state.model
    requestId := requestId <|> state.requestId
    usage := usage <|> state.usage }
  let choices ← lift (state.choicesOf chunk)
  state.mergeChoices environment choices

def processDataPayload (state : OpenAiStreamState) (data : List Char) :
    EStateM Error Host (OpenAiStreamState × Bool) := do
  let data := trimList data
  if data.isEmpty then return (state, false)
  else if data == "[DONE]".toList then return ({ state with terminal := true }, false)
  else if state.terminal then lift (malformed "SSE data followed terminal marker")
  else if state.currentEvent == some "error".toList then
    lift (malformed "SSE stream reported an error event")
  else if state.currentEvent == some "ping".toList &&
      (data == ['\x7b', '\x7d'] || data == "null".toList) then
    return (state, false)
  else do
    let chunk ← lift (environment.parseJson data)
    state.processChunk environment chunk

def appendData (state : OpenAiStreamState) (value : List Char) :
    EStateM Error Host (OpenAiStreamState × Bool) := do
  lift (ensure (Json.utf8Bytes state.pendingData + Json.utf8Bytes value ≤ maxRecordBytes)
    (.modelResponseLimitExceeded maxRecordBytes))
  return ({ state with pendingData := state.pendingData ++ value }, false)

def processData (state : OpenAiStreamState) (value : List Char) :
    EStateM Error Host (OpenAiStreamState × Bool) :=
  if state.pendingData.isEmpty then
    if value == "[DONE]".toList then pure ({ state with terminal := true }, false)
    else if state.terminal then lift (malformed "SSE data followed terminal marker")
    else if (trimList value).isEmpty then pure (state, false)
    else if (environment.fromStr value).isOk then state.processDataPayload environment value
    else state.appendData value
  else appendData { state with pendingData := state.pendingData ++ ['\n'] } value

def processEvent (state : OpenAiStreamState) (value : List Char) : OpenAiStreamState :=
  let name := trimList value
  if name.isEmpty || 128 < Json.utf8Bytes name || name.any isControl then state
  else { state with currentEvent := some name }

def processId (state : OpenAiStreamState) (value : List Char) : OpenAiStreamState :=
  if !value.contains '\x00' && !(trimList value).isEmpty && Json.utf8Bytes value ≤ 256 &&
      !value.any isControl then
    { state with eventId := some (String.ofList value) }
  else state

/-- An empty line ends an event, and a colon begins a comment. Other fields are ignored. -/
def processLine (state : OpenAiStreamState) (line : List Char) :
    EStateM Error Host (OpenAiStreamState × Bool) := do
  let line := (stripLeading ['\ufeff'] line).getD line
  if line.isEmpty then
    let (state, progress) ←
      if state.pendingData.isEmpty then pure (state, false)
      else processDataPayload environment { state with pendingData := [] } state.pendingData
    return ({ state with currentEvent := none }, progress)
  else if line.head? == some ':' then return (state, false)
  else
    let (field, value) := match splitOnce ':' line with
      | some (field, value) => (field, (stripLeading [' '] value).getD value)
      | none => (line, [])
    if field == "data".toList then state.processData environment value
    else if field == "event".toList then return (state.processEvent value, false)
    else if field == "id".toList then return (state.processId value, false)
    else return (state, false)

def deliverIntents (environment : Environment Host) : List ToolIntent → EStateM Error Host Unit
  | [] => pure ()
  | intent :: rest => do
      environment.onEvent (.toolIntent intent)
      deliverIntents environment rest

def finish (state : OpenAiStreamState) : EStateM Error Host ModelTurn := do
  let (state, _) ←
    if state.pendingData.isEmpty then pure (state, false)
    else processDataPayload environment { state with pendingData := [] } state.pendingData
  lift (ensure state.terminal (.malformedModelResponse "stream ended without terminal record"))
  let toolIntents ← lift (finishOpenaiToolCalls environment.fromStr [] state.calls)
  deliverIntents environment toolIntents
  let responseId := state.requestId <|> state.eventId
  return {
    text := state.text
    reasoning := if state.reasoning = "" then none else some state.reasoning
    finishReason := state.finishReason.getD (.other "unknown")
    toolIntents := toolIntents
    provider := .llamaServer
    model := state.model.getD state.requestedModel
    responseId := responseId
    providerRequestId := state.eventId.filter fun eventId => responseId != some eventId
    usage := state.usage }

end OpenAiStreamState

namespace OllamaStreamState

variable (environment : Environment Host)

/-- The identities of the calls, unless one of them was there before. -/
def insertIds : List String → List ToolIntent → Except Error (List String)
  | ids, [] => .ok ids
  | ids, call :: rest =>
      match call.providerId with
      | none => insertIds ids rest
      | some id => do
          ensure (!ids.contains id) .duplicateToolCall
          insertIds (id :: ids) rest

def processMessage (state : OllamaStreamState) (message : Value) :
    EStateM Error Host (OllamaStreamState × Bool) := do
  let reasoning ← lift (firstString message ["thinking", "reasoning"])
  let (state, reasoned) ← match reasoning.filter (· != "") with
    | none => pure (state, false)
    | some fragment => do
        environment.onEvent (.reasoningDelta fragment)
        pure ({ state with reasoning := state.reasoning ++ fragment }, true)
  let (state, worded) ← match stringOf (message.get? "content") with
    | none => pure (state, false)
    | some fragment => do
        if fragment != "" then environment.onEvent (.textDelta fragment)
        pure ({ state with text := state.text ++ fragment }, fragment != "")
  let calls ← lift (parseOllamaToolCalls environment.fromStr (message.get? "tool_calls")
    state.toolIntents.length)
  let providerIds ← lift (insertIds state.providerIds calls)
  return ({ state with
    providerIds := providerIds
    toolIntents := state.toolIntents ++ calls }, reasoned || worded || !calls.isEmpty)

def processLine (state : OllamaStreamState) (line : List Char) :
    EStateM Error Host (OllamaStreamState × Bool) := do
  let line := trimList line
  if line.isEmpty then return (state, false)
  else if state.terminal then lift (malformed "NDJSON record followed terminal record")
  else do
    let chunk ← lift (environment.parseJson line)
    let model ← lift (optionalBoundedString (chunk.get? "model") "model identity" 256)
    let state := { state with model := model <|> state.model }
    let (state, progress) ← match objectOf (chunk.get? "message") with
      | none => pure (state, false)
      | some message => state.processMessage environment message
    if (chunk.get? "done").bind asBool == some true then do
      let reason ← lift (parseOllamaFinishReason (chunk.get? "done_reason")
        (!state.toolIntents.isEmpty))
      let usage ← lift (parseOllamaUsage chunk)
      return ({ state with terminal := true, finishReason := some reason, usage := usage }, progress)
    else return (state, progress)

def finish (state : OllamaStreamState) : EStateM Error Host ModelTurn := do
  lift (ensure state.terminal (.malformedModelResponse "stream ended without terminal record"))
  OpenAiStreamState.deliverIntents environment state.toolIntents
  return {
    text := state.text
    reasoning := if state.reasoning = "" then none else some state.reasoning
    finishReason := state.finishReason.getD (inferOllamaFinishReason (!state.toolIntents.isEmpty))
    toolIntents := state.toolIntents
    provider := .ollama
    model := state.model.getD state.requestedModel
    responseId := none
    providerRequestId := none
    usage := state.usage }

end OllamaStreamState

namespace StreamDecoder

variable (environment : Environment Host)

def processLine (state : StreamState) (line : List UInt8) :
    EStateM Error Host (StreamState × Bool) :=
  match line.toByteArray.utf8Decode? with
  | none => lift (malformed "stream record is not UTF-8")
  | some text =>
      match state with
      | .openAi state => do
          let (state, progress) ← state.processLine environment text.toList
          return (.openAi state, progress)
      | .ollama state => do
          let (state, progress) ← state.processLine environment text.toList
          return (.ollama state, progress)

def dropCarriageReturn (line : List UInt8) : List UInt8 :=
  if line.getLast? = some 13 then line.dropLast else line

/-- A line that has ended, and whether it or one before made progress. -/
def processEnded (state : StreamState × Bool) (line : List UInt8) :
    EStateM Error Host (StreamState × Bool) := do
  let (next, progress) ← processLine environment state.1 (dropCarriageReturn line)
  return (next, state.2 || progress)

def push (decoder : StreamDecoder) (bytes : List UInt8) :
    EStateM Error Host (StreamDecoder × Bool) := do
  let ((state, progress), pending) ← readLines Json.newline maxRecordBytes
    (.modelResponseLimitExceeded maxRecordBytes) (processEnded environment)
    (decoder.state, false) (decoder.pending ++ bytes)
  return (⟨pending, state⟩, progress)

def finish (decoder : StreamDecoder) : EStateM Error Host ModelTurn := do
  let state ←
    if decoder.pending.isEmpty then pure decoder.state
    else do
      lift (ensure (decoder.pending.length ≤ maxRecordBytes)
        (.modelResponseLimitExceeded maxRecordBytes))
      let (state, _) ← processLine environment decoder.state decoder.pending
      pure state
  match state with
  | .openAi state => state.finish environment
  | .ollama state => state.finish environment

/-- A response that arrives in chunks, up to its turn or its failure. -/
def decode (decoder : StreamDecoder) (chunks : List (List UInt8)) : EStateM Error Host ModelTurn := do
  let decoder ← chunks.foldlM (fun decoder chunk => Prod.fst <$> push environment decoder chunk)
    decoder
  decoder.finish environment

end StreamDecoder

end Kvist.Transport

/-! ## Chunks of a response

A response is decoded line by line, so that it does not matter in which chunks it arrives: the host
is told the same, and the turn or the failure at the end is the same.
-/

namespace Kvist.Transport.StreamDecoder

open Lines

variable {Host : Type} (environment : Environment Host)

def processSegment (state : StreamState) (line : List UInt8) : EStateM Error Host StreamState :=
  Prod.fst <$> processLine environment state (dropCarriageReturn line)

theorem processEnded_state (state : StreamState × Bool) (line : List UInt8) :
    Prod.fst <$> processEnded environment state line = processSegment environment state.1 line := by
  rw [processEnded, processSegment, map_bind]
  simp only [map_pure]
  rw [bind_pure_comp]

def readerOf (decoder : StreamDecoder) : StreamState × List UInt8 := (decoder.state, decoder.pending)

def ofReader (reader : StreamState × List UInt8) : StreamDecoder := ⟨reader.2, reader.1⟩

theorem push_state (decoder : StreamDecoder) (bytes : List UInt8) :
    Prod.fst <$> push environment decoder bytes =
      ofReader <$> readChunk Json.newline maxRecordBytes
        (.modelResponseLimitExceeded maxRecordBytes) (processSegment environment)
        (readerOf decoder) bytes := by
  have alike := readLines_map Json.newline maxRecordBytes
    (Error.modelResponseLimitExceeded maxRecordBytes) Prod.fst (processEnded_state environment)
    (decoder.state, false) (decoder.pending ++ bytes)
  rw [push, readChunk, readerOf, ← alike, map_bind]
  simp only [map_pure, Functor.map_map]
  rw [bind_pure_comp]
  rfl

theorem pushAll_flatten (decoder : StreamDecoder) (chunks : List (List UInt8)) :
    chunks.foldlM (fun decoder chunk => Prod.fst <$> push environment decoder chunk) decoder =
      ofReader <$> chunks.foldlM (readChunk Json.newline maxRecordBytes
        (.modelResponseLimitExceeded maxRecordBytes) (processSegment environment))
        (readerOf decoder) := by
  induction chunks generalizing decoder with
  | nil => rfl
  | cons chunk rest ih =>
      rw [List.foldlM_cons, List.foldlM_cons, push_state, map_bind, bind_map_left]
      congr 1
      funext reader
      exact ih (ofReader reader)

/-- A response is decoded alike in every partition into chunks, for every host. -/
theorem decode_chunks (provider : Model.LocalModelProvider) (requestedModel : String)
    (chunks : List (List UInt8)) :
    decode environment (new provider requestedModel) chunks =
      decode environment (new provider requestedModel) [chunks.flatten] := by
  have start : readerOf (new provider requestedModel) =
      ((new provider requestedModel).state, []) := rfl
  rw [decode, decode, pushAll_flatten, pushAll_flatten, start, foldlM_readChunk, foldlM_readChunk,
    List.flatten_singleton]

end Kvist.Transport.StreamDecoder
