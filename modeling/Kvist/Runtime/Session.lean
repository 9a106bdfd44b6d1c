import Kvist.Runtime.Context

/-!
# The conversation of an agent

The messages of a conversation behind a system prompt, the request for its next turn, and what a
turn and its tool results append. The text of a tool result is the bounded preview of the tool's
output.
-/

set_option autoImplicit false

namespace Kvist.Runtime

inductive FinishReason where
  | stop
  | length
  | toolCalls
  | contentFilter
  | other (reason : String)
  deriving DecidableEq, Repr

def finishReasonStr : FinishReason → String
  | .stop => "stop"
  | .length => "length"
  | .toolCalls => "tool_calls"
  | .contentFilter => "content_filter"
  | .other reason => reason

structure ModelTurn where
  text : String
  toolIntents : List ToolIntent
  finishReason : FinishReason

/-! ## Validating a turn -/

def MAX_TOOL_CALLS : Nat := 32

def validIdentity (identity : String) (maxBytes : Nat) : Bool :=
  !(identity = "" || maxBytes < identity.utf8ByteSize ||
    identity.toList.contains (Char.ofNat 0))

def validateIntents : List String → List ToolIntent → Except Error Unit
  | _, [] => .ok ()
  | seen, intent :: rest => do
      ensure (validIdentity intent.id 256 && validIdentity intent.name 128 &&
          !seen.contains intent.id && intent.arguments.isObject)
        (.invalidModelTurn "invalid or duplicate tool identity/arguments")
      ensure (Json.serializedBytes intent.arguments ≤ 1024 * 1024)
        (.invalidModelTurn "tool arguments exceed 1 MiB")
      validateIntents (seen ++ [intent.id]) rest

def validateTurn (turn : ModelTurn) : Except Error Unit := do
  ensure (turn.finishReason = .stop && turn.toolIntents.isEmpty && !Text.isBlank turn.text ||
      turn.finishReason = .toolCalls && !turn.toolIntents.isEmpty)
    (.invalidModelTurn ("incomplete or inconsistent finish \x60" ++
      finishReasonStr turn.finishReason ++ "\x60"))
  ensure (turn.toolIntents.length ≤ MAX_TOOL_CALLS)
    (.invalidModelTurn "more than 32 tool calls in one turn")
  validateIntents [] turn.toolIntents

/-! ## The conversation -/

structure AgentSession where
  model : String
  thinkingEffort : ReasoningEffort
  systemPrompt : String
  messages : List ModelMessage
  toolDefs : List ToolDefinition

namespace AgentSession

def new (model : String) (thinkingEffort : ReasoningEffort) (toolDefs : List ToolDefinition)
    (systemPrompt : String) : AgentSession :=
  { model, thinkingEffort, systemPrompt, messages := [], toolDefs }

def pushUser (session : AgentSession) (text : String) : AgentSession :=
  { session with messages := session.messages ++ [.user text] }

def applyAssistant (session : AgentSession) (turn : ModelTurn) : AgentSession :=
  { session with messages := session.messages ++ [.assistant turn.text turn.toolIntents] }

def recordToolResult (session : AgentSession) (callId name content : String) : AgentSession :=
  { session with messages := session.messages ++ [.toolResult callId name content] }

def systemMessages (session : AgentSession) : List ModelMessage :=
  if session.systemPrompt = "" then [] else [.system session.systemPrompt]

def nextRequest (session : AgentSession) : Option ModelRequest :=
  if session.messages.isEmpty then none
  else some
    { model := session.model
      messages := session.systemMessages ++ session.messages
      tools := session.toolDefs
      toolChoice := if session.toolDefs.isEmpty then .none else .auto
      reasoningEffort := some session.thinkingEffort
      outputSchema := none
      maxOutputTokens := none }

/-- What `prepareRequest` returns and leaves behind. -/
structure PreparedRequest where
  result : Except Error (Option (ModelRequest × Option Compaction))
  session : AgentSession
  context : ContextManager

def prepareRequest (fromStr : String → Option Json.Value) (session : AgentSession)
    (context : ContextManager) (responseReserve : Nat) : PreparedRequest :=
  match session.nextRequest with
  | none => ⟨.ok none, session, context⟩
  | some request =>
      let prepared := context.prepare fromStr request responseReserve
      match prepared.result with
      | .error error => ⟨.error error, session, prepared.manager⟩
      | .ok compaction =>
          ⟨.ok (some (prepared.request, compaction)),
            { session with
              messages := prepared.request.messages.drop session.systemMessages.length },
            prepared.manager⟩

end AgentSession

end Kvist.Runtime
