import Kvist.Json.Value

/-!
# Conversation messages and model requests

The canonical conversation and the request of one model turn, with their JSON forms: an
alternative of a message is an object with its one name, and an absent option is left out.
-/

set_option autoImplicit false

namespace Kvist.Runtime

structure ToolIntent where
  id : String
  providerId : Option String
  name : String
  arguments : Json.Value
  deriving Repr

inductive ModelMessage where
  | system (text : String)
  | user (text : String)
  | assistant (text : String) (toolIntents : List ToolIntent)
  | toolResult (callId name content : String)
  deriving Repr

structure ToolDefinition where
  name : String
  description : String
  parameters : Json.Value
  deriving Repr

inductive ToolChoice where
  | none
  | auto
  | required
  deriving DecidableEq, Repr

inductive ReasoningEffort where
  | none
  | minimal
  | low
  | medium
  | high
  | xhigh
  | max
  deriving DecidableEq, Repr

def ReasoningEffort.asStr : ReasoningEffort → String
  | .none => "none"
  | .minimal => "minimal"
  | .low => "low"
  | .medium => "medium"
  | .high => "high"
  | .xhigh => "xhigh"
  | .max => "max"

structure ModelRequest where
  model : String
  messages : List ModelMessage
  tools : List ToolDefinition
  toolChoice : ToolChoice
  reasoningEffort : Option ReasoningEffort
  outputSchema : Option Json.Value
  maxOutputTokens : Option Nat
  deriving Repr

inductive Error where
  | config (reason : String)
  | invalidModelTurn (reason : String)
  | contextBudget (used limit reserve : Nat)
  deriving DecidableEq, Repr

namespace ModelMessage

def isSystem : ModelMessage → Bool
  | .system _ => true
  | _ => false

def isUser : ModelMessage → Bool
  | .user _ => true
  | _ => false

end ModelMessage

/-! ## JSON forms -/

def optionToJson {α : Type} (form : α → Json.Value) : Option α → Json.Value
  | .none => .null
  | .some value => form value

def ToolIntent.toJson (intent : ToolIntent) : Json.Value :=
  .object [("id", .string intent.id), ("provider_id", optionToJson .string intent.providerId),
    ("name", .string intent.name), ("arguments", intent.arguments)]

def ModelMessage.toJson : ModelMessage → Json.Value
  | .system text => .object [("system", .string text)]
  | .user text => .object [("user", .string text)]
  | .assistant text toolIntents =>
      .object [("assistant", .object
        [("text", .string text), ("tool_intents", .array (toolIntents.map ToolIntent.toJson))])]
  | .toolResult callId name content =>
      .object [("tool-result", .object
        [("call_id", .string callId), ("name", .string name), ("content", .string content)])]

def ToolDefinition.toJson (tool : ToolDefinition) : Json.Value :=
  .object [("name", .string tool.name), ("description", .string tool.description),
    ("parameters", tool.parameters)]

def ToolChoice.toJson : ToolChoice → Json.Value
  | .none => .string "none"
  | .auto => .string "auto"
  | .required => .string "required"

def ReasoningEffort.toJson : ReasoningEffort → Json.Value
  | .none => .string "none"
  | .minimal => .string "minimal"
  | .low => .string "low"
  | .medium => .string "medium"
  | .high => .string "high"
  | .xhigh => .string "xhigh"
  | .max => .string "max"

def presentMember {α : Type} (name : String) (form : α → Json.Value) :
    Option α → List (String × Json.Value)
  | .none => []
  | .some value => [(name, form value)]

def ModelRequest.toJson (request : ModelRequest) : Json.Value :=
  .object ([("model", .string request.model),
      ("messages", .array (request.messages.map ModelMessage.toJson)),
      ("tools", .array (request.tools.map ToolDefinition.toJson)),
      ("tool_choice", request.toolChoice.toJson)] ++
    presentMember "reasoning_effort" ReasoningEffort.toJson request.reasoningEffort ++
    presentMember "output_schema" id request.outputSchema ++
    presentMember "max_output_tokens" Json.natural request.maxOutputTokens)

end Kvist.Runtime
