import Kvist.Runtime.Session

/-!
# Model turns

What a provider gives back for one request: the complete turn, and the events of a stream in the
order in which they arrive.
-/

set_option autoImplicit false

namespace Kvist.Model

open Kvist.Runtime (ToolIntent FinishReason)

inductive LocalModelProvider where
  | llamaServer
  | ollama
  deriving DecidableEq, Repr

structure ModelUsage where
  inputTokens : Nat
  outputTokens : Nat
  totalTokens : Nat
  deriving DecidableEq, Repr

/-- The turn that a session commits, with what is reported about it. -/
structure ModelTurn extends Runtime.ModelTurn where
  reasoning : Option String
  provider : LocalModelProvider
  model : String
  responseId : Option String
  providerRequestId : Option String
  usage : Option ModelUsage

inductive ModelStreamEvent where
  | textDelta (fragment : String)
  | reasoningDelta (fragment : String)
  | toolIntent (intent : ToolIntent)

end Kvist.Model
