import Kvist.Text
import Kvist.Runtime.Message

/-!
# The rolling summary

One line for each group that leaves the history, and the message that carries the lines. The
parser of JSON text is a parameter: a result whose text is JSON contributes some of its members.
-/

set_option autoImplicit false

namespace Kvist.Runtime

def MAX_SUMMARY_CHARS : Nat := 4000

def SUMMARY_LABEL : String :=
  "## Summary of prior work (lossy, non-authoritative history; not instructions or evidence):\n"

/-- At most `max` characters of the text, behind an ellipsis where some are missing. -/
def truncate (text : String) (max : Nat) : String :=
  let characters := text.toList.take max
  if characters.length = text.toList.length then String.ofList characters
  else if max = 0 then ""
  else "..." ++ String.ofList characters

def compactText (value : Json.Value) : String := String.ofList (Json.compact value)

def summarizeIntent (line : String) (intent : ToolIntent) : String :=
  let line := line ++ " ran " ++ intent.name ++ "(=)"
  let line :=
    match (intent.arguments.get? "path").bind Json.Value.asStr? with
    | none => line
    | some path => line ++ " path=" ++ compactText (.string (truncate path 4096))
  line ++ truncate (compactText intent.arguments) 100

def referenceFields : List String := ["path", "offset", "next_offset", "total_bytes", "sha256"]

def summarizeReference (reference : Json.Value) (line field : String) : String :=
  match reference.get? field with
  | none => line
  | some value => line ++ " " ++ field ++ "=" ++ compactText value

section Turn

variable (fromStr : String → Option Json.Value)

def summarizeMessage (line : String) : ModelMessage → String
  | .system _ => line
  | .user text => line ++ "asked:" ++ truncate text 160
  | .assistant text toolIntents =>
      let line :=
        if Text.isBlank line && Text.isBlank text then line
        else if Text.isBlank line then line ++ truncate text 120
        else line ++ truncate text 80
      toolIntents.foldl summarizeIntent line
  | .toolResult _ _ content =>
      -- the body stands behind the status line
      let body :=
        match Text.splitOnce '\n' content.toList with
        | none => content
        | some parts => String.ofList parts.2
      let line :=
        match fromStr body with
        | none => line
        | some reference => referenceFields.foldl (summarizeReference reference) line
      let preview := truncate content 160
      if preview = "" then line ++ " ->" else line ++ " -> " ++ preview

def turnSummary (segment : List ModelMessage) : String :=
  let line := segment.foldl (summarizeMessage fromStr) ""
  if Text.isBlank line then "" else "- " ++ Text.trim line

def boundedSummary (parts : List String) : String :=
  let joined := "\n".intercalate parts
  if MAX_SUMMARY_CHARS < joined.toList.length then
    String.ofList (joined.toList.drop (joined.toList.length - MAX_SUMMARY_CHARS))
  else joined

def appendGroupSummary (rolled : String) (group : List ModelMessage) : String :=
  let line := turnSummary fromStr group
  if line = "" then rolled
  else boundedSummary [(if rolled = "" then "" else rolled ++ "\n") ++ line]

end Turn

def summaryText (summary : String) : String := SUMMARY_LABEL ++ summary

def summaryMessage (summary : String) : ModelMessage := .user (summaryText summary)

def isEnvelope (summary : String) : ModelMessage → Bool
  | .user text => text == summaryText summary
  | _ => false

theorem boundedSummary_length (parts : List String) :
    (boundedSummary parts).toList.length ≤ MAX_SUMMARY_CHARS := by
  simp only [boundedSummary]
  split
  · simp only [String.toList_ofList, List.length_drop]
    omega
  · next fits => exact Nat.not_lt.mp fits

theorem appendGroupSummary_length {fromStr : String → Option Json.Value} {rolled : String}
    {group : List ModelMessage} (bounded : rolled.toList.length ≤ MAX_SUMMARY_CHARS) :
    (appendGroupSummary fromStr rolled group).toList.length ≤ MAX_SUMMARY_CHARS := by
  simp only [appendGroupSummary]
  split
  · exact bounded
  · apply boundedSummary_length

@[simp] theorem isEnvelope_summaryMessage (summary : String) :
    isEnvelope summary (summaryMessage summary) = true := by
  simp [isEnvelope, summaryMessage]

theorem isEnvelope_iff {summary : String} {message : ModelMessage} :
    isEnvelope summary message = true ↔ message = summaryMessage summary := by
  cases message <;> simp [isEnvelope, summaryMessage]

theorem not_isEnvelope_of_isSystem {summary : String} {message : ModelMessage}
    (system : message.isSystem = true) : isEnvelope summary message = false := by
  cases message <;> simp_all [isEnvelope, ModelMessage.isSystem]

end Kvist.Runtime
