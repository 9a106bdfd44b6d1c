import Kvist.Authoring.Plan
import Std.Data.String.ToNat

/-!
# Staging and application of an effect

The host writes each effect to a file under the component state, and the applier reads it in the
sandbox. The applier checks everything again and proves the identity of the bytes before it writes.
-/

set_option autoImplicit false

namespace Kvist.Authoring

open FileSystem
open Json (Value)
open Kvist.Runtime (ToolIntent)

def stagedIntentSchemaVersion : Nat := 1
def maxStagedIntentBytes : Nat := 2097152
def maxU32 : Nat := 4294967295

structure StagedIntent where
  schemaVersion : Nat
  callId : String
  tool : String
  destination : String
  contentIdentity : String
  content : String
  replacement : Option String
  deriving DecidableEq, Repr

inductive Error where
  | authoringEffectFailed (callId reason : String)
  | io (operation : String) (path : String) (error : Errno)
  deriving DecidableEq, Repr

/-! ## The staged file -/

namespace StagedIntent

/-- The replacement is left out where there is none. -/
def toValue (staged : StagedIntent) : Value :=
  .object ([("schema_version", Json.natural staged.schemaVersion),
    ("call_id", .string staged.callId), ("tool", .string staged.tool),
    ("destination", .string staged.destination),
    ("content_identity", .string staged.contentIdentity), ("content", .string staged.content)] ++
    staged.replacement.toList.map fun replacement => ("replacement", .string replacement))

def fields : List String :=
  ["schema_version", "call_id", "tool", "destination", "content_identity", "content",
    "replacement"]

def asVersion : Value → Option Nat
  | .number literal => literal.toNat?.filter (· ≤ maxU32)
  | _ => none

def optionalText : Option Value → Option (Option String)
  | none | some .null => some none
  | some (.string text) => some (some text)
  | some _ => none

/-- The fields by their names, each at most once and no others. -/
def fromMembers (members : List (String × Value)) : Option StagedIntent :=
  if (members.map Prod.fst).Nodup ∧ ∀ member ∈ members, member.1 ∈ fields then do
    let value := Value.object members
    let schemaVersion ← (value.get? "schema_version").bind asVersion
    let callId ← textArgument value "call_id"
    let tool ← textArgument value "tool"
    let destination ← textArgument value "destination"
    let contentIdentity ← textArgument value "content_identity"
    let content ← textArgument value "content"
    let replacement ← optionalText (value.get? "replacement")
    return ⟨schemaVersion, callId, tool, destination, contentIdentity, content, replacement⟩
  else none

/-- The fields by their places. -/
def fromItems : List Value → Option StagedIntent
  | version :: .string callId :: .string tool :: .string destination ::
      .string contentIdentity :: .string content :: rest => do
      let schemaVersion ← asVersion version
      match rest with
      | [] => return ⟨schemaVersion, callId, tool, destination, contentIdentity, content, none⟩
      | [last] => do
          let replacement ← optionalText (some last)
          return ⟨schemaVersion, callId, tool, destination, contentIdentity, content, replacement⟩
      | _ => none
  | _ => none

def fromValue : Value → Option StagedIntent
  | .object members => fromMembers members
  | .array items => fromItems items
  | _ => none

def toVec (staged : StagedIntent) : List UInt8 := Json.encode staged.toValue

end StagedIntent

/-! ## Staging -/

def stagingParts : List String := [".kvist", "authoring"]

section

-- The digest of bytes in hexadecimal, and the JSON parser.
variable (sha256Hex : List UInt8 → String) (fromSlice : List UInt8 → Option Value)

/-- The name of the staged file. The call identity only goes in through its digest. -/
def stagedName (sessionId callId : String) : String :=
  sessionId ++ "_" ++ String.ofList ((sha256Hex (bytesOf callId)).toList.take 16) ++ ".json"

def stagedContent (effect : CheckedIntent) (raw : ToolIntent) : Except Error String :=
  if effect.tool = "write_file" then
    match (textArgument raw.arguments "content").filter (· != "") with
    | some content => .ok content
    | none => .error (.authoringEffectFailed effect.callId "raw intent carries no writable content")
  else if effect.tool = "edit_file" then
    match textArgument raw.arguments "content" with
    | some content => .ok content
    | none =>
        .error (.authoringEffectFailed effect.callId "raw intent carries no replacement content")
  else .error (.authoringEffectFailed effect.callId
    ("tool \x60" ++ effect.tool ++ "\x60 is not an authorized authoring tool"))

def stagedIntent (effect : CheckedIntent) (content : String) : StagedIntent where
  schemaVersion := stagedIntentSchemaVersion
  callId := effect.callId
  tool := effect.tool
  destination := effect.destination
  contentIdentity := effect.contentIdentity
  content := content
  replacement := effect.replacement

def failedIo {Result : Type} (operation path : String) :
    Except Errno Result → Except Error Result
  | .ok result => .ok result
  | .error error => .error (.io operation path error)

section

variable (tree : FileTree String) (root : String)

def ensureRealDirectory (parts : List String) (operation : String) :
    Except Error (FileTree String) :=
  match symlinkMetadata tree root parts with
  | .ok .directory => .ok tree
  | .ok _ => .error (.io operation (display root parts) .other)
  | .error .notFound =>
      failedIo operation (display root parts)
        (tree.createDirectory (componentPath root parts.dropLast) (parts.getLast?.getD ""))
  | .error error => .error (.io operation (display root parts) error)

/-- The staged file is written below the component state. The directory for it stays behind also
where the file is not written. -/
def stageIntent (sessionId : String) (effect : CheckedIntent) (raw : ToolIntent) :
    Except Error (List String) × FileTree String :=
  match stagedContent effect raw with
  | .error error => (.error error, tree)
  | .ok content =>
      match ensureRealDirectory tree root stagingParts "create authoring staging directory" with
      | .error error => (.error error, tree)
      | .ok prepared =>
          let name := stagedName sha256Hex sessionId effect.callId
          match failedIo "persist generated file without overwriting"
              (display root (stagingParts ++ [name]))
              (prepared.writeFile (componentPath root stagingParts) name
                (stagedIntent effect content).toVec true) with
          | .error error => (.error error, prepared)
          | .ok written => (.ok (stagingParts ++ [name]), written)

/-! ## Application -/

def readStagedIntent (intentFile : List (PathStep String)) : Except Error StagedIntent :=
  match tree.lstatPath intentFile with
  | .error error => .error (.io "inspect staged authoring intent" "" error)
  | .ok (.link _) => .error (.authoringEffectFailed "" "staged intent file is a symbolic link")
  | .ok (.file content) =>
      if maxStagedIntentBytes < content.length then
        .error (.authoringEffectFailed "" "staged intent file is missing or exceeds the size bound")
      else
        match tree.read intentFile with
        | .error error => .error (.io "read staged authoring intent" "" error)
        | .ok bytes =>
            match (fromSlice bytes).bind StagedIntent.fromValue with
            | some staged => .ok staged
            | none =>
                .error (.authoringEffectFailed "" "staged intent is not valid version-1 JSON")
  | .ok _ =>
      .error (.authoringEffectFailed "" "staged intent file is missing or exceeds the size bound")

def proveIdentity (callId : String) (bytes : List UInt8) (expected : String) :
    Except Error Unit :=
  ensure (identityOf sha256Hex bytes == expected) (.authoringEffectFailed callId
    "content identity mismatch: the payload is not the authorized bytes")

def verifyNoFollowAncestors : List String → List String → Except Error Unit
  | _, [] => .ok ()
  | above, name :: rest =>
      match symlinkMetadata tree root (above ++ [name]) with
      | .error error =>
          .error (.io "inspect authoring path component" (display root (above ++ [name])) error)
      | .ok (.link _) => .error (.authoringEffectFailed ""
          ("path component \x60" ++ display root (above ++ [name]) ++ "\x60 is a symbolic link"))
      | .ok .directory => verifyNoFollowAncestors (above ++ [name]) rest
      | .ok _ => .error (.authoringEffectFailed ""
          ("path component \x60" ++ display root (above ++ [name]) ++ "\x60 is not a directory"))

def writeResolved (parts : List String) (content : List UInt8) (fresh : Bool) :
    Except Error (FileTree String) :=
  failedIo (if fresh then "persist generated file without overwriting"
    else "replace file atomically") (display root parts)
    (tree.writeFile (componentPath root parts.dropLast) (parts.getLast?.getD "") content fresh)

def applyWrite (staged : StagedIntent) (parts : List String) : Except Error (FileTree String) := do
  proveIdentity sha256Hex staged.callId (bytesOf staged.content) staged.contentIdentity
  match symlinkMetadata tree root parts with
  | .ok (.link _) => .error (.authoringEffectFailed staged.callId
      ("destination \x60" ++ display root parts ++ "\x60 is a symbolic link"))
  | .ok (.file _) => writeResolved tree root parts (bytesOf staged.content) false
  | .ok _ => .error (.authoringEffectFailed staged.callId
      ("destination \x60" ++ display root parts ++ "\x60 is not a regular file"))
  | .error .notFound => writeResolved tree root parts (bytesOf staged.content) true
  | .error error => .error (.io "inspect authoring destination" (display root parts) error)

def editedContent (staged : StagedIntent) (parts : List String) :
    Except Error (List UInt8) :=
  match symlinkMetadata tree root parts with
  | .error error => .error (.io "inspect edit destination" (display root parts) error)
  | .ok (.link _) => .error (.authoringEffectFailed staged.callId
      ("destination \x60" ++ display root parts ++ "\x60 is a symbolic link"))
  | .ok (.file _) =>
      failedIo "read edit destination" (display root parts) (tree.read (componentPath root parts))
  | .ok _ => .error (.authoringEffectFailed staged.callId
      ("destination \x60" ++ display root parts ++ "\x60 does not exist or is not a file"))

def changedSinceAuthorization (callId : String) (root : String) (parts : List String)
    (occurrences : Nat) : Error :=
  .authoringEffectFailed callId ("\x60replace\x60 must occur exactly once in \x60" ++
    display root parts ++ "\x60 (found " ++ toString occurrences ++
    "; the file changed since authorization)")

def applyEdit (staged : StagedIntent) (parts : List String) : Except Error (FileTree String) :=
  match staged.replacement with
  | none => .error (.authoringEffectFailed staged.callId
      "edit effect carries no replacement substring")
  | some replacement => do
      let current ← editedContent tree root staged parts
      ensure (current.length ≤ maxContentBytes) (.authoringEffectFailed staged.callId
        "destination exceeds the per-effect content bound")
      let occurrences := countOccurrences current (bytesOf replacement)
      ensure (occurrences == 1) (changedSinceAuthorization staged.callId root parts occurrences)
      match replaceSingleOccurrence current (bytesOf replacement) (bytesOf staged.content) with
      | none => .error (changedSinceAuthorization staged.callId root parts occurrences)
      | some newContent => do
          proveIdentity sha256Hex staged.callId newContent staged.contentIdentity
          ensure (newContent.length ≤ maxContentBytes) (.authoringEffectFailed staged.callId
            "result exceeds the per-effect content bound")
          -- What is written is the text that the lossy reader makes of the result.
          writeResolved tree root parts (Json.utf8 (Utf8.fromUtf8Lossy newContent)) false

def notAuthorized (staged : StagedIntent) : Error :=
  .authoringEffectFailed staged.callId
    ("tool \x60" ++ staged.tool ++ "\x60 is not in the authorized authoring set")

def refused {Result : Type} (callId : String) : Except String Result → Except Error Result
  | .ok result => .ok result
  | .error reason => .error (.authoringEffectFailed callId reason)

def resolvedDestination (staged : StagedIntent) : Except Error (List String) := do
  ensure (staged.schemaVersion == stagedIntentSchemaVersion)
    (.authoringEffectFailed staged.callId
      ("unsupported staged intent schema version " ++ toString staged.schemaVersion))
  ensure (allowedTools.contains staged.tool) (notAuthorized staged)
  let parts ← refused staged.callId (normalizeDestination staged.destination {})
  verifyNoFollowAncestors tree root [] parts.dropLast
  return parts

def applyStaged (staged : StagedIntent) : Except Error (FileTree String) := do
  let parts ← resolvedDestination tree root staged
  if staged.tool = "write_file" then applyWrite sha256Hex tree root staged parts
  else if staged.tool = "edit_file" then applyEdit sha256Hex tree root staged parts
  else .error (notAuthorized staged)

/-- Every step before the last one only reads, so that a failure leaves the tree as it is. -/
def applyIntent (intentFile : List (PathStep String)) : Except Error Unit × FileTree String :=
  match readStagedIntent fromSlice tree intentFile >>= applyStaged sha256Hex tree root with
  | .ok after => (.ok (), after)
  | .error error => (.error error, tree)

end

end

end Kvist.Authoring
