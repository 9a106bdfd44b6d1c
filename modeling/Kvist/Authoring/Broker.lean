import Kvist.FileSystem.Tree
import Kvist.Outcome
import Kvist.Runtime.Message
import Kvist.Text
import Kvist.Utf8

/-!
# The broker of authoring effects

A model proposes tool calls, and the broker makes an effect of those that write a file of the
component within the writable roots. An effect carries the identity of the bytes that it is to
produce. What the broker answers to the other tools is left out, since none of them writes.
-/

set_option autoImplicit false

namespace Kvist.Authoring

open FileSystem Text
open Json (Value utf8)
open Kvist.Runtime (ToolIntent)

def allowedTools : List String :=
  ["read_file", "list_files", "write_file", "edit_file", "propose_decision", "request_dependency"]

def protectedDocuments : List String :=
  ["REQUIREMENTS.md", "CONTRACT.md", "DESIGN.md", "TODOS.yaml", "IMPL.md"]

def writableRoots : List String := ["src", "tests"]
def maxDestinationDepth : Nat := 12
def maxContentBytes : Nat := 1048576
def maxPlanContentBytes : Nat := 8388608

inductive EffectOp where
  | create
  | modify
  deriving DecidableEq, Repr

structure CheckedIntent where
  callId : String
  tool : String
  op : EffectOp
  destination : String
  contentIdentity : String
  replacement : Option String
  contentBytes : Nat
  purpose : String
  deriving DecidableEq, Repr

/-- What becomes of an intent. A read, a decision, a request and a drop leave nothing to apply. -/
inductive BrokerOutcome where
  | effect (checked : CheckedIntent)
  | withoutEffect
  | panicked
  deriving DecidableEq, Repr

structure BrokerPolicy where
  writableRoots : List String := Authoring.writableRoots
  maxContentBytes : Nat := Authoring.maxContentBytes
  maxDestinationDepth : Nat := Authoring.maxDestinationDepth
  maxPlanContentBytes : Nat := Authoring.maxPlanContentBytes
  deriving DecidableEq, Repr

/-! ## Destinations -/

/-- The names of a path below a directory, which must be plain ones. -/
def normalParts (destination : String) : List Component → Except String (List String)
  | [] => .ok []
  | .normal part :: rest => do
      let parts ← normalParts destination rest
      return part :: parts
  | .curDir :: _ => .error ("destination \x60" ++ destination ++ "\x60 must not reference \x60.\x60")
  | .parentDir :: _ =>
      .error ("destination \x60" ++ destination ++ "\x60 must not contain \x60..\x60")
  | .rootDir :: _ =>
      .error ("destination \x60" ++ destination ++ "\x60 is not a relative component path")

/-- The names of the destination below the component root. -/
def normalizeDestination (destination : String) (policy : BrokerPolicy) :
    Except String (List String) := do
  ensure (destination != "") "destination is empty"
  ensure (!isAbsolute destination.toList)
    ("destination \x60" ++ destination ++ "\x60 must be relative to the component")
  let parts ← normalParts destination (components destination.toList)
  ensure (!parts.isEmpty) "destination resolves to the component root"
  ensure (!parts.getLast?.any protectedDocuments.contains)
    ("destination \x60" ++ destination ++
      "\x60 names a protected intent document; only reads are allowed")
  ensure (parts.length ≤ policy.maxDestinationDepth)
    ("destination \x60" ++ destination ++ "\x60 (depth " ++ toString parts.length ++
      ") exceeds the " ++ toString policy.maxDestinationDepth ++ "-depth bound")
  ensure (parts.head?.any policy.writableRoots.contains)
    ("destination \x60" ++ destination ++ "\x60 is not under a writable root " ++
      toString policy.writableRoots)
  return parts

def displayParts (parts : List String) : String :=
  String.ofList (['/'].intercalate (parts.map String.toList))

/-- The path text of what stands below the component root. -/
def display (root : String) (parts : List String) : String :=
  if root.toList.getLast? = some '/' then root ++ displayParts parts
  else root ++ "/" ++ displayParts parts

/-- The path below the component root as the kernel reads it. -/
def componentPath (root : String) (parts : List String) : List (PathStep String) :=
  pathSteps root.toList ++ downs parts

def symlinkMetadata (tree : FileTree String) (root : String) (parts : List String) :
    Except Errno (Node String) :=
  tree.lstatPath (componentPath root parts)

def errnoText : Errno → String
  | .notFound => "No such file or directory (os error 2)"
  | .notDirectory => "Not a directory (os error 20)"
  | .isDirectory => "Is a directory (os error 21)"
  | .alreadyExists => "File exists (os error 17)"
  | .tooManyLinks => "Too many levels of symbolic links (os error 40)"
  | .invalidName => "Invalid argument (os error 22)"
  | .other => "other error"

/-! ## Bytes -/

/-- How often the needle occurs, overlapping occurrences included. -/
def countOccurrences (haystack needle : List UInt8) : Nat :=
  if needle = [] then 0 else haystack.tails.countP fun tail => needle.isPrefixOf tail

def replaceSingleOccurrence (haystack needle replacement : List UInt8) : Option (List UInt8) :=
  if needle.isPrefixOf haystack then some (replacement ++ haystack.drop needle.length)
  else
    match haystack with
    | [] => none
    | byte :: rest => (replaceSingleOccurrence rest needle replacement).map (byte :: ·)

def bytesOf (text : String) : List UInt8 := utf8 text.toList

section

-- The digest of bytes in hexadecimal.
variable (sha256Hex : List UInt8 → String)

def identityOf (bytes : List UInt8) : String := "sha256:" ++ sha256Hex bytes

def contentIdentityBytes (bytes : List UInt8) (policy : BrokerPolicy) :
    Except String (String × Nat) := do
  ensure (bytes.length ≤ policy.maxContentBytes)
    ("content exceeds the " ++ toString policy.maxContentBytes ++ "-byte per-effect bound")
  return (identityOf sha256Hex bytes, bytes.length)

/-! ## Arguments -/

def stringArg (arguments : Value) (key : String) (allowEmpty : Bool) : Except String String :=
  match arguments.get? key with
  | some (.string value) =>
      if value != "" || allowEmpty then .ok value
      else .error ("argument \x60" ++ key ++ "\x60 must be a non-empty string")
  | some _ => .error ("argument \x60" ++ key ++ "\x60 must be a string")
  | none => .error ("missing required argument \x60" ++ key ++ "\x60")

def textArgument (arguments : Value) (key : String) : Option String :=
  (arguments.get? key).bind Value.asStr?

/-! ## Effects -/

section

variable (tree : FileTree String) (root : String)

def classifyWriteDestination (parts : List String) : Except String EffectOp :=
  match symlinkMetadata tree root parts with
  | .ok (.link _) =>
      .error ("destination \x60" ++ display root parts ++ "\x60 is a symbolic link")
  | .ok (.file _) => .ok .modify
  | .ok _ =>
      .error ("destination \x60" ++ display root parts ++ "\x60 exists and is not a regular file")
  | .error .notFound =>
      if symlinkMetadata tree root parts.dropLast matches .ok .directory then .ok .create
      else .error ("parent directory of \x60" ++ display root parts ++
        "\x60 is missing or not a real directory")
  | .error error =>
      .error ("destination \x60" ++ display root parts ++ "\x60 cannot be inspected: " ++
        errnoText error)

def authorizeWrite (intent : ToolIntent) (policy : BrokerPolicy) :
    Except String CheckedIntent := do
  let destination ← stringArg intent.arguments "destination" false
  let content ← stringArg intent.arguments "content" false
  let parts ← normalizeDestination destination policy
  let op ← classifyWriteDestination tree root parts
  let identity ← contentIdentityBytes sha256Hex (bytesOf content) policy
  return {
    callId := intent.id
    tool := "write_file"
    op := op
    destination := displayParts parts
    contentIdentity := identity.1
    replacement := none
    contentBytes := identity.2
    purpose := "authoring: " ++ intent.id }

def editedFile (destination : String) (parts : List String) : Except String (List UInt8) :=
  match symlinkMetadata tree root parts with
  | .ok (.link _) => .error ("edit destination \x60" ++ destination ++ "\x60 is a symbolic link")
  | .ok (.file _) =>
      match tree.read (componentPath root parts) with
      | .ok existing => .ok existing
      | .error error =>
          .error ("edit destination \x60" ++ destination ++ "\x60 cannot be read: " ++
            errnoText error)
  | .ok _ => .error ("edit destination \x60" ++ destination ++ "\x60 is not a regular file")
  | .error error =>
      .error ("edit destination \x60" ++ destination ++
        "\x60 does not exist or cannot be inspected: " ++ errnoText error)

def notOnce (destination : String) (occurrences : Nat) : String :=
  "\x60replace\x60 must occur exactly once in \x60" ++ destination ++ "\x60 (found " ++
    toString occurrences ++ ")"

def authorizeEdit (intent : ToolIntent) (policy : BrokerPolicy) :
    Except String CheckedIntent := do
  let destination ← stringArg intent.arguments "destination" false
  let replacement ← stringArg intent.arguments "replace" false
  let content ← stringArg intent.arguments "content" true
  let parts ← normalizeDestination destination policy
  let existing ← editedFile tree root destination parts
  ensure (existing.length ≤ policy.maxContentBytes)
    ("edit destination \x60" ++ destination ++ "\x60 exceeds the " ++
      toString policy.maxContentBytes ++ "-byte per-effect bound")
  let occurrences := countOccurrences existing (bytesOf replacement)
  ensure (occurrences == 1) (notOnce destination occurrences)
  match replaceSingleOccurrence existing (bytesOf replacement) (bytesOf content) with
  | none => .error (notOnce destination occurrences)
  | some newContent => do
      let identity ← contentIdentityBytes sha256Hex newContent policy
      return {
        callId := intent.id
        tool := "edit_file"
        op := .modify
        destination := displayParts parts
        contentIdentity := identity.1
        replacement := some replacement
        contentBytes := identity.2
        purpose := "authoring: " ++ intent.id }

end

end

end Kvist.Authoring
