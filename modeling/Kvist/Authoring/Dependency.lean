import Kvist.Galla.Origin
import Kvist.Runtime.Message
import Kvist.Text

/-!
# Dependency requests

A dependency that a model asks for is recorded if its origin is an exact revision from a public
place. Any other origin is surfaced as a decision.
-/

set_option autoImplicit false

namespace Kvist.Authoring

open Galla (isAsciiDigit isAsciiAlphanumeric rsplitOnce toAsciiLowercase)
open Json (Value utf8Bytes)
open Kvist.Runtime (ToolIntent)
open Text

def maxDependencyNameBytes : Nat := 64

structure ProposedDecision where
  callId : String
  summary : String
  why : String
  patch : Option String
  deriving DecidableEq, Repr

structure DependencyRequest where
  callId : String
  name : String
  origin : String
  reason : Option String
  deriving DecidableEq, Repr

/-- What becomes of a dependency request. -/
inductive DependencyOutcome where
  | drop (reason : String)
  | decision (proposed : ProposedDecision)
  | request (recorded : DependencyRequest)
  deriving DecidableEq, Repr

def unverifiedOriginPrefixes : List (List Char) :=
  ["127.".toList, "10.".toList, "192.168.".toList, "169.254.".toList, "172.16.".toList,
    "172.17.".toList, "localhost".toList, "file://".toList]

def isUnverifiedOrigin (origin : List Char) : Bool :=
  unverifiedOriginPrefixes.any (fun start => start.isPrefixOf origin) ||
    "./".toList.isPrefixOf origin || "/".toList.isPrefixOf origin ||
    (containsText "://".toList origin && !"https://".toList.isPrefixOf origin &&
      !"git+https://".toList.isPrefixOf origin && !"git+ssh://".toList.isPrefixOf origin &&
      !"ssh://".toList.isPrefixOf origin)

def looksLikeCrateName (name : List Char) : Bool :=
  !name.isEmpty && utf8Bytes name ≤ maxDependencyNameBytes && name.all fun character =>
    isAsciiAlphanumeric character || character == '-' || character == '_' || character == '.'

def hasVersionPrecedenceOperator (origin : List Char) : Bool :=
  origin.head?.any "^~><=".toList.contains

/-- `byte.is_ascii_alphanumeric() || matches!(byte, b'-' | b'.')`. -/
def isReferenceCharacter (character : Char) : Bool :=
  isAsciiAlphanumeric character || character == '-' || character == '.'

/-- The parts between dots are three numbers. -/
def isCore (value : List Char) : Bool :=
  match value.splitOn '.' with
  | [major, minor, patch] =>
      !major.isEmpty && !minor.isEmpty && !patch.isEmpty && major.all isAsciiDigit &&
        minor.all isAsciiDigit && patch.all isAsciiDigit
  | _ => false

def isExactSemver (value : List Char) : Bool :=
  if value.any "*><=^~".toList.contains then false
  else if !isCore value then false
  else ((value.splitOnP fun character => character == '-' || character == '+').drop 1).all
    fun tail => !tail.isEmpty && tail.all isReferenceCharacter

def vcsRefIsPinned (value : List Char) : Bool :=
  let value := trimList (value.takeWhile (· != '&'))
  !value.isEmpty && 7 ≤ utf8Bytes value && value.all isReferenceCharacter

def pinnedSchemes : List (List Char) :=
  ["https".toList, "git+https".toList, "git+ssh".toList, "ssh".toList]

def namesPinnedRef (rest : List Char) : Bool :=
  match splitOnceText "?rev=".toList rest with
  | some (_, revision) => vcsRefIsPinned revision
  | none =>
      match splitOnceText "?tag=".toList rest with
      | some (_, tag) => vcsRefIsPinned tag
      | none => false

def looksPinned (origin : List Char) : Bool :=
  if hasVersionPrecedenceOperator origin then false
  else if isExactSemver origin then true
  else
    match splitOnceText "://".toList origin with
    | none => false
    | some (scheme, rest) =>
        if !pinnedSchemes.contains scheme then false
        else namesPinnedRef rest

def classifyDependency (intent : ToolIntent) (arguments : Value) : DependencyOutcome :=
  match (arguments.get? "name").bind Value.asStr? with
  | none | some "" => .drop "argument \x60name\x60 must be non-empty"
  | some name =>
      if !looksLikeCrateName name.toList then
        .drop ("dependency \x60" ++ name ++ "\x60 is not a plausible crate identity")
      else
        match (arguments.get? "origin").bind Value.asStr? with
        | none | some "" => .drop "argument \x60origin\x60 must be non-empty"
        | some origin =>
            if isUnverifiedOrigin origin.toList then
              .decision {
                callId := intent.id
                summary := "dependency \x60" ++ name ++ "\x60 origin \x60" ++ origin ++
                  "\x60 is private, link-local, loopback, a local path, or an unverified remote"
                why := "a dependency from an untrusted origin can inject unreviewed code"
                patch := none }
            else if !looksPinned origin.toList then
              .decision {
                callId := intent.id
                summary := "dependency \x60" ++ name ++ "\x60 origin \x60" ++ origin ++
                  "\x60 is not an exact, pinned revision"
                why := "an unpinned or wildcard origin can resolve to an unreviewed revision"
                patch := none }
            else
              .request {
                callId := intent.id
                name := name
                origin := origin
                reason := some "exact, pinned, non-private origin" }

/-! ## The policy -/

def IsNumeric (text : List Char) : Prop := text ≠ [] ∧ ∀ character ∈ text, isAsciiDigit character

/-- Identifiers between dots. -/
def IsDotted (text : List Char) : Prop :=
  ∀ identifier ∈ text.splitOn '.', identifier ≠ [] ∧
    ∀ character ∈ identifier, isAsciiAlphanumeric character || character == '-'

/-- A pre-release behind a dash, a build behind a plus sign, both or none of them. -/
def IsSuffix (suffix : List Char) : Prop :=
  ∃ release build, suffix = release ++ build ∧
    (release = [] ∨ ∃ identifiers, release = '-' :: identifiers ∧ IsDotted identifiers) ∧
    (build = [] ∨ ∃ identifiers, build = '+' :: identifiers ∧ IsDotted identifiers)

/-- Three numbers, with this suffix. -/
def IsVersion (origin suffix : List Char) : Prop :=
  ∃ major minor patch, origin = major ++ '.' :: (minor ++ '.' :: (patch ++ suffix)) ∧
    IsNumeric major ∧ IsNumeric minor ∧ IsNumeric patch ∧ IsSuffix suffix

/-- What stands behind the scheme of an address that names a revision or a tag. -/
def IsPinnedUrl (origin rest : List Char) : Prop :=
  ∃ scheme ∈ pinnedSchemes, origin = scheme ++ ("://".toList ++ rest) ∧
    namesPinnedRef rest = true

/-- The host of an address: what stands before the path, behind the user and before the port. -/
def hostOf (rest : List Char) : List Char :=
  let authority := rest.takeWhile fun character =>
    character != '/' && character != '?' && character != '#'
  let place := ((rsplitOnce '@' authority).map (·.2)).getD authority
  match stripLeading ['['] place with
  | some inner => inner.takeWhile (· != ']')
  | none => place.takeWhile (· != ':')

open Address in
def isPublicHost (host : List Char) : Bool :=
  match parseIpAddress host with
  | some (.v4 address) => !(address.isLoopback || address.isPrivate || address.isLinkLocal)
  | some (.v6 address) =>
      !(address.isLoopback || address.firstSegment / 64 == 0xfe80 / 64 ||
        address.toIpv4Mapped.any fun mapped =>
          mapped.isLoopback || mapped.isPrivate || mapped.isLinkLocal)
  | none => toAsciiLowercase host != "localhost".toList

/-- An exact version, or a revision or tag at a public host. -/
def InPolicy (origin : List Char) : Prop :=
  (∃ suffix, IsVersion origin suffix) ∨
    ∃ rest, IsPinnedUrl origin rest ∧ isPublicHost (hostOf rest) = true

end Kvist.Authoring
