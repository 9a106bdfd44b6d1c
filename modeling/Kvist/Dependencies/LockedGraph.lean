import Kvist.Dependencies.Vendoring
import Kvist.Outcome
import Kvist.Radix

/-!
# The locked graph

The packages of a lock file with the places that they come from. A lock file that names an unsafe or
ambiguous place is refused.
-/

set_option autoImplicit false

namespace Kvist.Dependencies

open Galla (rsplitOnce)

/-! ## Addresses -/

/-- What the parser for addresses gives. -/
structure UrlRules where
  Url : Type
  parse : List Char → Option Url
  scheme : Url → List Char
  username : Url → List Char
  password : Url → Option (List Char)
  fragment : Url → Option (List Char)
  host : Url → Option (List Char)
  query : Url → Option (List Char)
  queryPairs : Url → List (List Char × List Char)
  /-- The text of an address without its query. -/
  withoutQuery : Url → List Char

/-- The limits that a project gives, with the one for source tables. -/
structure SourceLimits extends VendorLimits where
  maxSources : Nat

def hasControl (text : List Char) : Bool := text.any Text.isControl

def withoutPrefix (marks text : List Char) : List Char := (Text.stripLeading marks text).getD text

def sparsePrefix : List Char := "sparse+".toList

def registryPrefix : List Char := "registry+".toList

def gitPrefix : List Char := "git+".toList

def safeSchemes : List (List Char) :=
  ["https".toList, "http".toList, "ssh".toList, "git".toList, "file".toList]

variable (rules : UrlRules)

def safeUrl (raw : List Char) : Bool :=
  if 8192 < Json.utf8Bytes raw || hasControl raw then false
  else
    match rules.parse (withoutPrefix sparsePrefix raw) with
    | none => false
    | some url =>
        safeSchemes.contains (rules.scheme url) && (rules.username url).isEmpty &&
          (rules.password url).isNone && (rules.fragment url).isNone &&
          (rules.scheme url = "file".toList || (rules.host url).isSome)

/-- The address is read and has a query. -/
def hasQuery (raw : List Char) : Bool :=
  (rules.parse raw).any fun url => (rules.query url).isSome

/-! ## Packages -/

abbrev Selector := List Char × List Char

inductive Origin where
  | local
  | registry (url : List Char)
  | git (url : List Char) (selector : Option Selector)
  deriving DecidableEq

structure Package where
  name : String
  version : String
  origin : Origin
  deriving DecidableEq

structure RawPackage where
  name : String
  version : String
  source : Option String
  checksum : Option String

structure Lock where
  version : Nat
  package : List RawPackage

/-- What fails while a graph is read. -/
inductive GraphError where
  | failed (error : Error)
  | cancelled
  deriving DecidableEq

def graphError (display reason : String) : GraphError := .failed (unavailable display reason)

/-- A digit in the notation of digests and revisions. -/
def isHexDigit (character : Char) : Bool :=
  Radix.isAsciiDigit character || ('a' ≤ character && character ≤ 'f')

def digestShape (text : List Char) : Bool := text.length = 64 && text.all isHexDigit

def isAsciiAlphabetic (character : Char) : Bool :=
  ('a' ≤ character && character ≤ 'z') || ('A' ≤ character && character ≤ 'Z')

def isAsciiAlphanumeric (character : Char) : Bool :=
  isAsciiAlphabetic character || Radix.isAsciiDigit character

def packageName (text : String) : Bool :=
  segment text &&
    text.toList.all (fun character =>
      isAsciiAlphanumeric character || character = '-' || character = '_') &&
    text.toList.head?.any fun character => isAsciiAlphabetic character || character = '_'

def isSelectorKey (key : List Char) : Bool :=
  key = "branch".toList || key = "tag".toList || key = "rev".toList

/-- A name that an address gives a branch, a tag or a revision. -/
def isSelectorName (value : List Char) : Bool :=
  !value.isEmpty && Json.utf8Bytes value ≤ 1024 && !hasControl value

def gitOrigin (display : String) (rawUrl : List Char) : Except GraphError Origin := do
  let (address, revision) ← okOr (rsplitOnce '#' rawUrl)
    (graphError display "Git source has no immutable revision")
  ensure (revision.length = 40 && revision.all isHexDigit && safeUrl rules address)
    (graphError display "invalid immutable Git source")
  let url ← okOr (rules.parse address) (graphError display "invalid Git URL")
  let params := rules.queryPairs url
  ensure (params.length ≤ 1 && params.all fun pair => isSelectorKey pair.1 && isSelectorName pair.2)
    (graphError display "invalid Git selector")
  return .git (rules.withoutQuery url) params.head?

def registryOrigin (display : String) (source : List Char) (checksum : Option String) :
    Except GraphError Origin := do
  let url := withoutPrefix registryPrefix source
  let checksum ← okOr checksum (graphError display "registry checksum absent")
  ensure (safeUrl rules url && digestShape checksum.toList &&
      !hasQuery rules (withoutPrefix sparsePrefix url))
    (graphError display "invalid registry source or checksum")
  return .registry url

/-- The place that a package comes from. -/
def readOrigin (display : String) (raw : RawPackage) : Except GraphError Origin :=
  match raw.source, raw.checksum with
  | none, none => .ok .local
  | none, some _ => .error (graphError display "unsupported locked source")
  | some source, checksum =>
      if registryPrefix.isPrefixOf source.toList || sparsePrefix.isPrefixOf source.toList then
        registryOrigin rules display source.toList checksum
      else if gitPrefix.isPrefixOf source.toList && checksum.isNone then
        gitOrigin rules display (source.toList.drop gitPrefix.length)
      else .error (graphError display "unsupported locked source")

/-- What the readers of formats give for a lock file. -/
structure LockRules where
  urls : UrlRules
  lock : List Char → Option Lock
  isVersion : String → Bool

variable (lockRules : LockRules)

/-- The packages one after the other. The token is looked at in front of each, and no identity may
come twice. -/
def lockedPackages (display : String) (cancelled : Nat → Bool) :
    Nat → List (String × String × Option String) → List RawPackage →
    Except GraphError (List Package)
  | _, _, [] => .ok []
  | poll, identities, raw :: rest => do
      ensure (!cancelled poll) .cancelled
      ensure (packageName raw.name && segment raw.version && lockRules.isVersion raw.version)
        (graphError display "invalid locked package identity")
      ensure (!identities.contains (raw.name, raw.version, raw.source))
        (graphError display "duplicate locked package identity")
      let origin ← readOrigin lockRules.urls display raw
      let others ← lockedPackages display cancelled (poll + 1)
        ((raw.name, raw.version, raw.source) :: identities) rest
      return ⟨raw.name, raw.version, origin⟩ :: others

def packageOrder (left right : Package) : Bool :=
  left.name < right.name || (left.name = right.name && left.version ≤ right.version)

def externalIdentities (packages : List Package) : List (String × String) :=
  (packages.filter fun package => package.origin ≠ .local).map fun package =>
    (package.name, package.version)

/-- A project with its limits and the bytes of its lock file as they are read. -/
structure LockedProject where
  display : String
  limits : Except Error SourceLimits
  lock : SourceLimits → Except Error (List UInt8)

structure LockedGraph where
  limits : SourceLimits
  project : String
  packages : List Package
  digest : String
  bytes : List UInt8

def LockedGraph.read (digest : List UInt8 → String) (project : LockedProject)
    (cancelled : Nat → Bool) : Except GraphError LockedGraph := do
  ensure (!cancelled 0) .cancelled
  let limits ← project.limits.mapError .failed
  let bytes ← (project.lock limits).mapError .failed
  let text ← okOr (Utf8.fromUtf8 bytes) (graphError project.display "Cargo.lock is not UTF-8")
  let lock ← okOr (lockRules.lock text)
    (graphError project.display "malformed or unsupported Cargo.lock")
  ensure ((lock.version = 3 || lock.version = 4) && lock.package.length ≤ limits.maxPackages)
    (graphError project.display "unsupported lock version or package bound")
  let packages ← lockedPackages lockRules project.display cancelled 1 [] lock.package
  let packages := packages.mergeSort packageOrder
  ensure (decide (externalIdentities packages).Nodup)
    (graphError project.display "ambiguous external name/version sources are unsupported")
  return ⟨limits, project.display, packages, digest bytes, bytes⟩

end Kvist.Dependencies
