import Kvist.Dependencies.LockedGraph

/-!
# Source replacement

The configuration of the resolver replaces each source that packages are locked to by a directory. It
is read strictly, its directories can be given another place, and it is bound to a locked graph.
-/

set_option autoImplicit false

namespace Kvist.Dependencies.Resolver

structure Source where
  registry : Option String := none
  git : Option String := none
  branch : Option String := none
  tag : Option String := none
  rev : Option String := none
  replaceWith : Option String := none
  directory : Option String := none
  deriving DecidableEq

structure Config where
  source : OrderedMap String Source

def vendorSandboxMount : String := "/workspace/vendored"

def cratesIo : String := "crates-io"

/-! ## Reading -/

variable (rules : UrlRules)

def isNameCharacter (character : Char) : Bool :=
  isAsciiAlphanumeric character || character = '-' || character = '_' || character = '.'

/-- A name of a source is an address or a short name. -/
def name (raw : String) : Bool :=
  match (Text.stripLeading gitPrefix raw.toList).orElse fun _ =>
      Text.stripLeading registryPrefix raw.toList with
  | some url => safeUrl rules url
  | none =>
      if Text.containsText "://".toList raw.toList then safeUrl rules raw.toList
      else raw ≠ "" && raw.utf8ByteSize ≤ 255 && raw.toList.all isNameCharacter && raw ≠ "." &&
        raw ≠ ".."

def destinationError : Error :=
  unavailable "resolver" "resolver destination must be a bounded absolute directory"

/-- `fs::absolute` of a path that is absolute. -/
def absolute (path : String) : Except Error Unit := do
  let components := FileSystem.components path.toList
  ensure (components.all (fun component => match component with
      | .rootDir | .normal _ => true
      | _ => false) && path.utf8ByteSize ≤ 32 * 1024)
    (unavailable path "path must be bounded and contain no traversal")
  ensure (components.all fun component => match component with
      | .normal part => segment part
      | _ => true)
    (unavailable path "path contains an unsafe or non-UTF-8 component")

def destination (raw : String) : Except Error Unit := do
  ensure (FileSystem.isAbsolute raw.toList && FileSystem.components raw.toList ≠ [.rootDir] &&
      !Text.containsText "//".toList raw.toList && raw.toList.getLast? ≠ some '/' &&
      raw.utf8ByteSize ≤ 32 * 1024 && !hasControl raw.toList) destinationError
  absolute raw

def Source.selectors (source : Source) : List (Option String) :=
  [source.branch, source.tag, source.rev]

/-- The names that selectors give are bounded, and so are the addresses. -/
def Source.wellFormed (source : Source) : Bool :=
  source.selectors.all (·.all fun value => isSelectorName value.toList) &&
    source.registry.all (fun url => safeUrl rules url.toList) &&
    source.git.all fun url => safeUrl rules url.toList && !hasQuery rules url.toList

def Source.isPlainDirectory (source : Source) (directory : String) : Bool :=
  directory ≠ "" && directory.utf8ByteSize ≤ 32 * 1024 && !hasControl directory.toList &&
    source.replaceWith.isNone && source.registry.isNone && source.git.isNone &&
    source.selectors.all (·.isNone)

def Source.isReplaced (source : Source) (key : String) (sources : OrderedMap String Source) : Bool :=
  match source.replaceWith with
  | none => false
  | some target =>
      name rules target && !(source.registry.isSome && source.git.isSome) &&
        source.selectors.countP (·.isSome) ≤ 1 &&
        !(source.git.isNone && source.selectors.any (·.isSome)) &&
        !(key ≠ cratesIo && source.registry.isNone && source.git.isNone) &&
        (sources.get target).any fun replacement =>
          replacement.directory.isSome && replacement.replaceWith.isNone

def validSource (sources : OrderedMap String Source) (key : String) (source : Source) : Bool :=
  name rules key && source.wellFormed rules &&
    match source.directory with
    | some directory => source.isPlainDirectory directory
    | none => source.isReplaced rules key sources

def referenced (sources : OrderedMap String Source) : List String :=
  sources.values.filterMap (·.replaceWith)

def parseError : Error :=
  unavailable "resolver" "invalid or unsupported source-replacement configuration"

def serializeError : Error := unavailable "resolver" "cannot serialize source configuration"

/-- What the format for configurations reads and writes. -/
structure ConfigFormat where
  fromText : List Char → Option Config
  toText : Config → Option (List Char)

variable (format : ConfigFormat)

def parse (text : List Char) (limits : SourceLimits) : Except Error Config := do
  ensure (Json.utf8Bytes text ≤ limits.maxMetadataBytes) parseError
  let config ← okOr (format.fromText text) parseError
  let sources := config.source
  ensure (sources.entries ≠ [] && sources.entries.length ≤ limits.maxSources) parseError
  ensure (sources.entries.all fun entry => validSource rules sources entry.1 entry.2) parseError
  ensure (sources.entries.all fun entry =>
    entry.2.directory.isNone || (referenced sources).contains entry.1) parseError
  return config

/-! ## Retargeting -/

def Source.retargeted (target : String) (source : Source) : Source :=
  { source with directory := source.directory.map fun _ => target }

def Config.retargeted (target : String) (config : Config) : Config where
  source := {
    entries := config.source.entries.map fun entry => (entry.1, entry.2.retargeted target)
    ascending := OrderedMap.ascending_map_values config.source.ascending }

def retarget (text : List Char) (target : String) (limits : SourceLimits) :
    Except Error (List Char) := do
  destination target
  let config ← parse rules format text limits
  okOr (format.toText (config.retargeted target)) serializeError

/-! ## Binding -/

def Source.selector (source : Source) : Option Selector :=
  (source.branch.map fun value => ("branch".toList, value.toList)).orElse fun _ =>
    (source.tag.map fun value => ("tag".toList, value.toList)).orElse fun _ =>
      source.rev.map fun value => ("rev".toList, value.toList)

def isDefaultRegistry (url : List Char) : Bool :=
  url = "https://github.com/rust-lang/crates.io-index".toList ||
    url = "sparse+https://index.crates.io/".toList

/-- Whether the table of a source stands for the place that a package comes from. -/
def matchesOrigin (key : String) (source : Source) : Origin → Bool
  | .local => false
  | .registry url =>
      source.replaceWith.isSome &&
        match source.registry with
        | some registry => registry.toList = url
        | none => source.git.isNone && key = cratesIo && isDefaultRegistry url
  | .git url selector =>
      source.replaceWith.isSome && source.git.map String.toList = some url &&
        source.selector = selector

def matching (config : Config) (origin : Origin) : List (String × Source) :=
  config.source.entries.filter fun entry => matchesOrigin entry.1 entry.2 origin

def bindError (project : String) : Error :=
  unavailable project "source replacement does not bind the locked source graph"

def bind (config : Config) (graph : LockedGraph) (published : Bool) : Except Error Unit := do
  ensure (!(published && config.source.values.any fun source =>
    source.directory.any (· ≠ vendorSandboxMount))) (bindError graph.project)
  ensure (graph.packages.all fun package =>
    package.origin = .local || (matching config package.origin).length = 1)
    (bindError graph.project)

/-! ## Where a package is taken from -/

inductive Location where
  | local
  | network
  | directory (path : String)
  deriving DecidableEq

def follow (sources : OrderedMap String Source) : Nat → Source → Location
  | 0, _ => .network
  | hops + 1, source =>
      match source.directory, source.replaceWith with
      | some path, _ => .directory path
      | none, none => .network
      | none, some target =>
          match sources.get target with
          | none => .network
          | some replacement => follow sources hops replacement

/-- A package is taken from the network unless a table of its source says otherwise. -/
def locate (config : Config) : Origin → Location
  | .local => .local
  | origin =>
      match (matching config origin).head? with
      | none => .network
      | some entry => follow config.source (config.source.entries.length + 1) entry.2

end Kvist.Dependencies.Resolver
