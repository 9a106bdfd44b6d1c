import Kvist.Galla.Origin
import Kvist.Galla.Protocol
import Kvist.Json.Bytes

/-!
# Validation of a request

The checks of a request, in the order in which they are made. What the runner asks of the file
system (which sources are links, and where the links in a writable scope lead) is a parameter, and
so is the hash function.
-/

set_option autoImplicit false

namespace Kvist.Galla

open Text

def maxGrants : Nat := 256
def maxEnvironmentEntries : Nat := 256
def maxArgvEntries : Nat := 1024
def maxNetworkSources : Nat := 64
def maxValueBytes : Nat := 4096
def maxWallTimeMs : Nat := 24 * 60 * 60 * 1000
def maxOutputBytes : Nat := 256 * 1024 * 1024
def maxProcesses : Nat := 4096
def maxFiles : Nat := 1048576
def maxFileBytes : Nat := 8 * 1024 * 1024 * 1024
def maxScratchBytes : Nat := 64 * 1024 * 1024 * 1024
def maxCacheBytes : Nat := 64 * 1024 * 1024 * 1024

def requestProtocol : List Char := "kvist-sandbox-request-v1".toList
def protocolVersion : Nat := 1
def sandboxMarker : List Char := "/.galla-sandbox".toList

def vendoredRegistryMount : List Char := "/workspace/vendored".toList
def vendoredCargoConfigMount : List Char := "/workspace/.cargo".toList
def runtimeBinMount : List Char := "/workspace/bin".toList

def canonicalCratesIoIndexOrigin : List Char := "https://index.crates.io/".toList
def canonicalCratesIoDownloadOrigin : List Char := "https://static.crates.io/".toList
def canonicalCratesIoName : List Char := "crates-io".toList

/-- What the runner sees of the host's files. -/
structure Host where
  isSymlink : List Char → Bool
  /-- The links that a directory holds, with their targets. -/
  links : List Char → List (List Char × List Char)
  canonicalize : List Char → Option (List Char)

def shown (text : List Char) : String := "\x60" ++ String.ofList text ++ "\x60"

def bounded (value : List Char) (label : String) : Except String Unit :=
  ensure (Json.utf8Bytes value ≤ maxValueBytes) (label ++ " exceeds the 4096-byte limit")

def validateAbsolute (value : List Char) (label : String) : Except String Unit := do
  bounded value label
  ensure (value.head? == some '/' && !value.contains '\x00')
    (label ++ " must be an absolute path without NUL")
  ensure (!(value != ['/'] && value.getLast? == some '/'))
    (label ++ " must not have a trailing slash")
  ensure (((value.splitOn '/').drop 1).all fun component =>
      !(component.isEmpty || component == ['.'] || component == ['.', '.']))
    (label ++ " must be canonical without duplicate separators, \x60.\x60 or \x60..\x60")

def isLowerHexdigit (character : Char) : Bool :=
  isAsciiDigit character || ('a' ≤ character && character ≤ 'f')

def validateDigest (value : List Char) (label : String) : Except String Unit :=
  match stripLeading "sha256:".toList value with
  | none => .error (label ++ " must be a sha256 digest")
  | some hex =>
      ensure (Json.utf8Bytes hex == 64 && hex.all isLowerHexdigit)
        (label ++ " must be sha256: followed by 64 lower-case hexadecimal digits")

def pathContains (ancestor descendant : List Char) : Bool :=
  ancestor == descendant || ancestor == ['/'] ||
    (stripLeading ancestor descendant).any fun suffix => suffix.head? == some '/'

/-- The components of a path, without the file system: `..` removes the component before it. -/
def lexicalComponents (path : List Char) : List (List Char) :=
  (Paths.split path).foldl
    (fun resolved component =>
      if component = ['.', '.'] then resolved.dropLast
      else if component = ['.'] then resolved
      else resolved ++ [component]) []

def administrativeDirectories : List (List Char) :=
  ["/sbin".toList, "/usr/sbin".toList, "/usr/local/sbin".toList]

def isAdministrativePath (path : List Char) : Bool :=
  path.head? == some '/' &&
    administrativeDirectories.any fun directory =>
      (Paths.split directory).isPrefixOf (lexicalComponents path)

def isFilteredSystemGrant (grant : Grant) : Bool :=
  (grant.destination == "/usr".toList || grant.destination == "/usr/local".toList) &&
    grant.source == grant.destination && grant.access == .readOnly && grant.purpose == .toolchain

def validateArgv (argv : List (List Char)) : Except String Unit :=
  match argv with
  | [] => .error "argv must contain between 1 and 1024 entries"
  | program :: _ => do
      ensure (argv.length ≤ maxArgvEntries) "argv must contain between 1 and 1024 entries"
      checkAll (fun entry : List Char × Nat => do
        bounded entry.1 ("argv entry " ++ toString entry.2)
        ensure (!entry.1.contains '\x00')
          ("argv entry " ++ toString entry.2 ++ " contains a NUL byte")) argv.zipIdx
      validateAbsolute program "argv program"

def isPortableEnvironmentName (name : List Char) : Bool :=
  match name with
  | [] => false
  | first :: rest =>
      (first == '_' || (isAsciiAlphanumeric first && !isAsciiDigit first)) &&
        rest.all fun character => character == '_' || isAsciiAlphanumeric character

def isDangerousEnvironmentName (name : List Char) : Bool :=
  (stripLeading "LD_".toList name).isSome || (stripTrailing "_PROXY".toList name).isSome ||
    name == "NO_PROXY".toList || name == "GIT_ASKPASS".toList || name == "SSH_ASKPASS".toList ||
    name == "GIT_SSH".toList || name == "GIT_SSH_COMMAND".toList || name == "GIT_CONFIG".toList ||
    name == "GIT_CONFIG_GLOBAL".toList || name == "GIT_CONFIG_SYSTEM".toList ||
    (stripLeading "CARGO_SOURCE_".toList name).isSome ||
    (stripLeading "CARGO_REGISTRIES_".toList name).isSome ||
    (stripLeading "CARGO_HTTP_".toList name).isSome || name == "CARGO_REGISTRY_TOKEN".toList

def validateEnvironmentShape (environment : Environment) : Except String Unit := do
  ensure (environment.entries.length ≤ maxEnvironmentEntries)
    "environment has more than 256 entries"
  checkAll (fun entry : List Char × List Char => do
    bounded entry.1 ("environment name " ++ shown entry.1)
    bounded entry.2 ("environment value for " ++ shown entry.1)
    ensure (isPortableEnvironmentName entry.1)
      ("environment name " ++ shown entry.1 ++ " must be a portable identifier")
    ensure (!entry.2.contains '\x00')
      ("environment value for " ++ shown entry.1 ++ " contains a NUL byte")
    ensure (!isDangerousEnvironmentName entry.1)
      ("environment variable " ++ shown entry.1 ++ " is not permitted in a sandbox request")
    ensure (!(entry.1 == "PATH".toList && (entry.2.splitOn ':').any isAdministrativePath))
      "PATH must not select administrative directories") environment.entries

def validateResource (name : String) (value maximum : Nat) : Except String Unit :=
  ensure (value != 0 && value ≤ maximum)
    ("resource " ++ name ++ " must be nonzero and no greater than the safe maximum " ++
      toString maximum)

def validateResources (resources : Resources) : Except String Unit := do
  validateResource "wall_time_ms" resources.wallTimeMs maxWallTimeMs
  validateResource "max_output_bytes" resources.maxOutputBytes maxOutputBytes
  validateResource "max_processes" resources.maxProcesses maxProcesses
  validateResource "max_files" resources.maxFiles maxFiles
  validateResource "max_file_bytes" resources.maxFileBytes maxFileBytes
  validateResource "max_scratch_bytes" resources.maxScratchBytes maxScratchBytes
  match resources.maxCacheBytes with
  | none => .ok ()
  | some value => validateResource "max_cache_bytes" value maxCacheBytes

def validateIdentities (request : SandboxRequest) : Except String Unit := do
  validateDigest request.identities.runner "runner identity"
  validateDigest request.identities.policy "policy identity"
  validateDigest request.identities.toolchain "toolchain identity"
  validateDigest request.identities.command "command identity"
  validateDigest request.identities.mountPlan "mount plan identity"
  validateDigest request.identities.backend.digest "backend identity"
  validateAbsolute request.identities.backend.path "backend path"

def requireToolchainIdentity (request : SandboxRequest) (identity : List Char) :
    Except String Unit :=
  ensure (request.identities.toolchain == identity)
    "toolchain block identity must equal identities.toolchain"

def validateToolchain (request : SandboxRequest) : Except String Unit :=
  match request.toolchain with
  | .system identity root => do
      validateDigest identity "toolchain block identity"
      validateAbsolute root "toolchain root"
      requireToolchainIdentity request identity
  | .cargo identity root cargo => do
      validateDigest identity "toolchain block identity"
      validateAbsolute root "Cargo toolchain root"
      validateAbsolute cargo "Cargo toolchain path"
      ensure (!(cargo == root || !pathContains root cargo))
        "Cargo toolchain cargo path must live strictly beneath the toolchain root"
      requireToolchainIdentity request identity

/-- The components that a link's target leads to, unless it leaves the root. -/
def lexicalTarget : List (List Char) → List (List Char) → Option (List (List Char))
  | resolved, [] => some resolved
  | resolved, component :: rest =>
      if component = ['.', '.'] then
        if resolved.isEmpty then none else lexicalTarget resolved.dropLast rest
      else if component = ['.'] then lexicalTarget resolved rest
      else lexicalTarget (resolved ++ [component]) rest

def lexicalNormalizesInside (candidate scopeRoot : List Char) : Bool :=
  let start := if candidate.head? == some '/' then [] else Paths.split scopeRoot
  (lexicalTarget start (Paths.split candidate)).any fun resolved =>
    (Paths.split scopeRoot).isPrefixOf resolved

def symlinkTargetInsideScope (host : Host) (candidate scopeRoot : List Char) : Bool :=
  match host.canonicalize candidate with
  | some resolved => (Paths.split scopeRoot).isPrefixOf (Paths.split resolved)
  | none => lexicalNormalizesInside candidate scopeRoot

def validateLinks (host : Host) (grant : Grant) (label : String) : Except String Unit :=
  checkAll (fun link : List Char × List Char =>
    let resolved :=
      if link.2.head? == some '/' then link.2 else grant.source ++ '/' :: link.2
    ensure (symlinkTargetInsideScope host resolved grant.source)
      (label ++ " writable scope " ++ shown grant.source ++ " contains a symbolic link " ++
        shown link.1 ++ " pointing at " ++ shown link.2 ++ " which escapes the scope"))
    (host.links grant.source)

def validateGrantPurposeAccess (purpose : Purpose) (access : Access) (phase : Phase)
    (label : String) : Except String Unit := do
  let write := access == .readWrite
  let acquisition := phase == .dependencyAcquisition
  let allowsWrite := (purpose == .authoring || purpose == .scratch) ||
    ((purpose == .dependencyCache || purpose == .lockfile) && acquisition)
  ensure (!(write && !allowsWrite))
    (label ++ " grants read-write access to a read-only purpose in this phase")
  ensure (!(purpose == .scratch && !write))
    (label ++ " scratch purpose requires read-write access")

def phasePurposes : Phase → List Purpose
  | .authoring => [.context, .authoring, .toolchain, .scratch]
  | .verification =>
      [.context, .verification, .authoring, .toolchain, .dependencyCache, .scratch, .registry,
        .cargoConfig, .runtime]
  | .dependencyAcquisition => [.toolchain, .runtime, .scratch, .dependencyCache, .lockfile]

def validatePhasePurpose (phase : Phase) (purpose : Purpose) (label : String) :
    Except String Unit :=
  ensure ((phasePurposes phase).contains purpose) (label ++ " purpose is not permitted in this phase")

def validateGrant (host : Host) (phase : Phase) (grant : Grant) (label : String) :
    Except String Unit := do
  validateAbsolute grant.source (label ++ " source")
  validateAbsolute grant.destination (label ++ " destination")
  ensure (!(pathContains sandboxMarker grant.destination ||
      pathContains grant.destination sandboxMarker))
    (label ++ " destination covers the reserved sandbox marker")
  ensure (!(!isFilteredSystemGrant grant && administrativeDirectories.any fun administrative =>
      pathContains grant.destination administrative ||
        pathContains administrative grant.destination))
    (label ++ " destination " ++ shown grant.destination ++
      " covers an excluded administrative directory")
  ensure (!(containsText "/../".toList grant.destination ||
      containsText "/./".toList grant.destination ||
      (stripTrailing "/..".toList grant.destination).isSome ||
      (stripTrailing "/.".toList grant.destination).isSome))
    (label ++ " destination " ++ shown grant.destination ++ " contains non-canonical components")
  ensure (!host.isSymlink grant.source)
    (label ++ " source " ++ shown grant.source ++ " is a symbolic link")
  if grant.access == .readWrite then validateLinks host grant label
  ensure (!containsText "unapproved".toList grant.destination)
    (label ++ " references an unapproved root")
  validateDigest grant.identity (label ++ " identity")
  validateGrantPurposeAccess grant.purpose grant.access phase label
  validatePhasePurpose phase grant.purpose label

/-- Each grant is checked, and its destination must not be an earlier one. -/
def validateEachGrant (host : Host) (phase : Phase) :
    Nat → List (List Char) → List Grant → Except String Unit
  | _, _, [] => .ok ()
  | index, seen, grant :: rest => do
      validateGrant host phase grant ("grant " ++ toString index)
      ensure (!seen.contains grant.destination)
        ("grant destination " ++ shown grant.destination ++ " is declared more than once")
      validateEachGrant host phase (index + 1) (grant.destination :: seen) rest

def validateNoOverlap : List (List Char) → Except String Unit
  | [] => .ok ()
  | left :: rest => do
      checkAll (fun right =>
        ensure (!(pathContains left right || pathContains right left))
          ("grant destination " ++ shown left ++ " overlaps grant destination " ++ shown right)) rest
      validateNoOverlap rest

def validateGrants (host : Host) (request : SandboxRequest) : Except String Unit := do
  ensure (!(request.grants.isEmpty || maxGrants < request.grants.length))
    "request must declare between 1 and 256 grants"
  validateEachGrant host request.phase 0 [] request.grants
  validateNoOverlap (request.grants.map (·.destination))

def systemDirectories : List (List Char) :=
  ["/bin".toList, "/usr/bin".toList, "/usr/local/bin".toList]

def grantedReadOnlyContains (request : SandboxRequest) (value : List Char) : Bool :=
  systemDirectories.contains value || request.grants.any fun grant =>
    grant.access == .readOnly && pathContains grant.destination value

def pathValue (request : SandboxRequest) : List Char :=
  (request.environment.get "PATH".toList).getD []

def validatePathGrants (request : SandboxRequest) : Except String Unit :=
  if (pathValue request).isEmpty then .ok ()
  else
    ensure (!((pathValue request).splitOn ':').any fun entry =>
        !grantedReadOnlyContains request entry)
      "PATH must select only granted read-only directories"

section Sources

variable (sha256 : List UInt8 → List Char)

/-- The eight bytes of a length, the highest first. -/
def lengthBytes (length : Nat) : List UInt8 :=
  [56, 48, 40, 32, 24, 16, 8, 0].map fun shift => UInt8.ofNat (length >>> shift)

def identityField (field : List UInt8) : List UInt8 := lengthBytes field.length ++ field

def sourceIdentity (domain : List Char) (fields : List (List Char)) : List Char :=
  "sha256:".toList ++
    sha256 (Json.utf8 domain ++ fields.flatMap fun field => identityField (Json.utf8 field))

def registryIdentity (name indexOrigin downloadOrigin : List Char) : List Char :=
  sourceIdentity sha256 "kvist/cargo-registry/v1\x00".toList [name, indexOrigin, downloadOrigin]

def gitIdentity (repository revision : List Char) : List Char :=
  sourceIdentity sha256 "kvist/cargo-git/v1\x00".toList [repository, revision]

def isSafeRegistryName (name : List Char) : Bool :=
  !name.isEmpty && name.all fun character =>
    isAsciiAlphanumeric character || character == '-' || character == '_' || character == '.'

def isImmutableGitRevision (value : List Char) : Bool :=
  Json.utf8Bytes value == 40 && value.all isLowerHexdigit

def canonicalProductionOrigin (value : List Char) (label : String) : Except String Origin := do
  bounded value (label ++ " origin")
  ensure (isCanonicalOriginUrl value)
    (label ++ " origin must be a canonical origin without credentials, query, fragment, or percent aliases")
  match parseProduction value with
  | .ok parsed => .ok parsed
  | .error _ =>
      match parse value with
      | .ok parsed => .ok parsed
      | .error _ =>
          .error (label ++
            " origin must be a canonical HTTPS or loopback origin without credentials, query, fragment, or percent aliases")

def withLabel (label : String) (parsed : Except String Origin) : Except String Origin :=
  match parsed with
  | .ok origin => .ok origin
  | .error error => .error (label ++ ": " ++ error)

def validateRegistryOrigins (name indexOrigin downloadOrigin : List Char) (label : String) :
    Except String (List Origin) :=
  if name = canonicalCratesIoName then do
    ensure (!(indexOrigin != canonicalCratesIoIndexOrigin ||
        downloadOrigin != canonicalCratesIoDownloadOrigin))
      (label ++ " \x60crates-io\x60 must use its exact canonical origins")
    let index ← withLabel (label ++ " index origin") (parseProduction indexOrigin)
    let download ← withLabel (label ++ " download origin") (parseProduction downloadOrigin)
    return [index, download]
  else do
    let index ← canonicalProductionOrigin indexOrigin label
    let download ← canonicalProductionOrigin downloadOrigin label
    ensure (!(indexOrigin == canonicalCratesIoIndexOrigin ||
        downloadOrigin == canonicalCratesIoDownloadOrigin))
      (label ++ " must not impersonate the built-in crates.io origins")
    return [index, download]

/-- The name of a registry, the origins and the identity of a source. -/
structure ValidatedSource where
  names : List (List Char)
  origins : List Origin
  identity : List Char

def validateSource (source : AllowedSource) (label : String) (names : List (List Char)) :
    Except String ValidatedSource :=
  match source with
  | .cargoRegistry name indexOrigin downloadOrigin identity => do
      bounded name (label ++ " name")
      ensure (!(!isSafeRegistryName name || names.contains name))
        (label ++ " registry name must be a unique nonempty safe token")
      let origins ← validateRegistryOrigins name indexOrigin downloadOrigin label
      ensure (identity == registryIdentity sha256 name indexOrigin downloadOrigin)
        (label ++ " identity does not equal the independently derived registry identity")
      return ⟨name :: names, origins, identity⟩
  | .cargoGit repository revision identity => do
      bounded repository (label ++ " repository")
      ensure (isImmutableGitRevision revision)
        (label ++ " revision must be exactly 40 lower-case hexadecimal digits")
      let parsed ← canonicalProductionOrigin repository label
      ensure (parsed.scheme == .https) (label ++ " repository must use HTTPS")
      ensure (identity == gitIdentity sha256 repository revision)
        (label ++ " identity does not equal the independently derived Git identity")
      return ⟨names, [parsed], identity⟩

def validateSources : Nat → List (List Char) → List (List Char) → List AllowedSource →
    Except String (List Origin)
  | _, _, _, [] => .ok []
  | index, names, identities, source :: rest => do
      let validated ← validateSource sha256 source
        ("network allowed source " ++ toString index) names
      ensure (!identities.contains validated.identity)
        "network allowed sources must have distinct derived identities"
      let others ← validateSources (index + 1) validated.names
        (validated.identity :: identities) rest
      return validated.origins ++ others

def validateDisjoint : List Origin → Except String Unit
  | [] => .ok ()
  | left :: rest => do
      checkAll (fun right =>
        ensure (!originsOverlap left right)
          "network allowed sources declare overlapping package-source origins") rest
      validateDisjoint rest

def validateNetwork (request : SandboxRequest) : Except String Unit := do
  let network := request.network
  ensure (network.allowedSources.length ≤ maxNetworkSources)
    "network allowed_sources exceeds the 64-source limit"
  match network.mode with
  | .deny =>
      ensure network.allowedSources.isEmpty
        "network mode \x60deny\x60 must declare no allowed_sources"
  | .packageSources =>
      ensure (request.phase == .dependencyAcquisition)
        "network mode \x60package-sources\x60 is permitted only during dependency acquisition"
      ensure (!network.allowedSources.isEmpty)
        "network mode \x60package-sources\x60 requires at least one source"
      let origins ← validateSources sha256 0 [] [] network.allowedSources
      validateDisjoint origins

end Sources

end Kvist.Galla
