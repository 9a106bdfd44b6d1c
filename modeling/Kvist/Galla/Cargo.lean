import Kvist.Galla.Validation

/-!
# The Cargo phases

Declared endpoints have to be grants, and a Cargo phase has one exact command, environment and set
of grants. `validate` is the whole validation of a request.
-/

set_option autoImplicit false

namespace Kvist.Galla

open Text

/-- The grant at a destination; the last one, had several the same. -/
def grantAt (grants : List Grant) (destination : List Char) : Option Grant :=
  grants.reverse.find? (·.destination == destination)

def childPath (parent : List Char) (child : String) : Except String (List Char) := do
  validateAbsolute parent "parent path"
  return if parent = ['/'] then '/' :: child.toList else parent ++ '/' :: child.toList

def requireEndpointGrant (grants : List Grant) (destination identity : List Char)
    (access : Access) (purpose : Purpose) (label : String) : Except String Unit :=
  match grantAt grants destination with
  | none =>
      .error (label ++ " destination " ++ shown destination ++
        " does not correspond to any declared grant")
  | some grant => do
      ensure (grant.access == access)
        (label ++ " destination " ++ shown destination ++
          " corresponds to a grant with the wrong access mode")
      ensure (grant.purpose == purpose)
        (label ++ " destination " ++ shown destination ++
          " corresponds to a grant with the wrong purpose")
      ensure (grant.identity == identity)
        (label ++ " destination " ++ shown destination ++
          " identity does not match its corresponding grant")

def validateCachePaths (cache : Cache) : Except String Unit := do
  validateAbsolute cache.cargoHome "cache cargo_home"
  validateAbsolute cache.registry "cache registry"
  validateAbsolute cache.git "cache git"
  let registry ← childPath cache.cargoHome "registry"
  let git ← childPath cache.cargoHome "git"
  ensure (!(cache.registry != registry || cache.git != git))
    "cache registry and git must be the exact registry and git children of cargo_home"

def validateCacheEndpoint (endpoint : CacheEndpoint) (grants : List Grant) (access : Access)
    (label : String) : Except String Unit := do
  validateAbsolute endpoint.destination (label ++ " destination")
  validateDigest endpoint.identity (label ++ " identity")
  requireEndpointGrant grants endpoint.destination endpoint.identity access .dependencyCache label

def validateLockfileStructural (lockfile : LockfileWorkspace) (grants : List Grant) :
    Except String Unit := do
  validateAbsolute lockfile.destination "cache lockfile destination"
  validateDigest lockfile.beforeIdentity "cache lockfile before identity"
  requireEndpointGrant grants lockfile.destination lockfile.beforeIdentity .readWrite .lockfile
    "cache lockfile workspace"

def validatePromotionStructural (cache : Cache) (promotion : CachePromotion)
    (grants : List Grant) : Except String Unit := do
  validateAbsolute promotion.source "cache promotion source"
  match grantAt grants promotion.source with
  | none =>
      .error ("cache promotion source " ++ shown promotion.source ++
        " does not correspond to any declared grant")
  | some grant => do
      ensure (!(grant.purpose != .dependencyCache || grant.access != .readWrite))
        "cache promotion source must correspond to a read-write dependency-cache grant"
      ensure (promotion.source == cache.cargoHome)
        "cache promotion source must be the real acquisition CARGO_HOME"
      ensure (!cache.writable.any fun writable => promotion.source != writable.destination)
        "cache promotion source must be the declared writable Cargo-home endpoint"

def whenPresent {α : Type} (check : α → Except String Unit) : Option α → Except String Unit
  | none => .ok ()
  | some value => check value

def validateCacheStructural (cache : Cache) (grants : List Grant) : Except String Unit := do
  validateCachePaths cache
  whenPresent (fun writable =>
    validateCacheEndpoint writable grants .readWrite "cache writable Cargo home") cache.writable
  whenPresent (fun approved =>
    validateCacheEndpoint approved grants .readOnly "cache approved Cargo home") cache.approved
  whenPresent (fun lockfile => validateLockfileStructural lockfile grants) cache.lockfile
  whenPresent (fun promotion => validatePromotionStructural cache promotion grants) cache.promotion

def validateScratchStructural (scratch : Scratch) (grants : List Grant) : Except String Unit := do
  validateAbsolute scratch.destination "scratch destination"
  validateDigest scratch.identity "scratch identity"
  requireEndpointGrant grants scratch.destination scratch.identity .readWrite .scratch "scratch"

def validateOptionalRoots (request : SandboxRequest) : Except String Unit := do
  whenPresent (fun cache => validateCacheStructural cache request.grants) request.cache
  whenPresent (fun scratch => validateScratchStructural scratch request.grants) request.scratch

def validateAuthoring (request : SandboxRequest) : Except String Unit := do
  ensure (request.network.mode == .deny) "authoring must have denied network"
  match request.toolchain with
  | .cargo _ _ _ => .error "Cargo toolchain is reserved for Cargo phases"
  | .system _ _ => ensure request.cache.isNone "authoring must not declare a Cargo cache"

def cargoToolchain (request : SandboxRequest) :
    Except String (List Char × List Char × List Char) :=
  match request.toolchain with
  | .cargo identity root cargo => .ok (identity, root, cargo)
  | .system _ _ => .error "Cargo phases require Toolchain::Cargo"

def required {α : Type} (value : Option α) (message : String) : Except String α :=
  match value with
  | some value => .ok value
  | none => .error message

def validatePathEnvironment (value : List Char) (request : SandboxRequest) :
    Except String Unit := do
  ensure (!(value.isEmpty || value.contains ':'))
    "Cargo PATH must be one explicit nonempty canonical absolute directory"
  validateAbsolute value "Cargo PATH"
  ensure (grantedReadOnlyContains request value)
    "Cargo PATH must select a directory inside a granted read-only destination"

def requireExactEnvironment (request : SandboxRequest)
    (required : List (List Char × List Char)) : Except String Unit := do
  let environment := request.environment
  ensure (!(environment.entries.length != (required.map Prod.fst).dedup.length ||
      environment.entries.any fun entry => !(required.map Prod.fst).contains entry.1))
    "Cargo phase environment must contain exactly its phase-specific allowlist"
  checkAll (fun entry : List Char × List Char =>
    match environment.get entry.1 with
    | none => .error ("Cargo phase environment requires " ++ shown entry.1)
    | some actual =>
        if entry.1 = "PATH".toList then validatePathEnvironment actual request
        else
          ensure (actual == entry.2)
            ("Cargo phase environment " ++ shown entry.1 ++ " must be exactly " ++ shown entry.2))
    required

def ensureExactCargoPurposes (request : SandboxRequest) (expected : List Purpose) :
    Except String Unit :=
  ensure (!(request.grants.length != expected.length ||
      (request.grants.any fun grant => !expected.contains grant.purpose) ||
      expected.any fun purpose =>
        (request.grants.filter (·.purpose == purpose)).length != 1))
    "Cargo phase grants must be the exact required toolchain, cache, scratch, and workspace topology"

def validateAcquisition (request : SandboxRequest) : Except String Unit := do
  ensure (request.network.mode == .packageSources)
    "dependency acquisition requires package-sources network mode"
  ensure (!(request.argv.length != 2 || request.argv[1]? != some "fetch".toList))
    "dependency-acquisition argv must be exactly \x60<cargo> fetch\x60 and must not execute build scripts"
  let (identity, root, cargo) ← cargoToolchain request
  requireEndpointGrant request.grants root identity .readOnly .toolchain "Cargo toolchain root"
  ensure (request.argv[0]? == some cargo) "Cargo toolchain cargo path must equal argv[0]"
  let cache ← required request.cache "dependency acquisition requires a Cargo cache"
  let scratch ← required request.scratch "dependency acquisition requires writable scratch"
  let writable ← required cache.writable
    "dependency acquisition requires a writable Cargo-home endpoint"
  let lockfile ← required cache.lockfile
    "dependency acquisition requires an isolated writable lockfile workspace"
  let promotion ← required cache.promotion
    "dependency acquisition requires cache-promotion intent"
  ensure cache.approved.isNone
    "dependency acquisition must not declare a read-only approved Cargo home"
  ensure request.resources.maxCacheBytes.isSome
    "dependency acquisition requires a nonzero max_cache_bytes bound"
  ensure (writable.destination == cache.cargoHome)
    "acquisition writable Cargo-home endpoint must equal cache cargo_home"
  ensure (promotion.source == cache.cargoHome)
    "cache promotion source must be the real acquisition CARGO_HOME"
  ensure (request.workingDirectory == lockfile.destination)
    "dependency acquisition working_directory must equal the lockfile workspace"
  let home ← childPath scratch.destination "home"
  let target ← childPath scratch.destination "target"
  requireExactEnvironment request
    [("HOME".toList, home), ("PATH".toList, []), ("CARGO_HOME".toList, cache.cargoHome),
      ("CARGO_TARGET_DIR".toList, target),
      ("CARGO_NET_GIT_FETCH_WITH_CLI".toList, "false".toList)]
  ensureExactCargoPurposes request
    [.toolchain, .runtime, .dependencyCache, .scratch, .lockfile]

def purposeName : Purpose → String
  | .context => "Context"
  | .authoring => "Authoring"
  | .verification => "Verification"
  | .toolchain => "Toolchain"
  | .scratch => "Scratch"
  | .dependencyCache => "DependencyCache"
  | .lockfile => "Lockfile"
  | .registry => "Registry"
  | .cargoConfig => "CargoConfig"
  | .runtime => "Runtime"

def requireVendoredMount (request : SandboxRequest) (purpose : Purpose)
    (destination : List Char) : Except String Unit :=
  match request.grants.find? (·.purpose == purpose) with
  | none =>
      .error ("Cargo verification requires a " ++ purposeName purpose ++ " mount at " ++
        String.ofList destination)
  | some grant => do
      ensure (grant.destination == destination)
        ("Cargo verification " ++ purposeName purpose ++ " mount must be at " ++
          String.ofList destination ++ ", not " ++ String.ofList grant.destination)
      ensure (grant.access == .readOnly)
        ("Cargo verification " ++ purposeName purpose ++ " mount at " ++
          String.ofList destination ++ " must be read-only")

def validateCargoVerification (request : SandboxRequest) : Except String Unit := do
  ensure (!(request.argv.length != 3 || request.argv[1]? != some "test".toList ||
      request.argv[2]? != some "--locked".toList))
    "Cargo verification argv must be exactly \x60<cargo> test --locked\x60"
  let (identity, root, cargo) ← cargoToolchain request
  requireEndpointGrant request.grants root identity .readOnly .toolchain "Cargo toolchain root"
  ensure (request.argv[0]? == some cargo) "Cargo toolchain cargo path must equal argv[0]"
  let cache ← required request.cache "Cargo verification requires an approved Cargo home"
  let scratch ← required request.scratch "Cargo verification requires writable target scratch"
  let approved ← required cache.approved
    "Cargo verification requires a read-only approved Cargo-home endpoint"
  ensure request.resources.maxCacheBytes.isSome
    "Cargo verification against an approved Cargo home requires max_cache_bytes"
  ensure (!(cache.writable.isSome || cache.lockfile.isSome || cache.promotion.isSome))
    "Cargo verification cache may contain only the approved Cargo-home endpoint"
  ensure (approved.destination == cache.cargoHome)
    "Cargo verification approved endpoint must equal cache cargo_home"
  let home ← childPath scratch.destination "home"
  let target ← childPath scratch.destination "target"
  requireExactEnvironment request
    [("HOME".toList, home), ("PATH".toList, []), ("CARGO_HOME".toList, cache.cargoHome),
      ("CARGO_TARGET_DIR".toList, target), ("CARGO_NET_OFFLINE".toList, "true".toList)]
  ensure (request.grants.any fun grant =>
      grant.destination == request.workingDirectory && grant.purpose == .verification &&
        grant.access == .readOnly)
    "Cargo verification working_directory requires a matching read-only verification grant"
  requireVendoredMount request .registry vendoredRegistryMount
  requireVendoredMount request .cargoConfig vendoredCargoConfigMount
  requireVendoredMount request .runtime runtimeBinMount
  ensureExactCargoPurposes request
    [.toolchain, .dependencyCache, .scratch, .verification, .registry, .cargoConfig, .runtime]

def isCargoPhase (request : SandboxRequest) : Bool :=
  (match request.toolchain with
    | .cargo _ _ _ => true
    | .system _ _ => false) || request.cache.isSome

def validateVerification (request : SandboxRequest) : Except String Unit := do
  ensure (request.network.mode == .deny) "verification requires denied network"
  if isCargoPhase request then validateCargoVerification request

/-- The whole validation of a request. -/
def validate (sha256 : List UInt8 → List Char) (host : Host) (request : SandboxRequest) :
    Except String Unit := do
  ensure (request.protocol == requestProtocol)
    ("protocol must be " ++ shown requestProtocol ++ ", not " ++ shown request.protocol)
  ensure (request.protocolVersion == protocolVersion)
    ("protocol_version must be 1, not " ++ toString request.protocolVersion)
  validateArgv request.argv
  validateAbsolute request.workingDirectory "working directory"
  validateEnvironmentShape request.environment
  validateResources request.resources
  validateIdentities request
  validateToolchain request
  validateGrants host request
  validatePathGrants request
  validateNetwork sha256 request
  validateOptionalRoots request
  match request.phase with
  | .authoring => validateAuthoring request
  | .dependencyAcquisition => validateAcquisition request
  | .verification => validateVerification request

end Kvist.Galla
