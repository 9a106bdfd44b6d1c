import Mathlib.Data.List.Perm.Basic
import Kvist.Galla.GrantProperties
import Mathlib.Data.List.Dedup

/-!
# What an accepted acquisition is

A request for package sources is accepted only as the fetch command of its toolchain, with one
environment and one grant for each purpose. Its origins are the ones of a production policy
exactly where the strict parser reads them.
-/

set_option autoImplicit false

namespace Kvist.Galla

open Text Paths

/-- Lists without repetitions, of one length, with the same elements. -/
theorem perm_of_subset {α : Type} {values others : List α} (distinct : values.Nodup)
    (subset : values ⊆ others) (length : others.length ≤ values.length) : others.Perm values :=
  ((List.subperm_of_subset distinct subset).perm_of_length_le length).symm

variable {request : SandboxRequest}

def Declared (request : SandboxRequest) (destination identity : List Char) (access : Access)
    (purpose : Purpose) : Prop :=
  ∃ grant ∈ request.grants, grant.destination = destination ∧ grant.access = access ∧
    grant.purpose = purpose ∧ grant.identity = identity

theorem requireEndpointGrant_ok {destination identity : List Char} {access : Access}
    {purpose : Purpose} {label : String}
    (accepted : requireEndpointGrant request.grants destination identity access purpose label =
      .ok ()) : Declared request destination identity access purpose := by
  rw [requireEndpointGrant] at accepted
  cases found : grantAt request.grants destination with
  | none =>
      rw [found] at accepted
      cases accepted
  | some grant =>
      rw [found] at accepted
      simp only [bind_unit_ok_iff, ensure_ok_iff, beq_iff_eq] at accepted
      obtain ⟨accessSame, purposeSame, identitySame⟩ := accepted
      have member := List.mem_reverse.mp (List.mem_of_find?_eq_some found)
      have same := List.find?_some found
      exact ⟨grant, member, by simpa using same, accessSame, purposeSame, identitySame⟩

theorem childPath_ok {parent path : List Char} {child : String}
    (accepted : childPath parent child = .ok path) : path = parent ++ '/' :: child.toList := by
  simp only [childPath, bind_unit_ok_iff, pure_eq_ok, Except.ok.injEq] at accepted
  obtain ⟨absolute, rfl⟩ := accepted
  rw [if_neg (validateAbsolute_ok absolute).ne_root]

theorem ensureExactCargoPurposes_ok {expected : List Purpose} (distinct : expected.Nodup)
    (accepted : ensureExactCargoPurposes request expected = .ok ()) :
    (request.grants.map (·.purpose)).Perm expected := by
  simp only [ensureExactCargoPurposes, ensure_ok_iff, Bool.not_eq_true', Bool.or_eq_false_iff,
    bne_eq_false_iff_eq, List.any_eq_false] at accepted
  obtain ⟨⟨length, -⟩, once⟩ := accepted
  apply perm_of_subset distinct
  · intro purpose member
    have single := once purpose member
    simp only [bne_iff_ne, ne_eq, not_not] at single
    obtain ⟨grant, found⟩ := List.exists_mem_of_length_pos (l := request.grants.filter
      (·.purpose == purpose)) (by omega)
    rw [List.mem_filter, beq_iff_eq] at found
    exact List.mem_map.mpr ⟨grant, found⟩
  · rw [List.length_map, length]

theorem requireExactEnvironment_ok {required : List (List Char × List Char)}
    (distinct : (required.map Prod.fst).Nodup)
    (accepted : requireExactEnvironment request required = .ok ()) :
    request.environment.entries.length = required.length ∧
      ∀ entry ∈ required, ∃ value, (entry.1, value) ∈ request.environment.entries ∧
        (entry.1 = "PATH".toList → validatePathEnvironment value request = .ok ()) ∧
        (entry.1 ≠ "PATH".toList → value = entry.2) := by
  simp only [requireExactEnvironment, bind_unit_ok_iff, ensure_ok_iff, checkAll_ok_iff,
    Bool.not_eq_true', Bool.or_eq_false_iff, bne_eq_false_iff_eq, List.Nodup.dedup distinct,
    List.length_map] at accepted
  obtain ⟨⟨length, -⟩, checked⟩ := accepted
  refine ⟨length, ?_⟩
  intro entry member
  have present := checked entry member
  cases found : request.environment.get entry.1 with
  | none =>
      rw [found] at present
      cases present
  | some value =>
      rw [found] at present
      refine ⟨value, Environment.get_eq_some_iff.mp found, ?_, ?_⟩
      · intro same
        simpa only [if_pos same] using present
      · intro other
        simpa only [if_neg other, ensure_ok_iff, beq_iff_eq] using present

/-- The grants that an acquisition needs, one for each. -/
def acquisitionPurposes : List Purpose :=
  [.toolchain, .runtime, .dependencyCache, .scratch, .lockfile]

def acquisitionEnvironment (scratch cargoHome directory : List Char) :
    List (List Char × List Char) :=
  [("HOME".toList, scratch ++ "/home".toList), ("PATH".toList, directory),
    ("CARGO_HOME".toList, cargoHome), ("CARGO_TARGET_DIR".toList, scratch ++ "/target".toList),
    ("CARGO_NET_GIT_FETCH_WITH_CLI".toList, "false".toList)]

/-- The topology of an acquisition: its command, its environment and its grants. -/
structure Acquisition (request : SandboxRequest) where
  identity : List Char
  root : List Char
  cargo : List Char
  cache : Cache
  lockfile : LockfileWorkspace
  scratch : Scratch
  directory : List Char
  toolchain : request.toolchain = .cargo identity root cargo
  cacheDeclared : request.cache = some cache
  lockfileDeclared : cache.lockfile = some lockfile
  scratchDeclared : request.scratch = some scratch
  beneath : split root <+: split cargo ∧ cargo ≠ root
  toolchainGrant : Declared request root identity .readOnly .toolchain
  command : request.argv = [cargo, "fetch".toList]
  environment : request.environment.entries.Perm
    (acquisitionEnvironment scratch.destination cache.cargoHome directory)
  searchPath : AbsolutePath directory ∧ ':' ∉ directory ∧
    grantedReadOnlyContains request directory = true
  purposes : (request.grants.map (·.purpose)).Perm acquisitionPurposes
  writable : ∀ grant ∈ request.grants, grant.access = .readWrite ↔
    (grant.purpose, grant.destination) ∈ [(.dependencyCache, cache.cargoHome),
      (.lockfile, lockfile.destination), (.scratch, scratch.destination)]
  apart : request.grants.Pairwise fun left right =>
    ¬split left.destination <+: split right.destination ∧
      ¬split right.destination <+: split left.destination

theorem required_ok {α : Type} {value : Option α} {message : String} {result : α}
    (accepted : required value message = .ok result) : value = some result := by
  cases value with
  | none => cases accepted
  | some found => rw [Except.ok.inj accepted]

theorem cargoToolchain_ok {toolchain : List Char × List Char × List Char}
    (accepted : cargoToolchain request = .ok toolchain) :
    request.toolchain = .cargo toolchain.1 toolchain.2.1 toolchain.2.2 := by
  rw [cargoToolchain] at accepted
  split at accepted
  · rename_i same
    rw [same, ← Except.ok.inj accepted]
  · cases accepted

/-- What the phase checks of an acquisition say. -/
structure AcquisitionChecked (request : SandboxRequest) where
  identity : List Char
  root : List Char
  cargo : List Char
  cache : Cache
  scratch : Scratch
  writable : CacheEndpoint
  lockfile : LockfileWorkspace
  toolchain : request.toolchain = .cargo identity root cargo
  toolchainGrant : Declared request root identity .readOnly .toolchain
  command : request.argv = [cargo, "fetch".toList]
  cacheDeclared : request.cache = some cache
  scratchDeclared : request.scratch = some scratch
  writableDeclared : cache.writable = some writable
  lockfileDeclared : cache.lockfile = some lockfile
  home : writable.destination = cache.cargoHome
  environment : requireExactEnvironment request
    (acquisitionEnvironment scratch.destination cache.cargoHome []) = .ok ()
  purposes : ensureExactCargoPurposes request acquisitionPurposes = .ok ()

theorem validateAcquisition_ok (accepted : validateAcquisition request = .ok ()) :
    Nonempty (AcquisitionChecked request) := by
  simp only [validateAcquisition, bind_ok_iff, ensure_eq_ok_iff, exists_const, Bool.not_eq_true',
    Bool.or_eq_false_iff, bne_eq_false_iff_eq, beq_iff_eq, Prod.exists] at accepted
  obtain ⟨-, ⟨length, second⟩, identity, root, cargo, toolchain, ⟨⟩, toolchainGrant, first, cache,
    cacheFound, scratch, scratchFound, writable, writableFound, lockfile, lockfileFound, promotion,
    -, -, -, home, -, -, homePath, homeChild, targetPath, targetChild, ⟨⟩, environment,
    purposes⟩ := accepted
  obtain rfl := childPath_ok homeChild
  obtain rfl := childPath_ok targetChild
  refine ⟨identity, root, cargo, cache, scratch, writable, lockfile,
    cargoToolchain_ok toolchain, requireEndpointGrant_ok toolchainGrant, ?_,
    required_ok cacheFound, required_ok scratchFound, required_ok writableFound,
    required_ok lockfileFound, home, environment, purposes⟩
  cases argv : request.argv with
  | nil => simp [argv] at length
  | cons program arguments =>
      cases arguments with
      | nil => simp [argv] at length
      | cons argument others =>
          rw [argv] at length first second
          have none : others = [] := List.length_eq_zero_iff.mp (by simpa using length)
          rw [none, Option.some.inj first, Option.some.inj second]

theorem validateOptionalRoots_ok {cache : Cache} {scratch : Scratch} {writable : CacheEndpoint}
    {lockfile : LockfileWorkspace} (accepted : validateOptionalRoots request = .ok ())
    (cacheDeclared : request.cache = some cache) (scratchDeclared : request.scratch = some scratch)
    (writableDeclared : cache.writable = some writable)
    (lockfileDeclared : cache.lockfile = some lockfile) :
    Declared request writable.destination writable.identity .readWrite .dependencyCache ∧
      Declared request lockfile.destination lockfile.beforeIdentity .readWrite .lockfile ∧
      Declared request scratch.destination scratch.identity .readWrite .scratch := by
  simp only [validateOptionalRoots, bind_unit_ok_iff, cacheDeclared, scratchDeclared, whenPresent,
    validateCacheStructural, writableDeclared, lockfileDeclared, validateCacheEndpoint,
    validateLockfileStructural, validateScratchStructural] at accepted
  obtain ⟨⟨-, ⟨-, -, writableGrant⟩, -, ⟨-, -, lockfileGrant⟩, -⟩, -, -, scratchGrant⟩ := accepted
  exact ⟨requireEndpointGrant_ok writableGrant, requireEndpointGrant_ok lockfileGrant,
    requireEndpointGrant_ok scratchGrant⟩

theorem Declared.eq_of_purpose (distinct : (request.grants.map (·.purpose)).Nodup)
    {destination identity : List Char} {access : Access} {purpose : Purpose}
    (declared : Declared request destination identity access purpose) {grant : Grant}
    (member : grant ∈ request.grants) (same : grant.purpose = purpose) :
    grant.destination = destination ∧ grant.access = access := by
  obtain ⟨other, present, otherDestination, otherAccess, otherPurpose, -⟩ := declared
  have equal := List.inj_on_of_nodup_map distinct member present (same.trans otherPurpose.symm)
  rw [equal]
  exact ⟨otherDestination, otherAccess⟩

theorem validatePathEnvironment_ok {value : List Char}
    (accepted : validatePathEnvironment value request = .ok ()) :
    AbsolutePath value ∧ ':' ∉ value ∧ grantedReadOnlyContains request value = true := by
  simp only [validatePathEnvironment, bind_unit_ok_iff, ensure_ok_iff, Bool.not_eq_true',
    Bool.or_eq_false_iff, List.contains_eq_mem, decide_eq_false_iff_not] at accepted
  obtain ⟨⟨-, single⟩, absolute, granted⟩ := accepted
  exact ⟨validateAbsolute_ok absolute, single, granted⟩

theorem environment_exact {scratch cargoHome : List Char}
    (accepted : requireExactEnvironment request (acquisitionEnvironment scratch cargoHome []) =
      .ok ()) :
    ∃ directory, validatePathEnvironment directory request = .ok () ∧
      request.environment.entries.Perm (acquisitionEnvironment scratch cargoHome directory) := by
  have distinct : ["HOME".toList, "PATH".toList, "CARGO_HOME".toList, "CARGO_TARGET_DIR".toList,
      "CARGO_NET_GIT_FETCH_WITH_CLI".toList].Nodup := by decide
  obtain ⟨length, present⟩ := @requireExactEnvironment_ok
    _ (acquisitionEnvironment scratch cargoHome []) distinct accepted
  obtain ⟨directory, member, checked, -⟩ := present ("PATH".toList, []) (by
    simp [acquisitionEnvironment])
  refine ⟨directory, checked rfl, perm_of_subset ?_ ?_ (Nat.le_of_eq length)⟩
  · exact List.Nodup.of_map Prod.fst distinct
  · have other : ∀ {name value : List Char}, name ≠ "PATH".toList →
        (name, value) ∈ acquisitionEnvironment scratch cargoHome [] →
        (name, value) ∈ request.environment.entries := by
      intro name value different listed
      obtain ⟨actual, found, -, same⟩ := present (name, value) listed
      have value_same : actual = value := same different
      rwa [value_same] at found
    intro entry listed
    simp only [acquisitionEnvironment, List.mem_cons, List.not_mem_nil, or_false] at listed
    rcases listed with rfl | rfl | rfl | rfl | rfl
    · exact other (by decide) (by simp [acquisitionEnvironment])
    · exact member
    · exact other (by decide) (by simp [acquisitionEnvironment])
    · exact other (by decide) (by simp [acquisitionEnvironment])
    · exact other (by decide) (by simp [acquisitionEnvironment])

theorem writable_iff {cargoHome lockfile scratch cargoIdentity lockfileIdentity scratchIdentity :
      List Char}
    (grants : GrantsAccepted request) (phase : request.phase = .dependencyAcquisition)
    (purposes : (request.grants.map (·.purpose)).Perm acquisitionPurposes)
    (home : Declared request cargoHome cargoIdentity .readWrite .dependencyCache)
    (workspace : Declared request lockfile lockfileIdentity .readWrite .lockfile)
    (space : Declared request scratch scratchIdentity .readWrite .scratch)
    {grant : Grant} (member : grant ∈ request.grants) :
    grant.access = .readWrite ↔ (grant.purpose, grant.destination) ∈
      [(.dependencyCache, cargoHome), (.lockfile, lockfile), (.scratch, scratch)] := by
  have distinct : (request.grants.map (·.purpose)).Nodup := purposes.nodup_iff.mpr (by decide)
  simp only [List.mem_cons, Prod.mk.injEq, List.not_mem_nil, or_false]
  constructor
  · intro writes
    have listed := (grants.each grant member).purpose
    rw [phase] at listed
    rcases (grants.each grant member).writable writes with authoring | scratchSame |
      ⟨-, cacheSame | lockfileSame⟩
    · rw [authoring] at listed
      exact absurd listed (by decide)
    · exact .inr (.inr ⟨scratchSame, (space.eq_of_purpose distinct member scratchSame).1⟩)
    · exact .inl ⟨cacheSame, (home.eq_of_purpose distinct member cacheSame).1⟩
    · exact .inr (.inl ⟨lockfileSame, (workspace.eq_of_purpose distinct member lockfileSame).1⟩)
  · intro endpoint
    rcases endpoint with ⟨same, -⟩ | ⟨same, -⟩ | ⟨same, -⟩
    · exact (home.eq_of_purpose distinct member same).2
    · exact (workspace.eq_of_purpose distinct member same).2
    · exact (space.eq_of_purpose distinct member same).2

theorem validateToolchain_cargo {identity root cargo : List Char}
    (accepted : validateToolchain request = .ok ())
    (toolchain : request.toolchain = .cargo identity root cargo) :
    split root <+: split cargo ∧ cargo ≠ root := by
  simp only [validateToolchain, toolchain, bind_unit_ok_iff, ensure_ok_iff, Bool.not_eq_true',
    Bool.or_eq_false_iff, Bool.not_eq_false', beq_eq_false_iff_ne] at accepted
  obtain ⟨-, root, -, ⟨other, inside⟩, -⟩ := accepted
  exact ⟨pathContains_leading (validateAbsolute_ok root) inside, other⟩

/-- A request that may reach package sources is an acquisition in its exact topology. -/
theorem package_sources_acquisition {sha256 : List UInt8 → List Char} {host : Host}
    (accepted : validate sha256 host request = .ok ())
    (sources : request.network.mode = .packageSources) :
    request.phase = .dependencyAcquisition ∧ Nonempty (Acquisition request) := by
  have facts := validate_ok accepted
  obtain ⟨origins, network⟩ := validateNetwork_ok facts.network
  have phase := network.phase sources
  have checks := facts.phase
  rw [phaseChecks, phase] at checks
  obtain ⟨acquisition⟩ := validateAcquisition_ok checks
  obtain ⟨home, workspace, space⟩ := validateOptionalRoots_ok facts.roots
    acquisition.cacheDeclared acquisition.scratchDeclared acquisition.writableDeclared
    acquisition.lockfileDeclared
  rw [acquisition.home] at home
  obtain ⟨directory, directoryChecked, environment⟩ := environment_exact acquisition.environment
  have purposes := ensureExactCargoPurposes_ok (by decide) acquisition.purposes
  refine ⟨phase, ⟨{
    identity := acquisition.identity
    root := acquisition.root
    cargo := acquisition.cargo
    cache := acquisition.cache
    lockfile := acquisition.lockfile
    scratch := acquisition.scratch
    directory := directory
    toolchain := acquisition.toolchain
    cacheDeclared := acquisition.cacheDeclared
    lockfileDeclared := acquisition.lockfileDeclared
    scratchDeclared := acquisition.scratchDeclared
    beneath := validateToolchain_cargo facts.toolchain acquisition.toolchain
    toolchainGrant := acquisition.toolchainGrant
    command := acquisition.command
    environment := environment
    searchPath := validatePathEnvironment_ok directoryChecked
    purposes := purposes
    writable := fun grant member =>
      writable_iff facts.grants phase purposes home workspace space member
    apart := ?_ }⟩⟩
  refine facts.grants.apart.imp_of_mem ?_
  intro left right leftMember rightMember apart
  have leftPath := (facts.grants.each left leftMember).destination
  have rightPath := (facts.grants.each right rightMember).destination
  rw [← pathContains_iff leftPath rightPath, ← pathContains_iff rightPath leftPath, apart.1, apart.2]
  simp

theorem package_sources_acquisition_fetch :
    (fetchRequest [internalRegistry]).phase = .dependencyAcquisition ∧
      Nonempty (Acquisition (fetchRequest [internalRegistry])) :=
  @package_sources_acquisition _ exampleDigest plainHost
    (fetchRequest_accepted List.mem_cons_self) rfl

/-- The origin is reached by HTTPS, and an address that it names is a public one. -/
def ProductionOrigin (url : List Char) : Prop :=
  ∃ origin, parse url = .ok origin ∧ origin.scheme = .https ∧
    ∀ address, Address.parseIpAddress origin.host = some address → isPublicAddress address = true

/-- The host is the reserved local name, which the strict parser refuses and the general one
accepts. -/
def LocalName (url : List Char) : Prop :=
  ∃ origin, parse url = .ok origin ∧ origin.host = "localhost".toList

/-- The general parser stands in for the strict one at most for the local name by HTTPS. -/
def StrictlyParsed : AllowedSource → Prop
  | .cargoRegistry name indexOrigin downloadOrigin _ =>
      name ≠ canonicalCratesIoName → ∀ url ∈ [indexOrigin, downloadOrigin],
        (∃ origin, parseProduction url = .ok origin) ∨
          (LocalName url ∧ "https://".toList <+: url)
  | .cargoGit repository _ _ =>
      (∃ origin, parseProduction repository = .ok origin) ∨ LocalName repository

theorem productionOrigin_of_strict {url : List Char} {origin : Origin}
    (parsed : parseProduction url = .ok origin) : ProductionOrigin url := by
  obtain ⟨accepted, secure, global, -⟩ := parseProduction_ok.mp parsed
  exact ⟨origin, accepted, secure, global⟩

theorem productionOrigin_of_local {url : List Char} {origin : Origin}
    (parsed : parse url = .ok origin) (secure : origin.scheme = .https)
    (named : origin.host = "localhost".toList) : ProductionOrigin url := by
  refine ⟨origin, parsed, secure, ?_⟩
  intro address found
  have none : Address.parseIpAddress "localhost".toList = none := by decide
  rw [named, none] at found
  cases found

theorem ProductionOrigin.strict_or_local {url : List Char} (production : ProductionOrigin url) :
    (∃ origin, parseProduction url = .ok origin) ∨ (LocalName url ∧ "https://".toList <+: url) := by
  obtain ⟨origin, parsed, secure, global⟩ := production
  by_cases named : origin.host = "localhost".toList
  · obtain ⟨-, -, rest, rfl, -⟩ := parse_ok parsed
    refine .inr ⟨⟨origin, parsed, named⟩, rest, ?_⟩
    rw [secure]
    rfl
  · exact .inl ⟨origin, parseProduction_ok.mpr ⟨parsed, secure, global, named⟩⟩

theorem scheme_of_https {url : List Char} {origin : Origin} (parsed : parse url = .ok origin)
    (begins : "https://".toList <+: url) : origin.scheme = .https := by
  obtain ⟨-, -, rest, rfl, -⟩ := parse_ok parsed
  obtain ⟨more, same⟩ := begins
  cases scheme : origin.scheme with
  | https => rfl
  | http =>
      rw [scheme] at same
      cases same

theorem productionOrigins_iff {source : AllowedSource} (parsed : SourceParsed source) :
    (∀ url ∈ source.urls, ProductionOrigin url) ↔ StrictlyParsed source := by
  cases source with
  | cargoRegistry name indexOrigin downloadOrigin identity =>
      constructor
      · intro production _ url member
        exact (production url member).strict_or_local
      · intro strict url member
        by_cases builtIn : name = canonicalCratesIoName
        · obtain ⟨origin, found⟩ := parsed builtIn url member
          exact productionOrigin_of_strict found
        · rcases strict builtIn url member with ⟨origin, found⟩ | ⟨⟨origin, found, named⟩, begins⟩
          · exact productionOrigin_of_strict found
          · exact productionOrigin_of_local found (scheme_of_https found begins) named
  | cargoGit repository revision identity =>
      obtain ⟨origin, found, secure⟩ := parsed
      constructor
      · intro production
        exact (production repository List.mem_cons_self).strict_or_local.imp_right And.left
      · intro strict url member
        rw [List.mem_singleton.mp member]
        rcases strict with ⟨origin, accepted⟩ | ⟨other, again, named⟩
        · exact productionOrigin_of_strict accepted
        · obtain rfl := Except.ok.inj (found.symm.trans again)
          exact productionOrigin_of_local found secure named

/-- The declared origins of an accepted request are production origins exactly if the general
parser stands in for the strict one at most for the local name. -/
theorem declared_origins_production {sha256 : List UInt8 → List Char} {host : Host}
    (accepted : validate sha256 host request = .ok ()) :
    (∀ source ∈ request.network.allowedSources, ∀ url ∈ source.urls, ProductionOrigin url) ↔
      ∀ source ∈ request.network.allowedSources, StrictlyParsed source := by
  obtain ⟨origins, network⟩ := validateNetwork_ok (validate_ok accepted).network
  constructor
  · intro production source member
    exact (productionOrigins_iff (network.sources source member)).mp (production source member)
  · intro strict source member
    exact (productionOrigins_iff (network.sources source member)).mpr (strict source member)

theorem declared_origins_production_fetch :
    (∀ source ∈ [internalRegistry, toolRepository], ∀ url ∈ source.urls, ProductionOrigin url) ↔
      ∀ source ∈ [internalRegistry, toolRepository], StrictlyParsed source :=
  @declared_origins_production (fetchRequest [internalRegistry, toolRepository]) exampleDigest
    plainHost (fetchRequest_accepted (.tail _ List.mem_cons_self))

/-- A mirror on the loopback address is accepted, without HTTPS. -/
theorem localMirror_accepted :
    validate exampleDigest plainHost (fetchRequest [localMirror]) = .ok () ∧
      (fetchRequest [localMirror]).phase = .dependencyAcquisition ∧
      "http://127.0.0.1/index/".toList ∈ localMirror.urls ∧
      ¬ProductionOrigin "http://127.0.0.1/index/".toList := by
  refine ⟨fetchRequest_accepted (.tail _ (.tail _ List.mem_cons_self)), rfl,
    List.mem_cons_self, ?_⟩
  intro ⟨origin, parsed, secure, _⟩
  have found : parse "http://127.0.0.1/index/".toList =
      .ok ⟨.http, "127.0.0.1".toList, 80, "/index/".toList⟩ :=
    eq_ok_of_toOption (by decide)
  rw [found] at parsed
  rw [← Except.ok.inj parsed] at secure
  cases secure

end Kvist.Galla
