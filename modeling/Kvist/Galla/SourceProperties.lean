import Kvist.Galla.OriginProperties
import Kvist.Galla.Validation

/-!
# What accepted package sources guarantee

Every declared URL parses into its own origin, and no request is permitted under two of them.
-/

set_option autoImplicit false

namespace Kvist.Galla

open Text Paths

/-- The URLs that a source declares. -/
def AllowedSource.urls : AllowedSource → List (List Char)
  | .cargoRegistry _ indexOrigin downloadOrigin _ => [indexOrigin, downloadOrigin]
  | .cargoGit repository _ _ => [repository]

/-- The URLs parse into the origins, one into each. -/
def ParsedAs (urls : List (List Char)) (origins : List Origin) : Prop :=
  List.Forall₂ (fun url origin => parse url = .ok origin) urls origins

theorem ParsedAs.append {urls others : List (List Char)} {origins otherOrigins : List Origin}
    (parsed : ParsedAs urls origins) (parsedOthers : ParsedAs others otherOrigins) :
    ParsedAs (urls ++ others) (origins ++ otherOrigins) :=
  List.rel_append parsed parsedOthers

theorem ParsedAs.url_of_mem {urls : List (List Char)} {origins : List Origin}
    (parsed : ParsedAs urls origins) {origin : Origin} (member : origin ∈ origins) :
    ∃ url ∈ urls, parse url = .ok origin := by
  induction parsed with
  | nil => cases member
  | @cons url first urls origins same _ ih =>
      rcases List.mem_cons.mp member with rfl | later
      · exact ⟨url, List.mem_cons_self, same⟩
      · obtain ⟨other, present, found⟩ := ih later
        exact ⟨other, List.mem_cons_of_mem _ present, found⟩

/-- Both parsers give the origin that the general one gives. -/
theorem canonicalProductionOrigin_ok {value : List Char} {label : String} {origin : Origin}
    (accepted : canonicalProductionOrigin value label = .ok origin) :
    isCanonicalOriginUrl value = true ∧ parse value = .ok origin := by
  simp only [canonicalProductionOrigin, bind_unit_ok_iff, ensure_ok_iff] at accepted
  obtain ⟨-, canonical, accepted⟩ := accepted
  refine ⟨canonical, ?_⟩
  cases strict : parseProduction value with
  | ok parsed =>
      rw [strict] at accepted
      obtain rfl := Except.ok.inj accepted
      exact (parseProduction_ok.mp strict).1
  | error message =>
      rw [strict] at accepted
      cases general : parse value with
      | ok parsed =>
          rw [general] at accepted
          exact accepted
      | error other =>
          rw [general] at accepted
          cases accepted

theorem withLabel_ok {label : String} {parsed : Except String Origin} {origin : Origin}
    (labelled : withLabel label parsed = .ok origin) : parsed = .ok origin := by
  cases parsed with
  | ok found => exact labelled
  | error message => cases labelled

theorem validateRegistryOrigins_ok {name indexOrigin downloadOrigin : List Char} {label : String}
    {origins : List Origin}
    (accepted : validateRegistryOrigins name indexOrigin downloadOrigin label = .ok origins) :
    ParsedAs [indexOrigin, downloadOrigin] origins ∧
      (name = canonicalCratesIoName → ∀ url ∈ [indexOrigin, downloadOrigin],
        ∃ origin, parseProduction url = .ok origin) := by
  rw [validateRegistryOrigins] at accepted
  split at accepted
  · simp only [bind_ok_iff, ensure_eq_ok_iff, exists_const, pure_eq_ok, Except.ok.injEq]
      at accepted
    obtain ⟨-, index, indexParsed, download, downloadParsed, rfl⟩ := accepted
    have indexStrict := withLabel_ok indexParsed
    have downloadStrict := withLabel_ok downloadParsed
    refine ⟨.cons (parseProduction_ok.mp indexStrict).1
      (.cons (parseProduction_ok.mp downloadStrict).1 .nil), ?_⟩
    intro _ url member
    rcases List.mem_pair.mp member with rfl | rfl
    · exact ⟨index, indexStrict⟩
    · exact ⟨download, downloadStrict⟩
  · rename_i other
    simp only [bind_ok_iff, ensure_eq_ok_iff, exists_const, pure_eq_ok, Except.ok.injEq]
      at accepted
    obtain ⟨index, indexParsed, download, downloadParsed, -, rfl⟩ := accepted
    refine ⟨.cons (canonicalProductionOrigin_ok indexParsed).2
      (.cons (canonicalProductionOrigin_ok downloadParsed).2 .nil), ?_⟩
    intro same
    exact absurd same other

section Accepted

variable {sha256 : List UInt8 → List Char}

/-- The strict parser reads the built-in registry, and a repository is always reached by HTTPS. -/
def SourceParsed (source : AllowedSource) : Prop :=
  match source with
  | .cargoRegistry name indexOrigin downloadOrigin _ =>
      name = canonicalCratesIoName → ∀ url ∈ [indexOrigin, downloadOrigin],
        ∃ origin, parseProduction url = .ok origin
  | .cargoGit repository _ _ => ∃ origin, parse repository = .ok origin ∧ origin.scheme = .https

theorem validateSource_ok {source : AllowedSource} {label : String} {names : List (List Char)}
    {validated : ValidatedSource}
    (accepted : validateSource sha256 source label names = .ok validated) :
    ParsedAs source.urls validated.origins ∧ SourceParsed source := by
  cases source with
  | cargoRegistry name indexOrigin downloadOrigin identity =>
      simp only [validateSource, bind_ok_iff, ensure_eq_ok_iff, exists_const, pure_eq_ok,
        Except.ok.injEq] at accepted
      obtain ⟨-, -, -, origins, checked, -, rfl⟩ := accepted
      exact validateRegistryOrigins_ok checked
  | cargoGit repository revision identity =>
      simp only [validateSource, bind_ok_iff, ensure_eq_ok_iff, exists_const, pure_eq_ok,
        Except.ok.injEq] at accepted
      obtain ⟨-, -, -, parsed, checked, secure, -, rfl⟩ := accepted
      have found := (canonicalProductionOrigin_ok checked).2
      exact ⟨.cons found .nil, parsed, found, by simpa using secure⟩

theorem validateSources_ok {index : Nat} {names identities : List (List Char)}
    {sources : List AllowedSource} {origins : List Origin}
    (accepted : validateSources sha256 index names identities sources = .ok origins) :
    ParsedAs (sources.flatMap AllowedSource.urls) origins ∧
      ∀ source ∈ sources, SourceParsed source := by
  induction sources generalizing index names identities origins with
  | nil =>
      obtain rfl := Except.ok.inj accepted
      exact ⟨.nil, by simp⟩
  | cons source rest ih =>
      simp only [validateSources, bind_ok_iff, ensure_eq_ok_iff, exists_const, pure_eq_ok,
        Except.ok.injEq] at accepted
      obtain ⟨validated, checked, -, others, checkedRest, rfl⟩ := accepted
      obtain ⟨parsed, facts⟩ := validateSource_ok checked
      obtain ⟨parsedRest, factsRest⟩ := ih checkedRest
      refine ⟨parsed.append parsedRest, ?_⟩
      intro other member
      rcases List.mem_cons.mp member with rfl | later
      · exact facts
      · exact factsRest other later

theorem validateDisjoint_ok {origins : List Origin} :
    validateDisjoint origins = .ok () ↔
      origins.Pairwise fun left right => originsOverlap left right = false := by
  induction origins with
  | nil => simp [validateDisjoint]
  | cons left rest ih =>
      rw [validateDisjoint, bind_unit_ok_iff, checkAll_ok_iff, List.pairwise_cons, ih]
      simp only [ensure_ok_iff, Bool.not_eq_true']

/-- What an accepted network declaration consists of. -/
structure NetworkAccepted (request : SandboxRequest) (origins : List Origin) : Prop where
  parsed : ParsedAs (request.network.allowedSources.flatMap AllowedSource.urls) origins
  sources : ∀ source ∈ request.network.allowedSources, SourceParsed source
  disjoint : origins.Pairwise fun left right => originsOverlap left right = false
  phase : request.network.mode = .packageSources → request.phase = .dependencyAcquisition

theorem validateNetwork_ok {request : SandboxRequest}
    (accepted : validateNetwork sha256 request = .ok ()) :
    ∃ origins, NetworkAccepted request origins := by
  simp only [validateNetwork, bind_unit_ok_iff, ensure_ok_iff] at accepted
  obtain ⟨-, accepted⟩ := accepted
  cases mode : request.network.mode with
  | deny =>
      rw [mode] at accepted
      have none := List.isEmpty_iff.mp (ensure_ok_iff.mp accepted)
      refine ⟨[], ?_, ?_, .nil, ?_⟩
      · rw [none]
        exact .nil
      · simp [none]
      · intro same
        cases mode.symm.trans same
  | packageSources =>
      rw [mode] at accepted
      simp only [bind_ok_iff, ensure_eq_ok_iff, exists_const] at accepted
      obtain ⟨phase, -, origins, sources, disjoint⟩ := accepted
      obtain ⟨parsed, facts⟩ := validateSources_ok sources
      exact ⟨origins, parsed, facts, validateDisjoint_ok.mp disjoint, fun _ => by simpa using phase⟩

end Accepted

/-- The hash function at the fields of the three sources below. -/
def exampleDigest (bytes : List UInt8) : List Char :=
  match bytes.length with
  | 119 => "f9aa9e3f0e0a7603dcf6068c2149a2e886dc1657d0d3e5bd7eb162f41ec235cb".toList
  | 107 => "e511a390e694e8aaa5b72319c0fedda561462774bbb3f51f36985d908b5a5591".toList
  | _ => "d3f05af0a85fbe4066b4c4bc2e3c6927ecc871a5ebeab6f8a06061f1a5da3f0f".toList

def internalRegistry : AllowedSource :=
  .cargoRegistry "internal".toList "https://registry.example/index/".toList
    "https://registry.example/crates/".toList
    "sha256:f9aa9e3f0e0a7603dcf6068c2149a2e886dc1657d0d3e5bd7eb162f41ec235cb".toList

def localMirror : AllowedSource :=
  .cargoRegistry "mirror".toList "http://127.0.0.1/index/".toList
    "https://mirror.example/crates/".toList
    "sha256:e511a390e694e8aaa5b72319c0fedda561462774bbb3f51f36985d908b5a5591".toList

def toolRepository : AllowedSource :=
  .cargoGit "https://code.example/tool.git".toList
    "0000000000000000000000000000000000000001".toList
    "sha256:d3f05af0a85fbe4066b4c4bc2e3c6927ecc871a5ebeab6f8a06061f1a5da3f0f".toList

def exampleIdentity : List Char :=
  "sha256:0000000000000000000000000000000000000000000000000000000000000000".toList

/-- A complete acquisition request that fetches from the sources. -/
def fetchRequest (sources : List AllowedSource) : SandboxRequest where
  protocol := requestProtocol
  protocolVersion := 1
  phase := .dependencyAcquisition
  argv := ["/opt/rust/bin/cargo".toList, "fetch".toList]
  workingDirectory := "/workspace/project".toList
  environment :=
    { entries := [("CARGO_HOME".toList, "/workspace/cargo".toList),
        ("CARGO_NET_GIT_FETCH_WITH_CLI".toList, "false".toList),
        ("CARGO_TARGET_DIR".toList, "/workspace/scratch/target".toList),
        ("HOME".toList, "/workspace/scratch/home".toList),
        ("PATH".toList, "/workspace/bin".toList)]
      distinct := by decide }
  network := ⟨.packageSources, sources⟩
  resources := ⟨600000, 1048576, 64, 65536, 1048576, 1048576, some 1048576⟩
  identities :=
    { runner := exampleIdentity
      backend := ⟨"/usr/bin/bwrap".toList, exampleIdentity⟩
      policy := exampleIdentity
      toolchain := exampleIdentity
      command := exampleIdentity
      mountPlan := exampleIdentity }
  grants :=
    [⟨"/opt/rust".toList, "/opt/rust".toList, .readOnly, .toolchain, exampleIdentity⟩,
      ⟨"/srv/bin".toList, "/workspace/bin".toList, .readOnly, .runtime, exampleIdentity⟩,
      ⟨"/srv/cargo".toList, "/workspace/cargo".toList, .readWrite, .dependencyCache,
        exampleIdentity⟩,
      ⟨"/srv/scratch".toList, "/workspace/scratch".toList, .readWrite, .scratch, exampleIdentity⟩,
      ⟨"/srv/project".toList, "/workspace/project".toList, .readWrite, .lockfile,
        exampleIdentity⟩]
  toolchain := .cargo exampleIdentity "/opt/rust".toList "/opt/rust/bin/cargo".toList
  cache := some
    { cargoHome := "/workspace/cargo".toList
      registry := "/workspace/cargo/registry".toList
      git := "/workspace/cargo/git".toList
      writable := some ⟨"/workspace/cargo".toList, exampleIdentity⟩
      approved := none
      lockfile := some ⟨"/workspace/project".toList, exampleIdentity⟩
      promotion := some ⟨true, "/workspace/cargo".toList⟩ }
  scratch := some ⟨"/workspace/scratch".toList, exampleIdentity⟩

/-- A host without symbolic links. -/
def plainHost : Host := ⟨fun _ => false, fun _ => [], fun _ => none⟩

/-- No URL is permitted under two of the declared origins. Two origins overlap exactly if they
permit a common URL, and one path is within another exactly by their components. -/
theorem declared_origins_disjoint :
    (∀ (sha256 : List UInt8 → List Char) (request : SandboxRequest),
      validateNetwork sha256 request = .ok () →
        ∃ origins, ParsedAs (request.network.allowedSources.flatMap AllowedSource.urls) origins ∧
          origins.Pairwise fun left right => ∀ url, ¬(Permitted left url ∧ Permitted right url)) ∧
      (∀ left right, CanonicalOrigin left → CanonicalOrigin right →
        (originsOverlap left right = true ↔ ∃ url, Permitted left url ∧ Permitted right url)) ∧
      ∀ path candidate, CanonicalPath path → CanonicalPath candidate →
        (pathWithin path candidate = true ↔ split path <+: split candidate) := by
  refine ⟨?_, ?_, ?_⟩
  · intro sha256 request accepted
    obtain ⟨origins, network⟩ := validateNetwork_ok accepted
    refine ⟨origins, network.parsed, network.disjoint.imp_of_mem ?_⟩
    intro left right leftMember rightMember apart url permitted
    obtain ⟨leftUrl, -, leftParsed⟩ := network.parsed.url_of_mem leftMember
    obtain ⟨rightUrl, -, rightParsed⟩ := network.parsed.url_of_mem rightMember
    have overlap := (originsOverlap_iff leftParsed rightParsed).mpr ⟨url, permitted⟩
    rw [apart] at overlap
    cases overlap
  · intro left right ⟨leftUrl, _, leftParsed⟩ ⟨rightUrl, _, rightParsed⟩
    exact originsOverlap_iff leftParsed rightParsed
  · intro path candidate canonical candidateCanonical
    exact pathWithin_iff canonical candidateCanonical

theorem declared_origins_disjoint_two :
    (∃ origins, ParsedAs ["https://registry.example/index/".toList,
        "https://registry.example/crates/".toList, "https://code.example/tool.git".toList] origins ∧
      origins.Pairwise fun left right => ∀ url, ¬(Permitted left url ∧ Permitted right url)) ∧
      (originsOverlap ⟨.https, "a.example".toList, 443, "/index".toList⟩
          ⟨.https, "a.example".toList, 443, "/index/".toList⟩ = true ↔
        ∃ url, Permitted ⟨.https, "a.example".toList, 443, "/index".toList⟩ url ∧
          Permitted ⟨.https, "a.example".toList, 443, "/index/".toList⟩ url) ∧
      (pathWithin "/index".toList "/index-other".toList = true ↔
        split "/index".toList <+: split "/index-other".toList) := by
  refine ⟨?_, ?_, ?_⟩
  · apply declared_origins_disjoint.1 exampleDigest (fetchRequest [internalRegistry, toolRepository])
    apply eq_ok_of_isOk
    delta exampleDigest internalRegistry toolRepository
    repeat rw [String.toList_ofList]
    decide +kernel
  · apply declared_origins_disjoint.2.1
    · exact ⟨"https://a.example/index".toList, by decide,
        eq_ok_of_toOption (by decide)⟩
    · exact ⟨"https://a.example/index/".toList, by decide,
        eq_ok_of_toOption (by decide)⟩
  · apply declared_origins_disjoint.2.2
    · exact ⟨["index".toList], by simp [Proper], .inr (by decide)⟩
    · exact ⟨["index-other".toList], by simp [Proper], .inr (by decide)⟩

end Kvist.Galla
