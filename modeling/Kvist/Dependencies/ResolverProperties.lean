import Kvist.Dependencies.Resolver

/-!
# The closed graph

A configuration that is accepted and bound takes every locked package from the directory that is
mounted for it. A configuration with another place for its directories keeps everything else.
-/

set_option autoImplicit false

namespace Kvist.Dependencies.Resolver

variable (rules : UrlRules) {limits : SourceLimits} {config : Config} {source : Source}
  {target directory : String}

/-! ## Accepted configurations -/

/-- The source is replaced by a directory, in one hop. -/
def ReplacedByDirectory (config : Config) (source : Source) (directory : String) : Prop :=
  source.directory = none ∧ ∃ target replacement, source.replaceWith = some target ∧
    config.source.get target = some replacement ∧ replacement.directory = some directory ∧
    replacement.replaceWith = none

/-- What the reader asks of a configuration. -/
structure Accepted (limits : SourceLimits) (config : Config) : Prop where
  nonempty : config.source.entries ≠ []
  bounded : config.source.entries.length ≤ limits.maxSources
  valid : ∀ entry ∈ config.source.entries, validSource rules config.source entry.1 entry.2 = true
  used : ∀ entry ∈ config.source.entries, entry.2.directory ≠ none →
    entry.1 ∈ referenced config.source

variable {rules}

theorem parse_ok_iff {format : ConfigFormat} {text : List Char} :
    parse rules format text limits = .ok config ↔
      Json.utf8Bytes text ≤ limits.maxMetadataBytes ∧ format.fromText text = some config ∧
        Accepted rules limits config := by
  rw [parse, bind_unit_ok_iff, ensure_ok_iff, decide_eq_true_iff]
  refine and_congr_right fun _ => ?_
  rw [bind_ok_iff]
  simp only [okOr_ok_iff, bind_unit_ok_iff, ensure_ok_iff, Bool.and_eq_true, decide_eq_true_iff,
    List.all_eq_true, Bool.or_eq_true, Option.isNone_iff_eq_none, List.contains_iff_mem,
    pure_eq_ok, Except.ok.injEq]
  constructor
  · rintro ⟨found, read, ⟨nonempty, bounded⟩, valid, used, rfl⟩
    exact ⟨read, nonempty, bounded, valid, fun entry member present =>
      (used entry member).resolve_left present⟩
  · rintro ⟨read, accepted⟩
    exact ⟨config, read, ⟨accepted.nonempty, accepted.bounded⟩, accepted.valid,
      fun entry member => or_iff_not_imp_left.mpr (accepted.used entry member), rfl⟩

theorem validSource_cases {sources : OrderedMap String Source} {key : String}
    (valid : validSource rules sources key source = true) :
    (source.directory ≠ none ∧ source.replaceWith = none) ∨
      ∃ directory, ReplacedByDirectory ⟨sources⟩ source directory := by
  rw [validSource, Bool.and_eq_true] at valid
  cases present : source.directory with
  | some directory =>
      rw [present] at valid
      simp only [Source.isPlainDirectory, Bool.and_eq_true, Option.isNone_iff_eq_none] at valid
      exact .inl ⟨Option.some_ne_none _, valid.2.1.1.1.2⟩
  | none =>
      rw [present] at valid
      have replaced := valid.2
      rw [Source.isReplaced] at replaced
      cases named : source.replaceWith with
      | none => rw [named] at replaced; cases replaced
      | some target =>
          rw [named] at replaced
          simp only [Bool.and_eq_true, Option.any_eq_true, Option.isNone_iff_eq_none,
            Option.isSome_iff_exists] at replaced
          obtain ⟨replacement, found, ⟨directory, held⟩, last⟩ := replaced.2
          exact .inr ⟨directory, present, target, replacement, named, found, held, last⟩

theorem Accepted.exists_directory (accepted : Accepted rules limits config) :
    ∃ entry ∈ config.source.entries, entry.2.directory ≠ none := by
  obtain ⟨entry, member⟩ := List.exists_mem_of_ne_nil _ accepted.nonempty
  obtain ⟨present, _⟩ | ⟨directory, _, target, replacement, _, found, held, _⟩ :=
    validSource_cases (accepted.valid entry member)
  · exact ⟨entry, member, present⟩
  · refine ⟨(target, replacement), OrderedMap.mem_of_lookup found, ?_⟩
    rw [held]
    exact Option.some_ne_none _

/-! ## Binding -/

theorem bind_ok_iff_bound {graph : LockedGraph} {published : Bool} :
    bind config graph published = .ok () ↔
      (published = true → ∀ entry ∈ config.source.entries, ∀ directory,
        entry.2.directory = some directory → directory = vendorSandboxMount) ∧
      ∀ package ∈ graph.packages, package.origin = .local ∨
        (matching config package.origin).length = 1 := by
  rw [bind, bind_unit_ok_iff, ensure_ok_iff, ensure_ok_iff]
  refine and_congr ?_ ?_
  · rw [Bool.not_eq_true', Bool.and_eq_false_imp]
    refine imp_congr_right fun _ => ?_
    simp only [OrderedMap.values, List.any_map, List.any_eq_false, Function.comp_apply,
      Option.any_eq_true, decide_eq_true_iff, not_exists, not_and, ne_eq, not_not]
  · simp only [List.all_eq_true, Bool.or_eq_true, decide_eq_true_iff]

theorem matchesOrigin_replaceWith {key : String} {origin : Origin}
    (matched : matchesOrigin key source origin = true) : source.replaceWith ≠ none := by
  intro absent
  cases origin with
  | «local» => cases matched
  | registry url => rw [matchesOrigin, absent] at matched; cases matched
  | git url selector => rw [matchesOrigin, absent] at matched; cases matched

theorem locate_external {origin : Origin} {entry : String × Source} (external : origin ≠ .local)
    (only : matching config origin = [entry]) :
    locate config origin = follow config.source (config.source.entries.length + 1) entry.2 := by
  cases origin with
  | «local» => exact absurd rfl external
  | registry url => rw [locate, only, List.head?_cons]; exact fun impossible => nomatch impossible
  | git url selector =>
      rw [locate, only, List.head?_cons]
      exact fun impossible => nomatch impossible

theorem located_at_mount {graph : LockedGraph} {package : Package}
    (accepted : Accepted rules limits config) (bound : bind config graph true = .ok ())
    (member : package ∈ graph.packages) (external : package.origin ≠ .local) :
    ∃ entry, matching config package.origin = [entry] ∧
      ReplacedByDirectory config entry.2 vendorSandboxMount ∧
      locate config package.origin = .directory vendorSandboxMount := by
  obtain ⟨mounted, single⟩ := bind_ok_iff_bound.mp bound
  obtain ⟨entry, only⟩ := List.length_eq_one_iff.mp ((single package member).resolve_left external)
  have matched : entry ∈ matching config package.origin := only ▸ List.mem_cons_self
  obtain ⟨listed, matched⟩ := List.mem_filter.mp matched
  obtain ⟨_, absent⟩ | ⟨directory, plain, target, replacement, named, found, held, last⟩ :=
    validSource_cases (accepted.valid entry listed)
  · exact absurd absent (matchesOrigin_replaceWith matched)
  · have same := mounted rfl _ (OrderedMap.mem_of_lookup found) directory held
    rw [same] at held
    refine ⟨entry, only, ⟨plain, target, replacement, named, found, held, last⟩, ?_⟩
    have positive : 0 < config.source.entries.length := List.length_pos_of_mem listed
    obtain ⟨hops, count⟩ := Nat.exists_eq_add_of_lt positive
    rw [locate_external external only, count]
    simp only [follow, plain, named, found, held]

/-! ## The packages of a lock file -/

theorem readOrigin_local {display : String} {raw : RawPackage} {origin : Origin}
    (read : readOrigin rules display raw = .ok origin) (external : raw.source ≠ none) :
    origin ≠ .local := by
  rw [readOrigin] at read
  cases place : raw.source with
  | none => exact absurd place external
  | some text =>
      rw [place] at read
      dsimp only at read
      split at read
      · rw [registryOrigin, bind_ok_iff] at read
        obtain ⟨checksum, _, read⟩ := read
        rw [bind_unit_ok_iff] at read
        rw [← Except.ok.inj read.2]
        exact nofun
      · split at read
        · rw [gitOrigin, bind_ok_iff] at read
          obtain ⟨address, _, read⟩ := read
          rw [bind_unit_ok_iff, bind_ok_iff] at read
          obtain ⟨_, url, _, read⟩ := read
          rw [bind_unit_ok_iff] at read
          rw [← Except.ok.inj read.2]
          exact nofun
        · cases read

variable (rules) in
/-- The package has the identity and the place that the lock file gives it. -/
def Locked (display : String) (raw : RawPackage) (package : Package) : Prop :=
  package.name = raw.name ∧ package.version = raw.version ∧
    readOrigin rules display raw = .ok package.origin

variable {lockRules : LockRules} {cancelled : Nat → Bool}

theorem locked_of_lockedPackages {display : String} {poll : Nat}
    {identities : List (String × String × Option String)} {raws : List RawPackage}
    {packages : List Package}
    (read : lockedPackages lockRules display cancelled poll identities raws = .ok packages) :
    ∀ raw ∈ raws, ∃ package ∈ packages, Locked lockRules.urls display raw package := by
  induction raws generalizing poll identities packages with
  | nil => exact fun raw member => nomatch member
  | cons first rest ih =>
      rw [lockedPackages, bind_unit_ok_iff, bind_unit_ok_iff, bind_unit_ok_iff, bind_ok_iff] at read
      obtain ⟨_, _, _, origin, place, read⟩ := read
      rw [bind_ok_iff] at read
      obtain ⟨others, remaining, result⟩ := read
      obtain rfl := Except.ok.inj result
      intro raw member
      rcases List.mem_cons.mp member with rfl | later
      · exact ⟨_, List.mem_cons_self, rfl, rfl, place⟩
      · obtain ⟨package, listed, locked⟩ := ih remaining raw later
        exact ⟨package, List.mem_cons_of_mem _ listed, locked⟩

theorem read_locked {digest : List UInt8 → String} {project : LockedProject} {graph : LockedGraph}
    (read : LockedGraph.read lockRules digest project cancelled = .ok graph) :
    ∃ lock, (Utf8.fromUtf8 graph.bytes).bind lockRules.lock = some lock ∧
      ∀ raw ∈ lock.package, ∃ package ∈ graph.packages,
        Locked lockRules.urls project.display raw package := by
  rw [LockedGraph.read, bind_unit_ok_iff, bind_ok_iff] at read
  obtain ⟨_, limits, _, read⟩ := read
  rw [bind_ok_iff] at read
  obtain ⟨bytes, _, read⟩ := read
  rw [bind_ok_iff] at read
  obtain ⟨text, decoded, read⟩ := read
  rw [bind_ok_iff] at read
  obtain ⟨lock, parsed, read⟩ := read
  rw [bind_unit_ok_iff, bind_ok_iff] at read
  obtain ⟨_, packages, listed, read⟩ := read
  rw [bind_unit_ok_iff] at read
  obtain rfl := Except.ok.inj read.2
  refine ⟨lock, ?_, fun raw member => ?_⟩
  · rw [okOr_ok_iff.mp decoded, Option.bind_some, okOr_ok_iff.mp parsed]
  · obtain ⟨package, member, locked⟩ := locked_of_lockedPackages listed raw member
    exact ⟨package, List.mem_mergeSort.mpr member, locked⟩

/-! ## Another place for the directories -/

@[simp] theorem retargeted_replaceWith : (source.retargeted target).replaceWith = source.replaceWith :=
  rfl

@[simp] theorem retargeted_directory :
    (source.retargeted target).directory = source.directory.map fun _ => target := rfl

theorem mem_retargeted {entry : String × Source} :
    entry ∈ (config.retargeted target).source.entries ↔
      ∃ old ∈ config.source.entries, (old.1, old.2.retargeted target) = entry := List.mem_map

theorem get_retargeted (key : String) :
    (config.retargeted target).source.get key =
      (config.source.get key).map (·.retargeted target) := OrderedMap.lookup_map_values

theorem referenced_retargeted :
    referenced (config.retargeted target).source = referenced config.source := by
  rw [referenced, referenced, OrderedMap.values, OrderedMap.values, Config.retargeted,
    List.filterMap_map, List.filterMap_map, List.filterMap_map]
  rfl

theorem entries_retargeted : (config.retargeted target).source.entries =
    config.source.entries.map fun entry => (entry.1, entry.2.retargeted target) := rfl

theorem config_eq {first second : Config}
    (same : first.source.entries = second.source.entries) : first = second := by
  obtain ⟨⟨entries, _⟩⟩ := first
  obtain ⟨⟨_, _⟩⟩ := second
  cases same
  rfl

theorem retargeted_retargeted (first second : String) :
    (config.retargeted first).retargeted second = config.retargeted second := by
  refine config_eq ?_
  rw [entries_retargeted, entries_retargeted, entries_retargeted, List.map_map]
  refine List.map_congr_left fun entry _ => ?_
  rw [Function.comp_apply, Source.retargeted, Source.retargeted, Option.map_map]
  rfl

/-- What the check of a destination says about its text. -/
theorem destination_ok (accepted : destination target = .ok ()) :
    target ≠ "" ∧ target.utf8ByteSize ≤ 32 * 1024 ∧ hasControl target.toList = false := by
  rw [destination, bind_unit_ok_iff, ensure_ok_iff] at accepted
  simp only [Bool.and_eq_true, decide_eq_true_iff, Bool.not_eq_true'] at accepted
  obtain ⟨⟨⟨⟨⟨⟨absolute, _⟩, _⟩, _⟩, bounded⟩, plain⟩, _⟩ := accepted
  refine ⟨?_, bounded, plain⟩
  rintro rfl
  cases absolute

theorem validSource_retargeted {key : String} (placed : destination target = .ok ())
    (valid : validSource rules config.source key source = true) :
    validSource rules (config.retargeted target).source key (source.retargeted target) = true := by
  obtain ⟨nonempty, bounded, plain⟩ := destination_ok placed
  rw [validSource, Bool.and_eq_true, Bool.and_eq_true] at valid ⊢
  obtain ⟨⟨named, wellFormed⟩, shaped⟩ := valid
  refine ⟨⟨named, wellFormed⟩, ?_⟩
  rw [retargeted_directory]
  cases present : source.directory with
  | some directory =>
      rw [present] at shaped
      simp only [Source.isPlainDirectory, Bool.and_eq_true] at shaped
      simp only [Option.map_some, Source.isPlainDirectory, Bool.and_eq_true, decide_eq_true_iff,
        Bool.not_eq_true']
      exact ⟨⟨⟨⟨⟨⟨nonempty, bounded⟩, plain⟩, shaped.1.1.1.2⟩, shaped.1.1.2⟩, shaped.1.2⟩, shaped.2⟩
  | none =>
      rw [present] at shaped
      rw [Option.map_none]
      dsimp only at shaped ⊢
      rw [Source.isReplaced] at shaped ⊢
      rw [retargeted_replaceWith]
      cases named : source.replaceWith with
      | none => rw [named] at shaped; cases shaped
      | some other =>
          rw [named] at shaped
          dsimp only at shaped ⊢
          rw [Bool.and_eq_true] at shaped ⊢
          refine ⟨shaped.1, ?_⟩
          rw [get_retargeted, Option.any_map]
          have found := shaped.2
          cases held : config.source.get other with
          | none => rw [held] at found; cases found
          | some replacement =>
              rw [held] at found
              simp only [Option.any_some, retargeted_directory,
                Option.isSome_map, retargeted_replaceWith] at found ⊢
              exact found

theorem Accepted.retargeted (accepted : Accepted rules limits config)
    (placed : destination target = .ok ()) :
    Accepted rules limits (config.retargeted target) where
  nonempty := by
    rw [entries_retargeted, ne_eq, List.map_eq_nil_iff]
    exact accepted.nonempty
  bounded := by
    rw [entries_retargeted, List.length_map]
    exact accepted.bounded
  valid := by
    intro entry member
    obtain ⟨old, listed, rfl⟩ := mem_retargeted.mp member
    exact validSource_retargeted placed (accepted.valid old listed)
  used := by
    intro entry member present
    obtain ⟨old, listed, rfl⟩ := mem_retargeted.mp member
    rw [referenced_retargeted]
    refine accepted.used old listed fun absent => present ?_
    rw [retargeted_directory, absent, Option.map_none]

/-! ## Binding at another place -/

theorem matching_retargeted (origin : Origin) :
    matching (config.retargeted target) origin =
      (matching config origin).map fun entry => (entry.1, entry.2.retargeted target) := by
  rw [matching, matching, entries_retargeted, List.filter_map]
  refine congrArg _ (List.filter_congr fun entry _ => ?_)
  cases origin with
  | «local» => rfl
  | registry url => rfl
  | git url selector => rfl

theorem bind_retargeted (graph : LockedGraph) :
    bind (config.retargeted target) graph false = bind config graph false := by
  rw [bind, bind, Bool.false_and, Bool.false_and]
  simp only [matching_retargeted, List.length_map]

theorem bind_retargeted_published {graph : LockedGraph} (accepted : Accepted rules limits config) :
    bind (config.retargeted target) graph true = .ok () ↔
      target = vendorSandboxMount ∧ bind config graph false = .ok () := by
  rw [← @bind_retargeted config target, bind_ok_iff_bound, bind_ok_iff_bound]
  refine and_congr ⟨fun mounted => ?_, fun same _ => ?_⟩ ⟨fun single => ⟨nofun, single⟩, And.right⟩
  · obtain ⟨entry, member, present⟩ := accepted.exists_directory
    obtain ⟨directory, held⟩ := Option.ne_none_iff_exists'.mp present
    refine mounted rfl _ (mem_retargeted.mpr ⟨entry, member, rfl⟩) target ?_
    rw [retargeted_directory, held, Option.map_some]
  · intro entry member directory held
    obtain ⟨old, _, rfl⟩ := mem_retargeted.mp member
    rw [retargeted_directory, Option.map_eq_some_iff] at held
    obtain ⟨_, _, rfl⟩ := held
    exact same

/-! ## The closed graph -/

/-- What holds of the text that a configuration with another place for its directories is
written as. -/
structure WrittenFor (rules : UrlRules) (format : ConfigFormat) (limits : SourceLimits)
    (config : Config) (target : String) (output : List Char) : Prop where
  parses : parse rules format output limits = .ok (config.retargeted target)
  unchanged : (config.retargeted target).source.entries = config.source.entries.map fun entry =>
    (entry.1, { entry.2 with directory := entry.2.directory.map fun _ => target })
  placed : ∀ entry ∈ (config.retargeted target).source.entries, ∀ directory,
    entry.2.directory = some directory → directory = target
  idempotent : retarget rules format output target limits = .ok output
  binds : ∀ graph, bind (config.retargeted target) graph false = bind config graph false
  bindsPublished : ∀ graph, bind (config.retargeted target) graph true = .ok () ↔
    target = vendorSandboxMount ∧ bind config graph false = .ok ()

/-- A configuration that is accepted and bound for publication takes every locked package from
the directory at the mount, and another place for the directories changes nothing else. -/
theorem locked_graph_closed (lockRules : LockRules) (digest : List UInt8 → String)
    (format : ConfigFormat)
    (roundTrip : ∀ config text, format.toText config = some text →
      format.fromText text = some config) :
    (∀ project cancelled graph text limits config,
      LockedGraph.read lockRules digest project cancelled = .ok graph →
      parse lockRules.urls format text limits = .ok config → bind config graph true = .ok () →
      (∃ lock, (Utf8.fromUtf8 graph.bytes).bind lockRules.lock = some lock ∧
        ∀ raw ∈ lock.package, ∃ package ∈ graph.packages,
          Locked lockRules.urls project.display raw package ∧
            (raw.source ≠ none → package.origin ≠ .local)) ∧
      ∀ package ∈ graph.packages, locate config package.origin ≠ .network ∧
        (package.origin ≠ .local → ∃ entry, matching config package.origin = [entry] ∧
          ReplacedByDirectory config entry.2 vendorSandboxMount ∧
          locate config package.origin = .directory vendorSandboxMount)) ∧
    ∀ text target limits output,
      retarget lockRules.urls format text target limits = .ok output →
      Json.utf8Bytes output ≤ limits.maxMetadataBytes →
      ∃ config, parse lockRules.urls format text limits = .ok config ∧
        WrittenFor lockRules.urls format limits config target output := by
  constructor
  · intro project cancelled graph text limits config read parsed bound
    obtain ⟨_, _, accepted⟩ := parse_ok_iff.mp parsed
    obtain ⟨lock, lockEq, listed⟩ := read_locked read
    refine ⟨⟨lock, lockEq, fun raw member => ?_⟩, fun package member => ⟨?_, ?_⟩⟩
    · obtain ⟨package, held, locked⟩ := listed raw member
      exact ⟨package, held, locked, readOrigin_local locked.2.2⟩
    · by_cases external : package.origin = .local
      · rw [external]
        exact nofun
      · obtain ⟨entry, _, _, located⟩ := located_at_mount accepted bound member external
        rw [located]
        exact nofun
    · exact located_at_mount accepted bound member
  · intro text target limits output written small
    rw [retarget, bind_unit_ok_iff, bind_ok_iff] at written
    obtain ⟨placed, config, parsed, written⟩ := written
    have printed := okOr_ok_iff.mp written
    have accepted := (parse_ok_iff.mp parsed).2.2
    have parses : parse lockRules.urls format output limits = .ok (config.retargeted target) :=
      parse_ok_iff.mpr ⟨small, roundTrip _ _ printed, accepted.retargeted placed⟩
    refine ⟨config, parsed, parses, entries_retargeted, fun entry member directory held => ?_, ?_,
      bind_retargeted, fun graph => bind_retargeted_published accepted⟩
    · obtain ⟨old, _, rfl⟩ := mem_retargeted.mp member
      rw [retargeted_directory, Option.map_eq_some_iff] at held
      obtain ⟨_, _, same⟩ := held
      exact same.symm
    · rw [retarget, placed, ok_bind, parses, ok_bind, retargeted_retargeted, printed, okOr_some]

/-! ## A vendored registry -/

def vendoredSources : String := "vendored-sources"

/-- The default registry is replaced by a directory. -/
def vendoredConfig (directory : String) : Config := ⟨{
  entries := [(cratesIo, { replaceWith := some vendoredSources }),
    (vendoredSources, { directory := some directory })]
  ascending := by
    refine List.pairwise_cons.mpr ⟨fun entry member => ?_, List.pairwise_singleton _ _⟩
    obtain rfl := List.mem_singleton.mp member
    change cratesIo < vendoredSources
    decide }⟩

def vendoredText (directory : String) : List Char :=
  ("[source.crates-io]\nreplace-with = \"vendored-sources\"\n\n" ++
    "[source.vendored-sources]\ndirectory = \"" ++ directory ++ "\"\n").toList

def stagedDirectory : String := "/tmp/staged/vendored"

theorem vendoredText_ne : vendoredText stagedDirectory ≠ vendoredText vendorSandboxMount := by
  delta vendoredText stagedDirectory vendorSandboxMount
  simp only [String.toList_append]
  repeat rw [String.toList_ofList]
  decide

/-- The format at the two texts that are used here. -/
def vendoredFormat : ConfigFormat where
  fromText text :=
    if text = vendoredText vendorSandboxMount then some (vendoredConfig vendorSandboxMount)
    else if text = vendoredText stagedDirectory then some (vendoredConfig stagedDirectory)
    else none
  toText config :=
    if config.source.entries = (vendoredConfig vendorSandboxMount).source.entries then
      some (vendoredText vendorSandboxMount)
    else if config.source.entries = (vendoredConfig stagedDirectory).source.entries then
      some (vendoredText stagedDirectory)
    else none

theorem vendoredFormat_roundTrip (config : Config) (text : List Char)
    (printed : vendoredFormat.toText config = some text) :
    vendoredFormat.fromText text = some config := by
  rw [vendoredFormat] at printed ⊢
  dsimp only at printed ⊢
  split at printed
  · rename_i same
    obtain rfl := Option.some.inj printed
    rw [if_pos rfl, config_eq same]
  · split at printed
    · rename_i same
      obtain rfl := Option.some.inj printed
      rw [if_neg vendoredText_ne, if_pos rfl, config_eq same]
    · cases printed

def registryUrl : List Char := "https://github.com/rust-lang/crates.io-index".toList

/-- The parser for addresses at the address of the registry. -/
def registryUrls : UrlRules where
  Url := Unit
  parse text := if text = registryUrl then some () else none
  scheme _ := "https".toList
  username _ := []
  password _ := none
  fragment _ := none
  host _ := some "github.com".toList
  query _ := none
  queryPairs _ := []
  withoutQuery _ := registryUrl

def itoaLock : List Char :=
  ("version = 4\n\n[[package]]\nname = \"itoa\"\nversion = \"1.0.11\"\n" ++
    "source = \"registry+https://github.com/rust-lang/crates.io-index\"\n" ++
    "checksum = \"49f1f14873335454500d59611f1cf4a4b0f786f9ac11f4312a78e4cf2566695b\"\n").toList

/-- The readers at a lock file with one package of the registry. -/
def itoaRules : LockRules where
  urls := registryUrls
  lock text :=
    if text = itoaLock then
      some ⟨4, [⟨"itoa", "1.0.11", some "registry+https://github.com/rust-lang/crates.io-index",
        some "49f1f14873335454500d59611f1cf4a4b0f786f9ac11f4312a78e4cf2566695b"⟩]⟩
    else none
  isVersion version := version = "1.0.11"

def itoaLimits : SourceLimits := ⟨⟨10, 1000, 1000⟩, 10⟩

def itoaProject : LockedProject := ⟨"/p", .ok itoaLimits, fun _ => .ok (Json.utf8 itoaLock)⟩

def itoaDigest : List UInt8 → String := fun _ =>
  "sha256:6e11d757cd38bbb86f9720b7bc9abb073c39419d6fa5643d5651c91e4bb9fef4"

def itoaGraph : LockedGraph :=
  ⟨itoaLimits, "/p", [⟨"itoa", "1.0.11", .registry registryUrl⟩], itoaDigest [],
    Json.utf8 itoaLock⟩

theorem read_single {rules : LockRules} {digest : List UInt8 → String} {display hash : String}
    {limits : SourceLimits} {bytes : List UInt8} {text : List Char} {lock : Lock} {package : Package}
    (decoded : Utf8.fromUtf8 bytes = some text) (parsed : rules.lock text = some lock)
    (small : ((lock.version = 3 || lock.version = 4) &&
      lock.package.length ≤ limits.maxPackages) = true)
    (listed : lockedPackages rules display (fun _ => false) 1 [] lock.package = .ok [package])
    (distinct : (externalIdentities [package]).Nodup) (hashed : digest bytes = hash) :
    LockedGraph.read rules digest ⟨display, .ok limits, fun _ => .ok bytes⟩ (fun _ => false) =
      .ok ⟨limits, display, [package], hash, bytes⟩ := by
  simp only [LockedGraph.read, Bool.not_false, Except.mapError, ok_bind, decoded, parsed, okOr_some,
    small, listed, List.mergeSort_singleton, ensure_true, distinct, decide_true, hashed]
  rfl

theorem read_itoaGraph :
    LockedGraph.read itoaRules itoaDigest itoaProject (fun _ => false) = .ok itoaGraph := by
  have listed : lockedPackages itoaRules "/p" (fun _ => false) 1 []
      [⟨"itoa", "1.0.11", some "registry+https://github.com/rust-lang/crates.io-index",
        some "49f1f14873335454500d59611f1cf4a4b0f786f9ac11f4312a78e4cf2566695b"⟩] =
      .ok [⟨"itoa", "1.0.11", .registry registryUrl⟩] := by
    refine eq_ok_of_toOption ?_
    decide +kernel
  have parsed : itoaRules.lock itoaLock = some ⟨4, [⟨"itoa", "1.0.11",
      some "registry+https://github.com/rust-lang/crates.io-index",
      some "49f1f14873335454500d59611f1cf4a4b0f786f9ac11f4312a78e4cf2566695b"⟩]⟩ := by
    simp only [itoaRules, if_true]
  have digest (bytes : List UInt8) : itoaDigest bytes = itoaDigest [] := rfl
  rw [itoaProject, itoaGraph]
  exact read_single (Utf8.fromUtf8_eq_some_iff.mpr rfl) parsed rfl listed (List.nodup_singleton _)
    (digest _)

theorem vendoredText_small {directory : String}
    (given : directory ∈ [stagedDirectory, vendorSandboxMount]) :
    Json.utf8Bytes (vendoredText directory) ≤ itoaLimits.maxMetadataBytes := by
  revert directory
  delta vendoredText stagedDirectory vendorSandboxMount
  simp only [List.forall_mem_cons, String.toList_append]
  repeat rw [String.toList_ofList]
  decide

theorem accepted_vendored {directory : String}
    (given : directory ∈ [stagedDirectory, vendorSandboxMount]) :
    Accepted registryUrls itoaLimits (vendoredConfig directory) where
  nonempty := List.cons_ne_nil _ _
  bounded := by
    revert directory
    decide
  valid := by
    revert directory
    decide
  used := by
    revert directory
    decide

theorem parse_vendoredText :
    parse registryUrls vendoredFormat (vendoredText vendorSandboxMount) itoaLimits =
      .ok (vendoredConfig vendorSandboxMount) := by
  have read : vendoredFormat.fromText (vendoredText vendorSandboxMount) =
      some (vendoredConfig vendorSandboxMount) := by
    simp only [vendoredFormat, if_true]
  have given := List.mem_cons_of_mem stagedDirectory (List.mem_singleton_self vendorSandboxMount)
  exact parse_ok_iff.mpr ⟨vendoredText_small given, read, accepted_vendored given⟩

theorem parse_stagedText :
    parse registryUrls vendoredFormat (vendoredText stagedDirectory) itoaLimits =
      .ok (vendoredConfig stagedDirectory) := by
  have read : vendoredFormat.fromText (vendoredText stagedDirectory) =
      some (vendoredConfig stagedDirectory) := by
    simp only [vendoredFormat, if_neg vendoredText_ne, if_true]
  have given : stagedDirectory ∈ [stagedDirectory, vendorSandboxMount] := List.mem_cons_self
  exact parse_ok_iff.mpr ⟨vendoredText_small given, read, accepted_vendored given⟩

theorem retarget_vendoredText :
    retarget registryUrls vendoredFormat (vendoredText vendorSandboxMount) stagedDirectory
      itoaLimits = .ok (vendoredText stagedDirectory) := by
  have placed : destination stagedDirectory = .ok () := by
    refine eq_ok_of_isOk ?_
    decide
  have printed : vendoredFormat.toText ((vendoredConfig vendorSandboxMount).retargeted
      stagedDirectory) = some (vendoredText stagedDirectory) := by
    have entries : ((vendoredConfig vendorSandboxMount).retargeted
        stagedDirectory).source.entries = (vendoredConfig stagedDirectory).source.entries := rfl
    have apart : (vendoredConfig stagedDirectory).source.entries ≠
        (vendoredConfig vendorSandboxMount).source.entries := by decide
    simp only [vendoredFormat, entries, if_neg apart, if_true]
  rw [retarget, placed, ok_bind, parse_vendoredText, ok_bind, printed, okOr_some]

theorem bind_itoaGraph : bind (vendoredConfig vendorSandboxMount) itoaGraph true = .ok () := by
  refine eq_ok_of_isOk ?_
  decide

theorem locked_graph_closed_itoa :
    (∀ package ∈ itoaGraph.packages,
      locate (vendoredConfig vendorSandboxMount) package.origin ≠ .network) ∧
    ∃ config, parse registryUrls vendoredFormat (vendoredText vendorSandboxMount) itoaLimits =
        .ok config ∧
      WrittenFor registryUrls vendoredFormat itoaLimits config stagedDirectory
        (vendoredText stagedDirectory) := by
  obtain ⟨closed, written⟩ :=
    locked_graph_closed itoaRules itoaDigest vendoredFormat vendoredFormat_roundTrip
  refine ⟨fun package member => ?_, ?_⟩
  · exact ((closed itoaProject (fun _ => false) itoaGraph _ itoaLimits _ read_itoaGraph
      parse_vendoredText bind_itoaGraph).2 package member).1
  · exact written _ stagedDirectory itoaLimits _ retarget_vendoredText
      (vendoredText_small List.mem_cons_self)

/-- With the directories at another place the same graph is no longer bound for publication. -/
theorem other_place_is_not_published :
    retarget registryUrls vendoredFormat (vendoredText vendorSandboxMount) stagedDirectory
        itoaLimits = .ok (vendoredText stagedDirectory) ∧
      Json.utf8Bytes (vendoredText stagedDirectory) ≤ itoaLimits.maxMetadataBytes ∧
      parse registryUrls vendoredFormat (vendoredText vendorSandboxMount) itoaLimits =
        .ok (vendoredConfig vendorSandboxMount) ∧
      (parse registryUrls vendoredFormat (vendoredText stagedDirectory) itoaLimits).toOption.map
        (·.source.entries) = some (vendoredConfig stagedDirectory).source.entries ∧
      bind (vendoredConfig vendorSandboxMount) itoaGraph true = .ok () ∧
      bind (vendoredConfig stagedDirectory) itoaGraph true = .error (bindError "/p") := by
  refine ⟨retarget_vendoredText, vendoredText_small List.mem_cons_self, parse_vendoredText, ?_,
    bind_itoaGraph, ?_⟩
  · rw [parse_stagedText]
    rfl
  · rfl

end Kvist.Dependencies.Resolver
