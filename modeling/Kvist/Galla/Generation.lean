import Kvist.Galla.Validation

/-!
# Immutable cache generations

A cache home is walked into its sorted entries, which are compared with the manifest and hashed
into the identity of a generation. A generation is published under its identity, or an existing
one of that name is verified again and reused.

The file system is what the walks see of it: a tree for each walk, with the entries of a directory
in the order of their names. The answers of its other operations are given too.
-/

set_option autoImplicit false

namespace Kvist.Galla.Generation

open Text

def maxManifestEntries : Nat := 4096
def maxDirectoryEntries : Nat := 4096
def maxDirectoryDepth : Nat := 64
def maxPathBytes : Nat := 4096

inductive CacheError where
  | rootsOverlap
  | zeroBound (name : String)
  | boundExceeds (name : String) (maximum : Nat)
  | manifestPath (path : List Char)
  | manifestDuplicate (path : List Char)
  | digest (detail : String)
  | sourceSymlink (path : List Char)
  | sourceHardLink (path : List Char) (links : Nat)
  | sourceNonRegular (path : List Char)
  | sourceReplaced (path : List Char)
  | directoryCount (limit : Nat)
  | directoryDepth (limit : Nat)
  | fileCount (limit : Nat)
  | fileSize (path : List Char) (limit : Nat)
  | aggregateSize (limit : Nat)
  | unlistedFile (path : List Char)
  | missingFile (path : List Char)
  | sizeMismatch (path : List Char)
  | checksumMismatch (path : List Char)
  | stagedChecksumMismatch (path : List Char)
  | generationCollision (name : List Char)
  | generationMismatch (name : List Char)
  | cleanup
  | io (operation : String)
  deriving DecidableEq, Repr

structure ManifestEntry where
  path : List Char
  size : Nat
  checksum : List Char
  deriving DecidableEq, Repr

structure CacheBounds where
  maxFiles : Nat
  maxFileBytes : Nat
  maxCacheBytes : Nat
  deriving DecidableEq, Repr

inductive EntryKind where
  | directory
  | file (size : Nat) (checksum : List Char) (executable : Bool)
  deriving DecidableEq, Repr

/-- An entry that a walk finds, with its path relative to the root. -/
structure SourceEntry where
  path : List Char
  kind : EntryKind
  deriving DecidableEq, Repr

/-- The hexadecimal text of a hash. -/
structure Digest where
  digits : List Char
  shape : Json.utf8Bytes digits = 64 ∧ digits.all isLowerHexdigit = true

mutual
/-- What a walk sees under one name. -/
inductive Node where
  /-- A directory; a foreign one holds a name that is no text. -/
  | directory (foreign : Bool) (children : Children)
  | file (bytes : List UInt8) (executable : Bool) (links : Nat)
  | symlink
  | special
  /-- What could not be read, or was replaced while it was read. -/
  | failing (error : CacheError)

/-- The names of a directory. -/
inductive Children where
  | nil
  | cons (name : List Char) (node : Node) (rest : Children)
end

namespace Children

def names : Children → List (List Char)
  | .nil => []
  | .cons name _ rest => name :: rest.names

/-- The node that the names lead to. -/
inductive Holds : Children → List (List Char) → Node → Prop where
  | here {name : List Char} {node : Node} {rest : Children} :
      Holds (.cons name node rest) [name] node
  | inside {name : List Char} {foreign : Bool} {children rest : Children}
      {components : List (List Char)} {node : Node} :
      Holds children components node →
        Holds (.cons name (.directory foreign children) rest) (name :: components) node
  | later {name : List Char} {other node : Node} {rest : Children}
      {components : List (List Char)} :
      Holds rest components node → Holds (.cons name other rest) components node

end Children

mutual
/-- The names in each directory are distinct, not empty and without a slash. -/
def Node.Named : Node → Prop
  | .directory _ children => children.Named
  | .file _ _ _ | .symlink | .special | .failing _ => True

def Children.Named : Children → Prop
  | .nil => True
  | .cons name node rest =>
      (name ≠ [] ∧ '/' ∉ name) ∧ name ∉ rest.names ∧ node.Named ∧ rest.Named
end

def joinRelative (parent name : List Char) : List Char :=
  if parent.isEmpty then name else parent ++ '/' :: name

/-- A root directory. The lengths of paths and files fit a machine word. -/
structure Tree where
  foreign : Bool
  children : Children
  named : children.Named
  pathsFit : ∀ components node, children.Holds components node →
    Json.utf8Bytes (components.foldl joinRelative []) < 18446744073709551616
  sizesFit : ∀ components bytes executable links,
    children.Holds components (.file bytes executable links) →
      bytes.length < 18446744073709551616

def textAtMost : List Char → List Char → Bool
  | [], _ => true
  | _ :: _, [] => false
  | left :: lefts, right :: rights =>
      Nat.blt left.toNat right.toNat || left == right && textAtMost lefts rights

def safeMode : EntryKind → Nat
  | .directory => 0o555
  | .file _ _ true => 0o555
  | .file _ _ false => 0o444

def validateDigest (value : List Char) : Except CacheError Unit :=
  match stripLeading "sha256:".toList value with
  | none => .error (.digest "must have a sha256: prefix")
  | some hex =>
      ensure (Json.utf8Bytes hex == 64 && hex.all isLowerHexdigit)
        (.digest "must contain 64 lower-case hexadecimal digits")

def safeRelative (path : List Char) : Bool :=
  !path.isEmpty && path.head? != some '/' && !path.contains '\x00' &&
    (path.splitOn '/').all fun part => !part.isEmpty && part != ['.'] && part != ['.', '.']

/-- Sums over the limit are refused, also those that the source's sum would overflow at. -/
def validateManifestEntries : List (List Char) → Nat → List ManifestEntry →
    Except CacheError Unit
  | _, _, [] => .ok ()
  | paths, total, entry :: rest => do
      ensure (Json.utf8Bytes entry.path ≤ maxPathBytes) (.manifestPath entry.path)
      ensure (safeRelative entry.path) (.manifestPath entry.path)
      validateDigest entry.checksum
      ensure (!paths.contains entry.path) (.manifestDuplicate entry.path)
      ensure (!(maxFileBytes < entry.size || maxCacheBytes < total + entry.size))
        (.aggregateSize maxCacheBytes)
      validateManifestEntries (entry.path :: paths) (total + entry.size) rest

def validateManifest (manifest : List ManifestEntry) : Except CacheError Unit := do
  ensure (manifest.length ≤ maxManifestEntries) (.fileCount maxManifestEntries)
  validateManifestEntries [] 0 manifest

def validateDeclaredSizes (bounds : CacheBounds) : Nat → List ManifestEntry →
    Except CacheError Unit
  | _, [] => .ok ()
  | total, entry :: rest => do
      ensure (entry.size ≤ bounds.maxFileBytes) (.fileSize entry.path bounds.maxFileBytes)
      ensure (total + entry.size ≤ bounds.maxCacheBytes) (.aggregateSize bounds.maxCacheBytes)
      validateDeclaredSizes bounds (total + entry.size) rest

def validateBound (name : String) (value maximum : Nat) : Except CacheError Unit := do
  ensure (value != 0) (.zeroBound name)
  ensure (value ≤ maximum) (.boundExceeds name maximum)

def validateSourceIdentities : List (List Char) → List (List Char) → Except CacheError Unit
  | _, [] => .ok ()
  | seen, identity :: rest => do
      validateDigest identity
      ensure (!seen.contains identity) (.digest "must not repeat a supported source identity")
      validateSourceIdentities (identity :: seen) rest

structure PromotionPlan where
  attemptRoot : List Char
  generationParent : List Char
  manifest : List ManifestEntry
  bounds : CacheBounds
  lockfileBeforeIdentity : List Char
  lockfileAfterIdentity : List Char
  supportedSourceIdentities : List (List Char)
  deriving DecidableEq, Repr

def pathsOverlap (left right : List Char) : Bool :=
  (Paths.split left).isPrefixOf (Paths.split right) ||
    (Paths.split right).isPrefixOf (Paths.split left)

def validatePlan (plan : PromotionPlan) : Except CacheError Unit := do
  ensure (!pathsOverlap plan.attemptRoot plan.generationParent) .rootsOverlap
  validateBound "max_files" plan.bounds.maxFiles maxManifestEntries
  validateBound "max_file_bytes" plan.bounds.maxFileBytes maxFileBytes
  validateBound "max_cache_bytes" plan.bounds.maxCacheBytes maxCacheBytes
  validateManifest plan.manifest
  validateDeclaredSizes plan.bounds 0 plan.manifest
  validateDigest plan.lockfileBeforeIdentity
  validateDigest plan.lockfileAfterIdentity
  ensure (!plan.supportedSourceIdentities.isEmpty)
    (.digest "must bind at least one supported source identity")
  validateSourceIdentities [] plan.supportedSourceIdentities

section Walk

variable (sha256 : List UInt8 → Digest)

def digestText (bytes : List UInt8) : List Char := "sha256:".toList ++ (sha256 bytes).digits

structure CollectionState where
  entries : List SourceEntry
  files : Nat
  directories : Nat
  total : Nat
  deriving Repr

mutual
/-- A walk, depth first and in the order of the names. -/
def collectNode (bounds : CacheBounds) (path : List Char) (depth : Nat)
    (state : CollectionState) : Node → Except CacheError CollectionState
  | .symlink => .error (.sourceSymlink path)
  | .special => .error (.sourceNonRegular path)
  | .failing error => .error error
  | .directory foreign children => do
      ensure (state.directories + 1 ≤ maxDirectoryEntries) (.directoryCount maxDirectoryEntries)
      ensure (depth + 1 ≤ maxDirectoryDepth) (.directoryDepth maxDirectoryDepth)
      ensure (!foreign) (.manifestPath (path ++ "<non-utf8>".toList))
      collectChildren bounds path (depth + 1)
        { state with
          directories := state.directories + 1
          entries := state.entries ++ [⟨path, .directory⟩] } children
  | .file bytes executable links => do
      ensure (links == 1) (.sourceHardLink path links)
      ensure (state.files + 1 ≤ bounds.maxFiles) (.fileCount bounds.maxFiles)
      ensure (bytes.length ≤ bounds.maxFileBytes) (.fileSize path bounds.maxFileBytes)
      ensure (state.total + bytes.length ≤ bounds.maxCacheBytes)
        (.aggregateSize bounds.maxCacheBytes)
      return { state with
        files := state.files + 1
        total := state.total + bytes.length
        entries := state.entries ++
          [⟨path, .file bytes.length (digestText sha256 bytes) executable⟩] }

def collectChildren (bounds : CacheBounds) (parent : List Char) (depth : Nat)
    (state : CollectionState) : Children → Except CacheError CollectionState
  | .nil => .ok state
  | .cons name node rest => do
      let state ← collectNode bounds (joinRelative parent name) depth state node
      collectChildren bounds parent depth state rest
end

/-- All entries below the root, sorted by their paths. -/
def collectSource (root : Tree) (bounds : CacheBounds) : Except CacheError (List SourceEntry) := do
  ensure (!root.foreign) (.manifestPath "<non-utf8>".toList)
  let state ← collectChildren sha256 bounds [] 0 ⟨[], 0, 0, 0⟩ root.children
  return state.entries.mergeSort fun left right => textAtMost left.path right.path

end Walk

def collectedFiles (entries : List SourceEntry) : List ManifestEntry :=
  entries.filterMap fun entry =>
    match entry.kind with
    | .directory => none
    | .file size checksum _ => some ⟨entry.path, size, checksum⟩

def reconcileDeclared (collected : List ManifestEntry) (declared : ManifestEntry) :
    Except CacheError Unit :=
  match collected.reverse.find? (·.path == declared.path) with
  | none => .error (.missingFile declared.path)
  | some found => do
      ensure (found.size == declared.size) (.sizeMismatch declared.path)
      ensure (found.checksum == declared.checksum) (.checksumMismatch declared.path)

def reconcileManifest (entries : List SourceEntry) (manifest : List ManifestEntry) :
    Except CacheError Unit := do
  let collected := collectedFiles entries
  checkAll (reconcileDeclared collected) manifest
  checkAll (fun found : ManifestEntry =>
    ensure ((manifest.map (·.path)).contains found.path) (.unlistedFile found.path)) collected

section Identity

variable (sha256 : List UInt8 → Digest)

def modeText (kind : EntryKind) : List UInt8 := Json.utf8 (Nat.toDigits 8 (safeMode kind))

def entryFields (entry : SourceEntry) : List (List UInt8) :=
  match entry.kind with
  | .directory => [Json.utf8 entry.path, Json.utf8 "dir".toList, modeText entry.kind]
  | .file size checksum _ =>
      [Json.utf8 entry.path, Json.utf8 "file".toList, modeText entry.kind,
        Json.utf8 (toString size).toList, Json.utf8 checksum]

/-- The fields that the identity is computed from, in their order. -/
def treeFields (entries : List SourceEntry) (sources : List (List Char))
    (lockfileBefore lockfileAfter : List Char) : List (List UInt8) :=
  let sorted := sources.mergeSort textAtMost
  entries.flatMap entryFields ++ Json.utf8 "sources".toList :: (sorted.map Json.utf8 ++
    [Json.utf8 "lockfile-before".toList, Json.utf8 lockfileBefore,
      Json.utf8 "lockfile-after".toList, Json.utf8 lockfileAfter])

/-- The bytes that are hashed. -/
def treePreimage (entries : List SourceEntry) (sources : List (List Char))
    (lockfileBefore lockfileAfter : List Char) : List UInt8 :=
  Json.utf8 "kvist/cargo-home-generation/v2\x00".toList ++
    (treeFields entries sources lockfileBefore lockfileAfter).flatMap identityField

def treeIdentity (entries : List SourceEntry) (sources : List (List Char))
    (lockfileBefore lockfileAfter : List Char) : List Char :=
  digestText sha256 (treePreimage entries sources lockfileBefore lockfileAfter)

inductive Durability where
  | synced
  | parentSyncUnknown
  deriving DecidableEq, Repr

structure PublishedGeneration where
  path : List Char
  identity : List Char
  durability : Durability
  reused : Bool
  deriving DecidableEq, Repr

/-- What is found under the name of a generation. -/
inductive Existing where
  | absent
  | present (tree : Tree)
  | noDirectory
  | failed

inductive Rename where
  | done
  | exists
  | failed
  deriving DecidableEq, Repr

/-- What one promotion sees of the file system, in the order in which it looks. -/
structure FileSystem where
  source : Tree
  staging : Except CacheError Unit
  copied : Except CacheError Unit
  finalSource : Tree
  staged : Tree
  existing : Existing
  immutable : Except CacheError Unit
  rename : Rename
  winner : Existing
  parentSynced : Bool
  removed : Bool

def generationName (identity : List Char) : List Char :=
  "generation-".toList ++ (stripLeading "sha256:".toList identity).getD identity

def generationPath (plan : PromotionPlan) (name : List Char) : List Char :=
  plan.generationParent ++ '/' :: name

def existingGeneration (existing : Existing) (name : List Char) :
    Except CacheError (Option Tree) :=
  match existing with
  | .absent => .ok none
  | .present tree => .ok (some tree)
  | .noDirectory => .error (.generationMismatch name)
  | .failed => .error (.io "inspect existing generation")

def reuseOrCollision (plan : PromotionPlan) (existing : Tree) (name identity : List Char) :
    Except CacheError (PublishedGeneration × Bool) := do
  let entries ← collectSource sha256 existing plan.bounds
  let found := treeIdentity sha256 entries plan.supportedSourceIdentities
    plan.lockfileBeforeIdentity plan.lockfileAfterIdentity
  ensure (found == identity) (.generationCollision name)
  return (⟨generationPath plan name, found, .synced, true⟩, false)

def publish (plan : PromotionPlan) (files : FileSystem) (name identity : List Char) :
    Except CacheError (PublishedGeneration × Bool) := do
  files.immutable
  match files.rename with
  | .done =>
      let durability := if files.parentSynced then .synced else .parentSyncUnknown
      return (⟨generationPath plan name, identity, durability, false⟩, true)
  | .exists => do
      match ← existingGeneration files.winner name with
      | none => .error (.generationCollision name)
      | some existing => reuseOrCollision sha256 plan existing name identity
  | .failed => .error (.io "publish immutable generation")

def buildAndPublish (plan : PromotionPlan) (files : FileSystem) (snapshot : List SourceEntry) :
    Except CacheError (PublishedGeneration × Bool) := do
  files.copied
  let finalSource ← collectSource sha256 files.finalSource plan.bounds
  ensure (finalSource == snapshot) (.sourceReplaced "attempt root".toList)
  let staged ← collectSource sha256 files.staged plan.bounds
  ensure (staged == snapshot) (.stagedChecksumMismatch "staging".toList)
  let identity := treeIdentity sha256 snapshot plan.supportedSourceIdentities
    plan.lockfileBeforeIdentity plan.lockfileAfterIdentity
  let name := generationName identity
  match ← existingGeneration files.existing name with
  | some existing => reuseOrCollision sha256 plan existing name identity
  | none => publish sha256 plan files name identity

/-- The staging directory is removed unless it was renamed. -/
def promote (plan : PromotionPlan) (files : FileSystem) :
    Except CacheError PublishedGeneration := do
  validatePlan plan
  let snapshot ← collectSource sha256 files.source plan.bounds
  reconcileManifest snapshot plan.manifest
  files.staging
  match buildAndPublish sha256 plan files snapshot with
  | .ok (generation, true) => .ok generation
  | .ok (generation, false) =>
      if files.removed then .ok generation else .error .cleanup
  | .error error => .error (if files.removed then error else .cleanup)

end Identity

end Kvist.Galla.Generation
