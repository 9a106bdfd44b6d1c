import Mathlib.Data.String.Basic
import Kvist.FileSystem.Tree
import Kvist.Galla.Origin
import Kvist.OrderedMap
import Kvist.Utf8

/-!
# The vendored catalogue

The packages of a lock file are looked for in the directories of a registry by their names and
versions. The directories that belong to no locked package are reported as stale.
-/

set_option autoImplicit false

namespace Kvist.Dependencies

open Galla (isAsciiDigit rsplitOnce)

/-! ## Limits and errors -/

structure VendorLimits where
  maxPackages : Nat
  maxLockfileBytes : Nat
  maxMetadataBytes : Nat

inductive Error where
  | vendoringUnavailable (path reason : String)
  | io (operation path : String)
  deriving DecidableEq

def unavailable (path reason : String) : Error := .vendoringUnavailable path reason

/-- `Path::join` with a name. -/
def joined (front name : String) : String :=
  if front.toList = [] then name
  else if front.toList.getLast? = some '/' then front ++ name
  else front ++ "/" ++ name

def segment (value : String) : Bool :=
  value ≠ "" && value ≠ "." && value ≠ ".." && value.utf8ByteSize ≤ 255 &&
    !value.toList.any fun character =>
      Text.isControl character || character = '/' || character = '\\'

/-! ## The lock file -/

inductive LockSource where
  | registry
  | git
  | path
  deriving DecidableEq

def LockSource.needsDurableSource : LockSource → Bool
  | .registry | .git => true
  | .path => false

def LockSource.parse : Option String → LockSource
  | some value => if "git+".toList.isPrefixOf value.toList then .git else .registry
  | none => .path

structure LockPackage where
  name : String
  version : String
  source : LockSource
  deriving DecidableEq

structure RawLockPackage where
  name : String
  version : String
  source : Option String

def lockPackage (raw : RawLockPackage) : Except String LockPackage :=
  if !segment raw.name || !segment raw.version then
    .error "unsafe package identity in Cargo.lock"
  else .ok ⟨raw.name, raw.version, LockSource.parse raw.source⟩

/-- The tables of packages in a lock file, as the parser for the format gives them. -/
abbrev LockParser := List Char → Option (List RawLockPackage)

variable (parser : LockParser)

def parseLock (contents : List Char) (limits : VendorLimits) :
    Except String (List LockPackage) :=
  if limits.maxLockfileBytes < Json.utf8Bytes contents then
    .error "Cargo.lock exceeds size limit"
  else
    match parser contents with
    | none => .error "cannot parse Cargo.lock"
    | some packages =>
        if limits.maxPackages < packages.length then .error "Cargo.lock exceeds package limit"
        else packages.mapM lockPackage

/-- A project with its limits and the bytes of its lock file as they are read. -/
structure Project where
  root : String
  limits : Except Error VendorLimits
  lock : VendorLimits → Except Error (List UInt8)

def packages (root : String) (bytes : List UInt8) (limits : VendorLimits) :
    Except Error (List LockPackage) :=
  match Utf8.fromUtf8 bytes with
  | none => .error (unavailable root "Cargo.lock is not UTF-8")
  | some text => (parseLock parser text limits).mapError (.vendoringUnavailable root)

/-! ## Directories -/

inductive Item where
  | regular (bytes : List UInt8) (links : Nat)
  | link
  | other

def Item.read (path : String) (limit : Nat) : Item → Except Error (List UInt8)
  | .regular bytes links =>
      if links ≠ 1 ∨ limit < bytes.length then
        .error (unavailable path "expected bounded regular file with one link")
      else .ok bytes
  | .link => .error (.io "open non-link regular file" path)
  | .other => .error (unavailable path "expected bounded regular file with one link")

/-- The directory of a package with the manifests that are in it. -/
structure PackageDirectory where
  manifest : Option Item
  original : Option Item

inductive VendorEntry where
  | directory (package : PackageDirectory)
  | link
  | other

/-- The directory of a registry, and whether it has an entry whose name is not a text. -/
structure Vendor where
  display : String
  entries : OrderedMap String VendorEntry
  foreign : Bool

def Vendor.exists (vendor : Vendor) (name : String) : Except Error Bool :=
  if 255 < name.utf8ByteSize then
    .error (.io "inspect directory entry" (joined vendor.display name))
  else .ok (vendor.entries.get name).isSome

def Vendor.child (vendor : Vendor) (name : String) : Except Error PackageDirectory :=
  if !segment name then .error (unavailable vendor.display "unsafe directory name")
  else
    match vendor.entries.get name with
    | some (.directory package) => .ok package
    | _ => .error (.io "open non-link directory" (joined vendor.display name))

/-- The entries in the order of their names. -/
def Vendor.list (vendor : Vendor) (limit : Nat) : Except Error (List (String × VendorEntry)) :=
  if vendor.foreign then .error (unavailable vendor.display "non-UTF-8 tree entry")
  else if vendor.entries.keys.any (fun name => !segment name) ||
      limit < vendor.entries.keys.length then
    .error (unavailable vendor.display "unsafe or over-limit tree entries")
  else .ok vendor.entries.entries

/-! ## Packages in a registry -/

/-- The value of the first line that gives the key a text. -/
def field (key : String) (text : List Char) : Option String :=
  (Text.lines text).findSome? fun line =>
    (Text.stripLeading (key.toList ++ " = \"".toList) (Text.trimList line)).map fun value =>
      String.ofList (value.rdropWhile (· = '"'))

def packageFields (display : String) (limits : VendorLimits) (package : PackageDirectory) :
    Except Error (Option String × Option String) :=
  let chosen := match package.manifest with
    | some item => some ("Cargo.toml", item)
    | none => package.original.map fun item => ("Cargo.toml.orig", item)
  match chosen with
  | none => .ok (none, none)
  | some (name, item) => do
      let bytes ← item.read (joined display name) limits.maxMetadataBytes
      match Utf8.fromUtf8 bytes with
      | none => .error (unavailable display "package manifest is not UTF-8")
      | some text => .ok (field "name" text, field "version" text)

def Vendor.fields (vendor : Vendor) (limits : VendorLimits) (name : String)
    (package : PackageDirectory) : Except Error (Option String × Option String) :=
  packageFields (joined vendor.display name) limits package

def LockPackage.numbered (package : LockPackage) : String :=
  package.name ++ "-" ++ package.version

/-- Whether the directory of the package's name has a manifest of its version. -/
def flatPresent (vendor : Vendor) (package : LockPackage) (limits : VendorLimits) :
    Except Error Bool := do
  if ← vendor.exists package.name then
    let flat ← vendor.child package.name
    let fields ← vendor.fields limits package.name flat
    return fields.2 = some package.version
  else return false

def numberedPresent (vendor : Vendor) (package : LockPackage) : Except Error Bool := do
  if ← vendor.exists package.numbered then
    let _ ← vendor.child package.numbered
    return true
  else return false

def durableSourcePresent (vendor : Option Vendor) (package : LockPackage)
    (limits : VendorLimits) : Except Error Bool :=
  match vendor with
  | none => .ok false
  | some vendor => do
      if ← flatPresent vendor package limits then return true
      else numberedPresent vendor package

/-! ## The report -/

structure VendoringReport where
  projectRoot : String
  lockfilePath : String
  lockfileDigest : String
  vendoredDir : String
  registryDependencies : Nat
  gitDependencies : Nat
  pathDependencies : Nat
  missingDependencies : List String

/-- What stands at the place of a registry. -/
inductive Registry where
  | absent
  | unreadable (error : Error)
  | directory (vendor : Vendor)

structure VendoredDir where
  path : String
  registry : Registry

/-- `Path::parent` gives something. -/
def hasParent (path : String) : Bool :=
  let components := FileSystem.components path.toList
  components ≠ [] && components ≠ [.rootDir]

def missingDependencies (vendor : Option Vendor) (limits : VendorLimits) :
    List LockPackage → Except Error (List String)
  | [] => .ok []
  | package :: rest => do
      let present ←
        if package.source.needsDurableSource then durableSourcePresent vendor package limits
        else .ok true
      let missing ← missingDependencies vendor limits rest
      return if present then missing else package.numbered :: missing

def Registry.open (registry : Registry) : Except Error (Option Vendor) :=
  match registry with
  | .absent => .ok none
  | .unreadable error => .error error
  | .directory vendor => .ok (some vendor)

variable (sha256Hex : List UInt8 → String)

def enforceOfflineReadiness (project : Project) (vendored : VendoredDir) :
    Except Error VendoringReport := do
  let limits ← project.limits
  let contents ← project.lock limits
  let packages ← packages parser project.root contents limits
  if !hasParent vendored.path then throw (unavailable vendored.path "registry has no parent")
  let vendor ← vendored.registry.open
  let missing ← missingDependencies vendor limits packages
  return {
    projectRoot := project.root
    lockfilePath := joined project.root "Cargo.lock"
    lockfileDigest := "sha256:" ++ sha256Hex contents
    vendoredDir := vendored.path
    registryDependencies := packages.countP (·.source = .registry)
    gitDependencies := packages.countP (·.source = .git)
    pathDependencies := packages.countP (·.source = .path)
    missingDependencies := missing }

/-! ## Stale packages -/

def startsWithDigit (text : List Char) : Bool := text.head?.any isAsciiDigit

/-- The name of a directory up to its last dash and the version behind it. -/
def fallback (name : String) : Option (String × String) :=
  ((rsplitOnce '-' name.toList).filter fun parts => startsWithDigit parts.2).map fun parts =>
    (String.ofList parts.1, String.ofList parts.2)

def isStale (expected : List (String × String)) (name : String)
    (fields : Option String × Option String) : Bool :=
  match fields.2 with
  | some version =>
      !expected.contains (fields.1.getD (((fallback name).map (·.1)).getD name), version)
  | none =>
      match fallback name with
      | some package => !expected.contains package
      | none => false

def expectedPackages (packages : List LockPackage) : List (String × String) :=
  (packages.filter (·.source.needsDurableSource)).map fun package =>
    (package.name, package.version)

def staleEntries (vendored : String) (vendor : Vendor) (limits : VendorLimits)
    (expected : List (String × String)) : List (String × VendorEntry) → Except Error (List String)
  | [] => .ok []
  | (name, .directory package) :: rest => do
      let fields ← vendor.fields limits name package
      let stale ← staleEntries vendored vendor limits expected rest
      return if isStale expected name fields then name :: stale else stale
  | (_, .link) :: _ => .error (unavailable vendored "catalogue contains link")
  | (_, .other) :: rest => staleEntries vendored vendor limits expected rest

def findStaleVendoredPackages (project : Project) (vendored : VendoredDir) :
    Except Error (List String) := do
  let limits ← project.limits
  let contents ← project.lock limits
  let packages ← packages parser project.root contents limits
  let vendor ← match ← vendored.registry.open with
    | none => throw (.io "open non-link directory" vendored.path)
    | some vendor => .ok vendor
  let entries ← vendor.list limits.maxPackages
  staleEntries vendored.path vendor limits (expectedPackages packages) entries

/-- The registry without the directories of these names. -/
def VendoredDir.remove (vendored : VendoredDir) (stale : List String) : VendoredDir :=
  { vendored with registry := match vendored.registry with
      | .directory vendor => .directory { vendor with
          entries := vendor.entries.retain fun name _ => !stale.contains name }
      | other => other }

end Kvist.Dependencies
