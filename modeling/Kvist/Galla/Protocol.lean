import Mathlib.Data.List.Nodup

/-!
# The sandbox request

The request that a client sends to the runner, as far as its validation reads it. Texts are lists
of characters, and an environment has each of its names once.
-/

set_option autoImplicit false

namespace Kvist.Galla

inductive Phase where
  | authoring
  | verification
  | dependencyAcquisition
  deriving DecidableEq, Repr

inductive Access where
  | readOnly
  | readWrite
  deriving DecidableEq, Repr

inductive Purpose where
  | context
  | authoring
  | verification
  | toolchain
  | scratch
  | dependencyCache
  | lockfile
  | registry
  | cargoConfig
  | runtime
  deriving DecidableEq, Repr

inductive NetworkMode where
  | deny
  | packageSources
  deriving DecidableEq, Repr

inductive AllowedSource where
  | cargoRegistry (name indexOrigin downloadOrigin identity : List Char)
  | cargoGit (repository revision identity : List Char)
  deriving DecidableEq, Repr

structure Network where
  mode : NetworkMode
  allowedSources : List AllowedSource
  deriving DecidableEq, Repr

structure Resources where
  wallTimeMs : Nat
  maxOutputBytes : Nat
  maxProcesses : Nat
  maxFiles : Nat
  maxFileBytes : Nat
  maxScratchBytes : Nat
  maxCacheBytes : Option Nat
  deriving DecidableEq, Repr

structure BackendIdentity where
  path : List Char
  digest : List Char
  deriving DecidableEq, Repr

structure Identities where
  runner : List Char
  backend : BackendIdentity
  policy : List Char
  toolchain : List Char
  command : List Char
  mountPlan : List Char
  deriving DecidableEq, Repr

structure Grant where
  source : List Char
  destination : List Char
  access : Access
  purpose : Purpose
  identity : List Char
  deriving DecidableEq, Repr

inductive Toolchain where
  | system (identity root : List Char)
  | cargo (identity root cargo : List Char)
  deriving DecidableEq, Repr

structure CacheEndpoint where
  destination : List Char
  identity : List Char
  deriving DecidableEq, Repr

structure LockfileWorkspace where
  destination : List Char
  beforeIdentity : List Char
  deriving DecidableEq, Repr

structure CachePromotion where
  enabled : Bool
  source : List Char
  deriving DecidableEq, Repr

structure Cache where
  cargoHome : List Char
  registry : List Char
  git : List Char
  writable : Option CacheEndpoint
  approved : Option CacheEndpoint
  lockfile : Option LockfileWorkspace
  promotion : Option CachePromotion
  deriving DecidableEq, Repr

structure Scratch where
  destination : List Char
  identity : List Char
  deriving DecidableEq, Repr

structure Environment where
  entries : List (List Char × List Char)
  distinct : (entries.map Prod.fst).Nodup

namespace Environment

def get (environment : Environment) (name : List Char) : Option (List Char) :=
  (environment.entries.find? (·.1 == name)).map Prod.snd

theorem find_entry_iff {entries : List (List Char × List Char)}
    (distinct : (entries.map Prod.fst).Nodup) {name value : List Char} :
    (entries.find? (·.1 == name)).map Prod.snd = some value ↔ (name, value) ∈ entries := by
  induction entries with
  | nil => simp
  | cons entry rest ih =>
      rw [List.map_cons, List.nodup_cons] at distinct
      rw [List.find?_cons]
      by_cases same : entry.1 = name
      · have found : (entry.1 == name) = true := beq_iff_eq.mpr same
        rw [found]
        constructor
        · intro here
          rw [← same, ← Option.some.inj here]
          exact List.mem_cons_self
        · intro member
          rcases List.mem_cons.mp member with rfl | later
          · rfl
          · exact absurd (same ▸ List.mem_map_of_mem later) distinct.1
      · have other : (entry.1 == name) = false := beq_eq_false_iff_ne.mpr same
        rw [other]
        refine (ih distinct.2).trans ⟨fun member => List.mem_cons_of_mem _ member, ?_⟩
        intro member
        rcases List.mem_cons.mp member with rfl | later
        · exact absurd rfl same
        · exact later

theorem get_eq_some_iff {environment : Environment} {name value : List Char} :
    environment.get name = some value ↔ (name, value) ∈ environment.entries :=
  find_entry_iff environment.distinct

end Environment

structure SandboxRequest where
  protocol : List Char
  protocolVersion : Nat
  phase : Phase
  argv : List (List Char)
  workingDirectory : List Char
  environment : Environment
  network : Network
  resources : Resources
  identities : Identities
  grants : List Grant
  toolchain : Toolchain
  cache : Option Cache
  scratch : Option Scratch

end Kvist.Galla
