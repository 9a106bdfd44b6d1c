import Kvist.Galla.Cargo
import Kvist.Galla.SourceProperties
import Mathlib.Data.List.Pairwise

/-!
# What accepted grants guarantee

An accepted destination is a canonical absolute path, and containment of destinations is
containment of their components. No accepted destination is inside another one.
-/

set_option autoImplicit false

namespace Kvist.Galla

open Text Paths

/-- An absolute path below the root, without empty or relative components. -/
def AbsolutePath (path : List Char) : Prop :=
  ∃ components, Proper components ∧ components ≠ [] ∧ path = render components ∧
    ∀ component ∈ components, component ≠ ['.'] ∧ component ≠ ['.', '.']

theorem validateAbsolute_ok {value : List Char} {label : String}
    (accepted : validateAbsolute value label = .ok ()) : AbsolutePath value := by
  simp only [validateAbsolute, bind_unit_ok_iff, ensure_ok_iff, Bool.and_eq_true, beq_iff_eq,
    List.all_eq_true, Bool.not_eq_true', Bool.or_eq_false_iff, beq_eq_false_iff_ne,
    List.isEmpty_eq_false_iff] at accepted
  obtain ⟨-, ⟨absolute, -⟩, -, canonical⟩ := accepted
  obtain ⟨rest, rfl⟩ : ∃ rest, value = '/' :: rest := by
    cases value with
    | nil => cases absolute
    | cons first rest => exact ⟨rest, by rw [Option.some.inj absolute]⟩
  have clear := clear_splitOn rest
  have parts : ('/' :: rest).splitOn '/' = [] :: rest.splitOn '/' := by
    rw [← render_splitOn, splitOn_render clear]
  rw [parts, List.drop_one, List.tail_cons] at canonical
  refine ⟨rest.splitOn '/', ?_, List.splitOn_ne_nil _ _, (render_splitOn rest).symm, ?_⟩
  · intro component member
    exact ⟨(canonical component member).1.1, clear component member⟩
  · intro component member
    exact ⟨(canonical component member).1.2, (canonical component member).2⟩

namespace AbsolutePath

variable {path : List Char}

theorem render_split (absolute : AbsolutePath path) : render (split path) = path := by
  obtain ⟨components, proper, -, rfl, -⟩ := absolute
  rw [split_render proper]

theorem split_ne_nil (absolute : AbsolutePath path) : split path ≠ [] := by
  obtain ⟨components, proper, nonempty, rfl, -⟩ := absolute
  rwa [split_render proper]

theorem named (absolute : AbsolutePath path) :
    ∀ component ∈ split path, component ≠ ['.'] ∧ component ≠ ['.', '.'] := by
  obtain ⟨components, proper, -, rfl, canonical⟩ := absolute
  rwa [split_render proper]

theorem ne_root (absolute : AbsolutePath path) : path ≠ ['/'] := by
  intro root
  have nonempty := absolute.split_ne_nil
  rw [root] at nonempty
  exact nonempty (by decide)

end AbsolutePath

theorem pathContains_cases {ancestor descendant : List Char} (absolute : AbsolutePath ancestor) :
    pathContains ancestor descendant = true ↔
      ancestor = descendant ∨ ∃ rest, descendant = ancestor ++ '/' :: rest := by
  simp only [pathContains, Bool.or_eq_true, beq_iff_eq, absolute.ne_root, or_false,
    Option.any_eq_true, stripLeading_eq_some_iff]
  apply or_congr_right
  constructor
  · rintro ⟨suffix, whole, slash⟩
    cases suffix with
    | nil => cases slash
    | cons first rest =>
        obtain rfl := Option.some.inj slash
        exact ⟨rest, whole⟩
  · rintro ⟨rest, whole⟩
    exact ⟨'/' :: rest, whole, rfl⟩

theorem pathContains_leading {ancestor descendant : List Char} (absolute : AbsolutePath ancestor)
    (inside : pathContains ancestor descendant = true) : split ancestor <+: split descendant := by
  rcases (pathContains_cases absolute).mp inside with rfl | ⟨rest, rfl⟩
  · exact List.prefix_rfl
  · obtain ⟨components, proper, -, rfl, -⟩ := absolute
    rw [split_render_child proper, split_render proper]
    exact List.prefix_append ..

theorem pathContains_render {ancestor : List Char} (absolute : AbsolutePath ancestor)
    {components : List (List Char)} (proper : Proper components) :
    pathContains ancestor (render components) = true ↔ split ancestor <+: components := by
  constructor
  · intro inside
    have begins := pathContains_leading absolute inside
    rwa [split_render proper] at begins
  · intro ⟨rest, whole⟩
    rw [pathContains_cases absolute, ← whole, render_append, absolute.render_split]
    cases rest with
    | nil => exact .inl (by simp)
    | cons component others => exact .inr ⟨component ++ render others, by simp⟩

theorem pathContains_iff {ancestor descendant : List Char} (absolute : AbsolutePath ancestor)
    (descendantAbsolute : AbsolutePath descendant) :
    pathContains ancestor descendant = true ↔ split ancestor <+: split descendant := by
  have rendered := pathContains_render absolute (split_proper descendant)
  rwa [descendantAbsolute.render_split] at rendered

/-- Neither destination is inside the other. -/
def Apart (left right : Grant) : Prop :=
  pathContains left.destination right.destination = false ∧
    pathContains right.destination left.destination = false

theorem validateNoOverlap_ok {grants : List Grant} :
    validateNoOverlap (grants.map (·.destination)) = .ok () ↔ grants.Pairwise Apart := by
  induction grants with
  | nil => simp [validateNoOverlap]
  | cons grant rest ih =>
      rw [List.map_cons, validateNoOverlap, bind_unit_ok_iff, checkAll_ok_iff, List.pairwise_cons,
        ih]
      simp [Apart]

theorem validateEachGrant_ok {host : Host} {phase : Phase} {index : Nat} {seen : List (List Char)}
    {grants : List Grant} (accepted : validateEachGrant host phase index seen grants = .ok ()) :
    ∀ grant ∈ grants, ∃ label, validateGrant host phase grant label = .ok () := by
  induction grants generalizing index seen with
  | nil => simp
  | cons first rest ih =>
      simp only [validateEachGrant, bind_unit_ok_iff] at accepted
      obtain ⟨checked, -, checkedRest⟩ := accepted
      intro grant member
      rcases List.mem_cons.mp member with rfl | later
      · exact ⟨_, checked⟩
      · exact ih checkedRest grant later

/-- What the acceptance of one grant says about it. -/
structure GrantAccepted (phase : Phase) (grant : Grant) : Prop where
  source : AbsolutePath grant.source
  destination : AbsolutePath grant.destination
  writable : grant.access = .readWrite → grant.purpose = .authoring ∨ grant.purpose = .scratch ∨
    (phase = .dependencyAcquisition ∧
      (grant.purpose = .dependencyCache ∨ grant.purpose = .lockfile))
  purpose : grant.purpose ∈ phasePurposes phase

theorem validateGrantPurposeAccess_ok {purpose : Purpose} {access : Access} {phase : Phase}
    {label : String} (accepted : validateGrantPurposeAccess purpose access phase label = .ok ())
    (write : access = .readWrite) : purpose = .authoring ∨ purpose = .scratch ∨
      (phase = .dependencyAcquisition ∧ (purpose = .dependencyCache ∨ purpose = .lockfile)) := by
  simp only [validateGrantPurposeAccess, bind_unit_ok_iff, ensure_ok_iff, write] at accepted
  cases purpose <;> cases phase <;> simp_all

theorem validateGrant_ok {host : Host} {phase : Phase} {grant : Grant} {label : String}
    (accepted : validateGrant host phase grant label = .ok ()) : GrantAccepted phase grant := by
  simp only [validateGrant, bind_unit_ok_iff] at accepted
  obtain ⟨source, destination, -, -, -, -, rest⟩ := accepted
  have checked : validateGrantPurposeAccess grant.purpose grant.access phase label = .ok () ∧
      validatePhasePurpose phase grant.purpose label = .ok () := by
    split at rest
    · simp only [bind_unit_ok_iff] at rest
      exact rest.2.2.2
    · simp only [bind_unit_ok_iff] at rest
      exact rest.2.2
  refine ⟨validateAbsolute_ok source, validateAbsolute_ok destination, ?_, ?_⟩
  · exact validateGrantPurposeAccess_ok checked.1
  · have listed := checked.2
    rw [validatePhasePurpose, ensure_ok_iff] at listed
    simpa using listed

/-- What the acceptance of all grants says about them. -/
structure GrantsAccepted (request : SandboxRequest) : Prop where
  each : ∀ grant ∈ request.grants, GrantAccepted request.phase grant
  apart : request.grants.Pairwise Apart

theorem validateGrants_ok {host : Host} {request : SandboxRequest}
    (accepted : validateGrants host request = .ok ()) : GrantsAccepted request := by
  simp only [validateGrants, bind_unit_ok_iff] at accepted
  obtain ⟨-, each, apart⟩ := accepted
  refine ⟨?_, validateNoOverlap_ok.mp apart⟩
  intro grant member
  obtain ⟨label, checked⟩ := validateEachGrant_ok each grant member
  exact validateGrant_ok checked

theorem GrantsAccepted.unique {request : SandboxRequest} (accepted : GrantsAccepted request)
    {left right : Grant} (leftMember : left ∈ request.grants) (rightMember : right ∈ request.grants)
    {components : List (List Char)} (leftInside : split left.destination <+: components)
    (rightInside : split right.destination <+: components) : left = right := by
  have symmetric : Std.Symm Apart := ⟨fun _ _ apart => ⟨apart.2, apart.1⟩⟩
  by_contra different
  have apart := accepted.apart.forall leftMember rightMember different
  have leftPath := (accepted.each left leftMember).destination
  have rightPath := (accepted.each right rightMember).destination
  rcases List.prefix_or_prefix_of_prefix leftInside rightInside with inside | inside
  · have contained := (pathContains_iff leftPath rightPath).mpr inside
    rw [apart.1] at contained
    cases contained
  · have contained := (pathContains_iff rightPath leftPath).mpr inside
    rw [apart.2] at contained
    cases contained

def phaseChecks (request : SandboxRequest) : Except String Unit :=
  match request.phase with
  | .authoring => validateAuthoring request
  | .dependencyAcquisition => validateAcquisition request
  | .verification => validateVerification request

/-- What the acceptance of a request consists of. -/
structure RequestAccepted (sha256 : List UInt8 → List Char) (request : SandboxRequest) : Prop where
  toolchain : validateToolchain request = .ok ()
  grants : GrantsAccepted request
  searchPath : validatePathGrants request = .ok ()
  network : validateNetwork sha256 request = .ok ()
  roots : validateOptionalRoots request = .ok ()
  phase : phaseChecks request = .ok ()

theorem validate_ok {sha256 : List UInt8 → List Char} {host : Host} {request : SandboxRequest}
    (accepted : validate sha256 host request = .ok ()) : RequestAccepted sha256 request := by
  simp only [validate, bind_unit_ok_iff] at accepted
  obtain ⟨-, -, -, -, -, -, -, toolchain, grants, searchPath, network, roots, phase⟩ := accepted
  exact ⟨toolchain, validateGrants_ok grants, searchPath, network, roots, phase⟩

theorem exampleIdentity_eq : exampleIdentity = "sha256:".toList ++ List.replicate 64 '0' := by
  delta exampleIdentity
  repeat rw [String.toList_ofList]
  rfl

theorem fetchRequest_accepted {sources : List AllowedSource}
    (given : sources ∈ [[internalRegistry], [internalRegistry, toolRepository], [localMirror]]) :
    validate exampleDigest plainHost (fetchRequest sources) = .ok () := by
  have each : ∀ sources ∈ [[internalRegistry], [internalRegistry, toolRepository], [localMirror]],
      (validate exampleDigest plainHost (fetchRequest sources)).isOk = true := by
    simp only [List.forall_mem_cons, List.not_mem_nil, false_imp_iff, forall_const, and_true]
    -- the kernel reads long texts slowly, so they are lists before it decides
    delta exampleDigest internalRegistry toolRepository localMirror
    repeat rw [String.toList_ofList]
    unfold fetchRequest
    rw [exampleIdentity_eq]
    refine ⟨?_, ?_, ?_⟩
    all_goals decide +kernel
  exact eq_ok_of_isOk (each sources given)

end Kvist.Galla
