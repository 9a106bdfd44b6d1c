import Kvist.Galla.GrantProperties

/-!
# The directories on the search path

The check of a search path compares its entries as they are written, and accepts three system
directories whatever lies over them. Where the check also passes on the resolved entries, and no
writable grant lies over a system directory, the search path is read-only.
-/

set_option autoImplicit false

namespace Kvist.Galla

open Text Paths

/-- The entries of the search path; one that is empty or absent has none. -/
def pathEntries (request : SandboxRequest) : List (List Char) :=
  if (pathValue request).isEmpty then [] else (pathValue request).splitOn ':'

def resolvedEntry (entry : List Char) : List Char := render (lexicalComponents entry)

/-- A grant with this access lies over the directory. -/
def Covered (request : SandboxRequest) (access : Access) (components : List (List Char)) : Prop :=
  ∃ grant ∈ request.grants, grant.access = access ∧ split grant.destination <+: components

/-- The entry resolves into a read-only grant or an ungranted system directory, and into no
writable grant. -/
def ReadOnlyEntry (request : SandboxRequest) (entry : List Char) : Prop :=
  (Covered request .readOnly (lexicalComponents entry) ∨
      (resolvedEntry entry ∈ systemDirectories ∧
        ∀ access, ¬Covered request access (lexicalComponents entry))) ∧
    ¬Covered request .readWrite (lexicalComponents entry)

/-- A parent component leads to a directory that the check accepts too, and over a system
directory lies no writable grant. -/
def EntryResolves (request : SandboxRequest) (entry : List Char) : Prop :=
  (['.', '.'] ∈ split entry → grantedReadOnlyContains request (resolvedEntry entry) = true) ∧
    (resolvedEntry entry ∈ systemDirectories →
      ∀ grant ∈ request.grants, grant.access = .readWrite →
        pathContains grant.destination (resolvedEntry entry) = false)

instance (request : SandboxRequest) (entry : List Char) :
    Decidable (EntryResolves request entry) :=
  inferInstanceAs (Decidable ((_ → _) ∧ (_ → _)))

theorem lexicalComponents_proper (path : List Char) : Proper (lexicalComponents path) := by
  rw [lexicalComponents]
  refine List.foldlRecOn (split path) _ (by simp [Proper]) ?_
  intro resolved proper component member
  split
  · intro other inside
    exact proper other (List.mem_of_mem_dropLast inside)
  · split
    · exact proper
    · intro other inside
      rcases List.mem_append.mp inside with earlier | last
      · exact proper other earlier
      · rw [List.mem_singleton.mp last]
        exact split_proper path component member

/-- Without parent components, resolution drops the components that stay. -/
theorem lexicalComponents_descending {path : List Char} (descending : ['.', '.'] ∉ split path) :
    lexicalComponents path = (split path).filter fun component => component != ['.'] := by
  have general : ∀ (components resolved : List (List Char)), ['.', '.'] ∉ components →
      components.foldl (fun resolved component =>
        if component = ['.', '.'] then resolved.dropLast
        else if component = ['.'] then resolved
        else resolved ++ [component]) resolved =
      resolved ++ components.filter fun component => component != ['.'] := by
    intro components
    induction components with
    | nil => simp
    | cons component rest ih =>
        intro resolved descending
        rw [List.mem_cons, not_or] at descending
        rw [List.foldl_cons, if_neg (Ne.symm descending.1), ih _ descending.2]
        by_cases stays : component = ['.']
        · simp [stays]
        · simp [stays]
  exact general _ [] descending

theorem resolvedEntry_system {entry : List Char} (system : entry ∈ systemDirectories) :
    resolvedEntry entry = entry := by
  simp only [systemDirectories, List.mem_cons, List.not_mem_nil, or_false] at system
  rcases system with rfl | rfl | rfl
  · decide
  · decide
  · decide

variable {request : SandboxRequest}

theorem covered_iff (accepted : GrantsAccepted request) {access : Access}
    {components : List (List Char)} (proper : Proper components) :
    Covered request access components ↔ ∃ grant ∈ request.grants, grant.access = access ∧
      pathContains grant.destination (render components) = true := by
  constructor
  · intro ⟨grant, member, same, inside⟩
    have absolute := (accepted.each grant member).destination
    exact ⟨grant, member, same, (pathContains_render absolute proper).mpr inside⟩
  · intro ⟨grant, member, same, inside⟩
    have absolute := (accepted.each grant member).destination
    exact ⟨grant, member, same, (pathContains_render absolute proper).mp inside⟩

theorem granted_resolved_iff (accepted : GrantsAccepted request) {entry : List Char} :
    grantedReadOnlyContains request (resolvedEntry entry) = true ↔
      resolvedEntry entry ∈ systemDirectories ∨
        Covered request .readOnly (lexicalComponents entry) := by
  rw [covered_iff accepted (lexicalComponents_proper entry)]
  simp [grantedReadOnlyContains, resolvedEntry]

theorem not_covered_iff (accepted : GrantsAccepted request) {entry : List Char} :
    ¬Covered request .readWrite (lexicalComponents entry) ↔
      ∀ grant ∈ request.grants, grant.access = .readWrite →
        pathContains grant.destination (resolvedEntry entry) = false := by
  rw [covered_iff accepted (lexicalComponents_proper entry)]
  simp [resolvedEntry]

/-- A writable and a read-only grant do not lie over the same directory. -/
theorem covered_exclusive (accepted : GrantsAccepted request) {components : List (List Char)}
    (readable : Covered request .readOnly components) :
    ¬Covered request .readWrite components := by
  intro ⟨writableGrant, writableMember, writes, writableInside⟩
  obtain ⟨grant, member, reads, inside⟩ := readable
  have same := accepted.unique member writableMember inside writableInside
  rw [same, writes] at reads
  cases reads

/-- Without parent components, the check of the entry is the check of the resolved one. -/
theorem granted_resolved (accepted : GrantsAccepted request) {entry : List Char}
    (granted : grantedReadOnlyContains request entry = true)
    (descending : ['.', '.'] ∉ split entry) :
    grantedReadOnlyContains request (resolvedEntry entry) = true := by
  rw [granted_resolved_iff accepted]
  simp only [grantedReadOnlyContains, Bool.or_eq_true, List.contains_eq_mem, decide_eq_true_eq,
    List.any_eq_true, Bool.and_eq_true, beq_iff_eq] at granted
  rcases granted with system | ⟨grant, member, reads, inside⟩
  · exact .inl (by rwa [resolvedEntry_system system])
  · refine .inr ⟨grant, member, reads, ?_⟩
    have absolute := (accepted.each grant member).destination
    have begins := pathContains_leading absolute inside
    rw [lexicalComponents_descending descending]
    have kept : (split grant.destination).filter (fun component => component != ['.']) =
        split grant.destination := by
      apply List.filter_eq_self.mpr
      intro component present
      simpa using (absolute.named component present).1
    rw [← kept]
    exact begins.filter _

theorem readOnlyEntry_iff (accepted : GrantsAccepted request) {entry : List Char}
    (granted : grantedReadOnlyContains request entry = true) :
    ReadOnlyEntry request entry ↔ EntryResolves request entry := by
  constructor
  · intro ⟨readable, unwritable⟩
    refine ⟨fun _ => ?_, fun _ => (not_covered_iff accepted).mp unwritable⟩
    rw [granted_resolved_iff accepted]
    rcases readable with covered | ⟨system, -⟩
    · exact .inr covered
    · exact .inl system
  · intro ⟨resolves, clear⟩
    have resolved : grantedReadOnlyContains request (resolvedEntry entry) = true := by
      by_cases parent : ['.', '.'] ∈ split entry
      · exact resolves parent
      · exact granted_resolved accepted granted parent
    by_cases covered : Covered request .readOnly (lexicalComponents entry)
    · exact ⟨.inl covered, covered_exclusive accepted covered⟩
    · have system := ((granted_resolved_iff accepted).mp resolved).resolve_right covered
      have unwritable := (not_covered_iff accepted).mpr (clear system)
      refine ⟨.inr ⟨system, ?_⟩, unwritable⟩
      intro access
      cases access with
      | readOnly => exact covered
      | readWrite => exact unwritable

theorem validatePathGrants_ok (accepted : validatePathGrants request = .ok ()) :
    ∀ entry ∈ pathEntries request, grantedReadOnlyContains request entry = true := by
  intro entry member
  rw [validatePathGrants] at accepted
  rw [pathEntries] at member
  split at accepted
  · rename_i absent
    rw [if_pos absent] at member
    cases member
  · rename_i present
    rw [if_neg present] at member
    simp only [ensure_ok_iff, Bool.not_eq_true', List.any_eq_false, Bool.not_eq_false] at accepted
    exact accepted entry member

/-- The search path of an accepted request is read-only exactly if its entries resolve. -/
theorem search_path_read_only {sha256 : List UInt8 → List Char} {host : Host}
    (accepted : validate sha256 host request = .ok ()) :
    (∀ entry ∈ pathEntries request, ReadOnlyEntry request entry) ↔
      ∀ entry ∈ pathEntries request, EntryResolves request entry := by
  have facts := validate_ok accepted
  have granted := validatePathGrants_ok facts.searchPath
  constructor
  · intro readOnly entry member
    exact (readOnlyEntry_iff facts.grants (granted entry member)).mp (readOnly entry member)
  · intro resolves entry member
    exact (readOnlyEntry_iff facts.grants (granted entry member)).mpr (resolves entry member)

theorem search_path_read_only_fetch :
    validate exampleDigest plainHost (fetchRequest [internalRegistry]) = .ok () ∧
      ∀ entry ∈ pathEntries (fetchRequest [internalRegistry]),
        ReadOnlyEntry (fetchRequest [internalRegistry]) entry := by
  have accepted : validate exampleDigest plainHost (fetchRequest [internalRegistry]) = .ok () :=
    fetchRequest_accepted List.mem_cons_self
  exact ⟨accepted, (search_path_read_only accepted).mpr (by decide)⟩

/-- An authoring request that puts its writable directories on the search path. -/
def writtenPathRequest : SandboxRequest :=
  { fetchRequest [] with
    phase := .authoring
    argv := ["/bin/sh".toList]
    workingDirectory := "/workspace/scratch".toList
    environment :=
      { entries := [("PATH".toList, "/workspace/tools/../scratch/bin:/usr/bin".toList)]
        distinct := by decide }
    network := ⟨.deny, []⟩
    grants :=
      [⟨"/srv/tools".toList, "/workspace/tools".toList, .readOnly, .context, exampleIdentity⟩,
        ⟨"/srv/scratch".toList, "/workspace/scratch".toList, .readWrite, .scratch,
          exampleIdentity⟩,
        ⟨"/srv/bin".toList, "/usr/bin".toList, .readWrite, .authoring, exampleIdentity⟩]
    toolchain := .system exampleIdentity "/opt/rust".toList
    cache := none
    scratch := some ⟨"/workspace/scratch".toList, exampleIdentity⟩ }

theorem writtenPathRequest_accepted :
    validate exampleDigest plainHost writtenPathRequest = .ok () ∧
      pathEntries writtenPathRequest =
        ["/workspace/tools/../scratch/bin".toList, "/usr/bin".toList] ∧
      ∀ entry ∈ pathEntries writtenPathRequest, ¬ReadOnlyEntry writtenPathRequest entry := by
  have entries : pathEntries writtenPathRequest =
      ["/workspace/tools/../scratch/bin".toList, "/usr/bin".toList] := by decide
  refine ⟨eq_ok_of_isOk (by decide), entries, ?_⟩
  intro entry member readOnly
  rw [entries] at member
  rcases List.mem_pair.mp member with rfl | rfl
  · apply readOnly.2
    exact ⟨⟨"/srv/scratch".toList, "/workspace/scratch".toList, .readWrite, .scratch,
      exampleIdentity⟩, by decide, rfl, by decide⟩
  · apply readOnly.2
    exact ⟨⟨"/srv/bin".toList, "/usr/bin".toList, .readWrite, .authoring, exampleIdentity⟩,
      by decide, rfl, by decide⟩

end Kvist.Galla
