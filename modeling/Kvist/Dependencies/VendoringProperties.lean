import Kvist.Dependencies.Vendoring
import Kvist.Galla.EnforcementProperties
import Kvist.Outcome

/-!
# Pruning stale packages

A directory may make a locked package count as present and still be reported as stale: presence
goes by the name of the directory, staleness by the manifest in it. Pruning is safe exactly if the
manifests and the versions agree with the names of the directories.
-/

set_option autoImplicit false

namespace Kvist.Dependencies

open Galla (rsplitOnce)

/-! ## What is reported as stale -/

variable {vendored : String} {vendor : Vendor} {limits : VendorLimits}
  {expected : List (String × String)}

def ReportedStale (vendor : Vendor) (limits : VendorLimits) (expected : List (String × String))
    (name : String) : Prop :=
  ∃ package fields, vendor.entries.get name = some (.directory package) ∧
    vendor.fields limits name package = .ok fields ∧ isStale expected name fields = true

theorem mem_staleEntries_iff {entries : List (String × VendorEntry)} {stale : List String}
    (found : staleEntries vendored vendor limits expected entries = .ok stale) (name : String) :
    name ∈ stale ↔ ∃ package fields, (name, VendorEntry.directory package) ∈ entries ∧
      vendor.fields limits name package = .ok fields ∧ isStale expected name fields = true := by
  induction entries generalizing stale with
  | nil =>
      obtain rfl := Except.ok.inj found
      exact ⟨nofun, nofun⟩
  | cons entry rest ih =>
      obtain ⟨first, kind⟩ := entry
      cases kind with
      | link => exact nomatch found
      | other =>
          rw [ih found]
          refine exists₂_congr fun package fields => and_congr_left fun _ => ?_
          rw [List.mem_cons, or_iff_right]
          exact fun same => nomatch same
      | directory package =>
          rw [staleEntries, bind_ok_iff] at found
          obtain ⟨fields, fieldsEq, found⟩ := found
          rw [bind_ok_iff] at found
          obtain ⟨others, othersEq, result⟩ := found
          obtain rfl := Except.ok.inj result
          have mem_stale : (name ∈ if isStale expected first fields = true then first :: others
              else others) ↔ (name = first ∧ isStale expected first fields = true) ∨
                name ∈ others := by
            split
            · rename_i reported
              rw [List.mem_cons, and_iff_left reported]
            · rename_i kept
              rw [or_iff_right fun both => kept both.2]
          rw [mem_stale, ih othersEq]
          constructor
          · rintro (⟨rfl, reported⟩ | ⟨otherPackage, otherFields, member, others⟩)
            · exact ⟨package, fields, List.mem_cons_self, fieldsEq, reported⟩
            · exact ⟨otherPackage, otherFields, List.mem_cons_of_mem _ member, others⟩
          · rintro ⟨otherPackage, otherFields, member, readEq, reported⟩
            rcases List.mem_cons.mp member with same | later
            · obtain ⟨rfl, sameEntry⟩ := Prod.mk.inj same
              obtain rfl := VendorEntry.directory.inj sameEntry
              obtain rfl := Except.ok.inj (fieldsEq.symm.trans readEq)
              exact .inl ⟨rfl, reported⟩
            · exact .inr ⟨otherPackage, otherFields, later, readEq, reported⟩

/-- The lock file as both functions read it. -/
def readPackages (parser : LockParser) (project : Project) :
    Except Error (VendorLimits × List LockPackage) := do
  let limits ← project.limits
  let contents ← project.lock limits
  let packages ← packages parser project.root contents limits
  return (limits, packages)

variable {parser : LockParser} {project : Project} {locked : List LockPackage}

theorem readPackages_ok (read : readPackages parser project = .ok (limits, locked)) :
    project.limits = .ok limits ∧ ∃ contents, project.lock limits = .ok contents ∧
      packages parser project.root contents limits = .ok locked := by
  rw [readPackages, bind_ok_iff] at read
  obtain ⟨readLimits, limitsEq, read⟩ := read
  rw [bind_ok_iff] at read
  obtain ⟨contents, contentsEq, read⟩ := read
  rw [bind_ok_iff] at read
  obtain ⟨readLocked, lockedEq, result⟩ := read
  obtain ⟨rfl, rfl⟩ := Prod.mk.inj (Except.ok.inj result)
  exact ⟨limitsEq, contents, contentsEq, lockedEq⟩

theorem findStale_ok {path : String} {stale : List String}
    (read : readPackages parser project = .ok (limits, locked))
    (found : findStaleVendoredPackages parser project ⟨path, .directory vendor⟩ = .ok stale) :
    (∀ name entry, vendor.entries.get name = some entry → segment name = true) ∧
    ∀ name, name ∈ stale ↔ ReportedStale vendor limits (expectedPackages locked) name := by
  obtain ⟨limitsEq, contents, contentsEq, lockedEq⟩ := readPackages_ok read
  rw [findStaleVendoredPackages, limitsEq, ok_bind, contentsEq, ok_bind, lockedEq, ok_bind] at found
  change ((vendor.list limits.maxPackages) >>= fun entries => staleEntries path vendor limits
    (expectedPackages locked) entries) = .ok stale at found
  rw [bind_ok_iff] at found
  obtain ⟨entries, listed, inspected⟩ := found
  rw [Vendor.list] at listed
  split at listed
  · exact nomatch listed
  · split at listed
    · exact nomatch listed
    · rename_i bounded
      obtain rfl := Except.ok.inj listed
      rw [Bool.or_eq_true, not_or, Bool.not_eq_true, List.any_eq_false] at bounded
      have lookup := fun name entry => @OrderedMap.lookup_eq_some_iff _ _ _ vendor.entries.entries
        name entry vendor.entries.ascending
      refine ⟨fun name entry present => ?_, fun name => ?_⟩
      · have member : name ∈ vendor.entries.keys :=
          List.mem_map.mpr ⟨_, (lookup name entry).mp present, rfl⟩
        simpa using bounded.1 name member
      · rw [mem_staleEntries_iff inspected, ReportedStale]
        refine exists₂_congr fun package fields => and_congr_left fun _ => ?_
        exact (lookup name _).symm

/-! ## Presence -/

/-- The directory of this name makes the package count as present. -/
def MakesPresent (vendor : Vendor) (limits : VendorLimits) (package : LockPackage)
    (name : String) : Prop :=
  (name = package.name ∧ ∃ directory manifestName,
    vendor.entries.get name = some (.directory directory) ∧
      vendor.fields limits name directory = .ok (manifestName, some package.version)) ∨
  (name = package.numbered ∧ ∃ directory, vendor.entries.get name = some (.directory directory))

def Vendor.without (vendor : Vendor) (stale : List String) : Vendor :=
  { vendor with entries := vendor.entries.retain fun name _ => !stale.contains name }

theorem without_get {stale : List String} {name : String} :
    (vendor.without stale).entries.get name =
      if name ∈ stale then none else vendor.entries.get name := by
  rw [Vendor.without]
  dsimp only
  rw [OrderedMap.get_retain]
  cases vendor.entries.get name with
  | none => simp
  | some entry => by_cases member : name ∈ stale <;> simp [member]

theorem exists_of_segment {name : String} (named : segment name = true) :
    vendor.exists name = .ok (vendor.entries.get name).isSome := by
  have short : ¬ 255 < name.utf8ByteSize := by
    simp only [segment, Bool.and_eq_true, decide_eq_true_eq] at named
    exact Nat.not_lt.mpr named.1.2
  rw [Vendor.exists, if_neg short]

theorem child_of_present {name : String} {directory : PackageDirectory}
    (named : segment name = true)
    (present : vendor.entries.get name = some (.directory directory)) :
    vendor.child name = .ok directory := by
  rw [Vendor.child, named, present]
  rfl

/-- What is kept is found as before. -/
theorem kept_same {stale : List String} {name : String} (kept : name ∉ stale) :
    (vendor.without stale).exists name = vendor.exists name ∧
      (vendor.without stale).child name = vendor.child name := by
  have same : (vendor.without stale).entries.get name = vendor.entries.get name := by
    rw [without_get, if_neg kept]
  rw [Vendor.exists, Vendor.child, same]
  exact ⟨rfl, rfl⟩

/-- Directories that do not make the package present can be taken away. -/
theorem durableSourcePresent_without {stale : List String} {package : LockPackage}
    (named : ∀ name entry, vendor.entries.get name = some entry → segment name = true)
    (reported : ∀ name ∈ stale, ReportedStale vendor limits expected name)
    (safe : ∀ name ∈ stale, ¬ MakesPresent vendor limits package name) :
    durableSourcePresent (some (vendor.without stale)) package limits =
      durableSourcePresent (some vendor) package limits := by
  have numbered : numberedPresent (vendor.without stale) package =
      numberedPresent vendor package := by
    have kept : package.numbered ∉ stale := by
      intro member
      obtain ⟨directory, fields, present, -⟩ := reported _ member
      exact safe _ member (.inr ⟨rfl, directory, present⟩)
    rw [numberedPresent, numberedPresent, (kept_same kept).1, (kept_same kept).2]
  have flat : flatPresent (vendor.without stale) package limits =
      flatPresent vendor package limits := by
    by_cases member : package.name ∈ stale
    · obtain ⟨directory, fields, present, read, -⟩ := reported _ member
      have isNamed := named _ _ present
      have other : fields.2 ≠ some package.version := by
        intro same
        exact safe _ member (.inl ⟨rfl, directory, fields.1, present, by rw [read, ← same]⟩)
      rw [flatPresent, flatPresent, exists_of_segment isNamed, exists_of_segment isNamed,
        without_get, if_pos member, present, ok_bind, ok_bind]
      change Except.ok false = (vendor.child package.name >>= fun flat =>
        vendor.fields limits package.name flat >>= fun fields =>
          pure (decide (fields.2 = some package.version)))
      rw [child_of_present isNamed present, ok_bind, read, ok_bind, decide_eq_false other]
      rfl
    · rw [flatPresent, flatPresent, (kept_same member).1, (kept_same member).2]
      rfl
  rw [durableSourcePresent, durableSourcePresent, flat, numbered]

theorem missingDependencies_without {stale : List String} {packages : List LockPackage}
    (same : ∀ package ∈ packages, package.source.needsDurableSource = true →
      durableSourcePresent (some (vendor.without stale)) package limits =
        durableSourcePresent (some vendor) package limits) :
    missingDependencies (some (vendor.without stale)) limits packages =
      missingDependencies (some vendor) limits packages := by
  induction packages with
  | nil => rfl
  | cons package rest ih =>
      rw [List.forall_mem_cons] at same
      rw [missingDependencies, missingDependencies, ih same.2]
      cases durable : package.source.needsDurableSource with
      | false => rfl
      | true => rw [if_pos rfl, if_pos rfl, same.1 durable]

/-! ## Agreement -/

/-- The name that a numbered directory has up to a last dash in front of a digit. -/
def LockPackage.numberedName (package : LockPackage) : String :=
  match rsplitOnce '-' package.version.toList with
  | some (front, back) =>
      if startsWithDigit back then package.name ++ "-" ++ String.ofList front
      else package.numbered
  | none => if startsWithDigit package.version.toList then package.name else package.numbered

/-- What the directories of a locked package say of it belongs to a locked package. -/
structure Agrees (vendor : Vendor) (limits : VendorLimits) (expected : List (String × String))
    (package : LockPackage) : Prop where
  /-- The directory of its name, where the manifest has the locked version. -/
  flat : ∀ directory manifestName,
    vendor.entries.get package.name = some (.directory directory) →
    vendor.fields limits package.name directory = .ok (manifestName, some package.version) →
      match manifestName with
      | some name => (name, package.version) ∈ expected
      | none => ∀ front back, rsplitOnce '-' package.name.toList = some (front, back) →
          startsWithDigit back = true → (String.ofList front, package.version) ∈ expected
  /-- The directory of its name and version. -/
  numbered : ∀ directory manifestName manifestVersion,
    vendor.entries.get package.numbered = some (.directory directory) →
    vendor.fields limits package.numbered directory = .ok (manifestName, manifestVersion) →
      match manifestName, manifestVersion with
      | some name, some version => (name, version) ∈ expected
      | none, some version => (package.numberedName, version) ∈ expected
      | _, none => ∀ front back, rsplitOnce '-' package.version.toList = some (front, back) →
          startsWithDigit back = true →
            (package.name ++ "-" ++ String.ofList front, String.ofList back) ∈ expected

theorem toList_numbered (package : LockPackage) :
    package.numbered.toList = package.name.toList ++ '-' :: package.version.toList := by
  rw [LockPackage.numbered, String.toList_append, String.toList_append, List.append_assoc]
  rfl

theorem rsplitOnce_numbered (package : LockPackage) :
    rsplitOnce '-' package.numbered.toList =
      match rsplitOnce '-' package.version.toList with
      | some (front, back) => some (package.name.toList ++ '-' :: front, back)
      | none => some (package.name.toList, package.version.toList) := by
  rw [toList_numbered]
  by_cases dashed : '-' ∈ package.version.toList
  · obtain ⟨before, after, whole, last⟩ := List.eq_append_cons_of_mem (List.mem_reverse.mpr dashed)
    have version : package.version.toList = after.reverse ++ '-' :: before.reverse := by
      rw [← List.reverse_reverse package.version.toList, whole]
      simp
    have absent : '-' ∉ before.reverse := fun member => last (List.mem_reverse.mp member)
    rw [version, Galla.rsplitOnce_append absent, ← List.cons_append, ← List.append_assoc,
      Galla.rsplitOnce_append absent]
  · rw [Galla.rsplitOnce_append dashed, Galla.rsplitOnce_absent dashed]

theorem fallback_eq (name : String) :
    fallback name = match rsplitOnce '-' name.toList with
      | some (front, back) =>
          if startsWithDigit back then some (String.ofList front, String.ofList back) else none
      | none => none := by
  rw [fallback]
  cases rsplitOnce '-' name.toList with
  | none => rfl
  | some parts =>
      obtain ⟨front, back⟩ := parts
      cases digit : startsWithDigit back <;> simp [Option.filter, digit]

theorem kept_flat_iff {package : LockPackage} {manifestName : Option String}
    (present : (package.name, package.version) ∈ expected) :
    isStale expected package.name (manifestName, some package.version) = false ↔
      match manifestName with
      | some name => (name, package.version) ∈ expected
      | none => ∀ front back, rsplitOnce '-' package.name.toList = some (front, back) →
          startsWithDigit back = true → (String.ofList front, package.version) ∈ expected := by
  cases manifestName with
  | some name => simp [isStale]
  | none =>
      rw [isStale, fallback_eq]
      cases split : rsplitOnce '-' package.name.toList with
      | none => simpa using present
      | some parts =>
          obtain ⟨front, back⟩ := parts
          cases digit : startsWithDigit back with
          | false => simpa [digit] using present
          | true => simp [digit]

theorem kept_numbered_iff {package : LockPackage} {manifestName manifestVersion : Option String}
    (present : (package.name, package.version) ∈ expected) :
    isStale expected package.numbered (manifestName, manifestVersion) = false ↔
      match manifestName, manifestVersion with
      | some name, some version => (name, version) ∈ expected
      | none, some version => (package.numberedName, version) ∈ expected
      | _, none => ∀ front back, rsplitOnce '-' package.version.toList = some (front, back) →
          startsWithDigit back = true →
            (package.name ++ "-" ++ String.ofList front, String.ofList back) ∈ expected := by
  have joined : ∀ front, String.ofList (package.name.toList ++ '-' :: front) =
      package.name ++ "-" ++ String.ofList front := by
    intro front
    refine String.toList_injective ?_
    rw [String.toList_ofList, String.toList_append, String.toList_append, String.toList_ofList,
      String.toList_ofList, List.append_assoc]
    rfl
  have named : ((fallback package.numbered).map (·.1)).getD package.numbered =
      package.numberedName := by
    rw [fallback_eq, rsplitOnce_numbered, LockPackage.numberedName]
    cases rsplitOnce '-' package.version.toList with
    | none => cases digit : startsWithDigit package.version.toList <;> simp [digit]
    | some parts =>
        obtain ⟨front, back⟩ := parts
        cases digit : startsWithDigit back <;> simp [digit, joined]
  cases manifestVersion with
  | some version =>
      cases manifestName with
      | some name => simp [isStale]
      | none =>
          rw [isStale, named]
          simp
  | none =>
      rw [isStale, fallback_eq, rsplitOnce_numbered]
      cases split : rsplitOnce '-' package.version.toList with
      | none => cases digit : startsWithDigit package.version.toList <;> simp [digit, present]
      | some parts =>
          obtain ⟨front, back⟩ := parts
          cases digit : startsWithDigit back <;> simp [digit, joined]

theorem agrees_iff {package : LockPackage}
    (present : (package.name, package.version) ∈ expected) :
    Agrees vendor limits expected package ↔
      ∀ name, MakesPresent vendor limits package name →
        ¬ ReportedStale vendor limits expected name := by
  constructor
  · rintro agrees name makes ⟨directory, fields, found, read, reported⟩
    rcases makes with ⟨rfl, other, manifestName, otherFound, otherRead⟩ | ⟨rfl, -⟩
    · obtain rfl := VendorEntry.directory.inj (Option.some.inj (found.symm.trans otherFound))
      obtain rfl := Except.ok.inj (read.symm.trans otherRead)
      have kept := (kept_flat_iff present).mpr (agrees.flat directory manifestName found read)
      exact absurd (kept.symm.trans reported) Bool.false_ne_true
    · have kept := (kept_numbered_iff present).mpr
        (agrees.numbered directory fields.1 fields.2 found read)
      exact absurd (kept.symm.trans reported) Bool.false_ne_true
  · intro safe
    refine ⟨fun directory manifestName found read => ?_,
      fun directory manifestName manifestVersion found read => ?_⟩
    · refine (kept_flat_iff present).mp (Bool.eq_false_iff.mpr fun reported => ?_)
      exact safe _ (.inl ⟨rfl, directory, manifestName, found, read⟩)
        ⟨directory, _, found, read, reported⟩
    · refine (kept_numbered_iff present).mp (Bool.eq_false_iff.mpr fun reported => ?_)
      exact safe _ (.inr ⟨rfl, directory, found⟩) ⟨directory, _, found, read, reported⟩

/-! ## Pruning -/

/-- The directories that are reported can be removed, and none of them makes a locked package count
as present, exactly if the directories of every such package agree with the lock file. -/
theorem pruning_safe_iff (sha256Hex : List UInt8 → String) {path : String} {stale : List String}
    (read : readPackages parser project = .ok (limits, locked))
    (found : findStaleVendoredPackages parser project ⟨path, .directory vendor⟩ = .ok stale) :
    (enforceOfflineReadiness parser sha256Hex project
        (VendoredDir.remove ⟨path, .directory vendor⟩ stale) =
        enforceOfflineReadiness parser sha256Hex project ⟨path, .directory vendor⟩ ∧
      ∀ package ∈ locked, package.source.needsDurableSource = true →
        ∀ name ∈ stale, ¬ MakesPresent vendor limits package name) ↔
    ∀ package ∈ locked, package.source.needsDurableSource = true →
      Agrees vendor limits (expectedPackages locked) package := by
  obtain ⟨named, listed⟩ := findStale_ok read found
  have present : ∀ package ∈ locked, package.source.needsDurableSource = true →
      (package.name, package.version) ∈ expectedPackages locked := fun package member durable =>
    List.mem_map.mpr ⟨package, List.mem_filter.mpr ⟨member, durable⟩, rfl⟩
  have safe_iff : ∀ package ∈ locked, package.source.needsDurableSource = true →
      ((∀ name ∈ stale, ¬ MakesPresent vendor limits package name) ↔
        Agrees vendor limits (expectedPackages locked) package) := by
    intro package member durable
    rw [agrees_iff (present package member durable)]
    constructor
    · exact fun safe name makes reported => safe name ((listed name).mpr reported) makes
    · exact fun safe name reported makes => safe name makes ((listed name).mp reported)
  constructor
  · rintro ⟨-, safe⟩ package member durable
    exact (safe_iff package member durable).mp (safe package member durable)
  · intro agrees
    have safe := fun package member durable =>
      (safe_iff package member durable).mpr (agrees package member durable)
    refine ⟨?_, safe⟩
    have missing : missingDependencies (some (vendor.without stale)) limits locked =
        missingDependencies (some vendor) limits locked :=
      missingDependencies_without fun package member durable =>
        durableSourcePresent_without named (fun name stale => (listed name).mp stale)
          (safe package member durable)
    obtain ⟨limitsEq, contents, contentsEq, lockedEq⟩ := readPackages_ok read
    have removed : VendoredDir.remove ⟨path, .directory vendor⟩ stale =
        ⟨path, .directory (vendor.without stale)⟩ := rfl
    rw [removed, enforceOfflineReadiness, enforceOfflineReadiness, limitsEq, ok_bind, ok_bind,
      contentsEq, ok_bind, ok_bind, lockedEq, ok_bind, ok_bind]
    simp only [Registry.open, ok_bind, missing]

/-! ## Two catalogues -/

/-- A project whose lock file holds one package of a registry. -/
def oneProject : Project := ⟨"/p", .ok ⟨10, 100, 100⟩, fun _ => .ok []⟩

def oneParser (version : String) : LockParser := fun _ =>
  some [⟨"foo", version, some "registry+https://github.com/rust-lang/crates.io-index"⟩]

def emptyPackage : VendorEntry := .directory ⟨none, none⟩

/-- A registry of directories without manifests. -/
def plainVendor (names : List String) : Vendor :=
  ⟨"/p/vendored", names.foldl (fun entries name => entries.insert name emptyPackage)
    OrderedMap.empty, false⟩

theorem pruning_safe_iff_plain :
    enforceOfflineReadiness (oneParser "1.0.0") (fun _ => "") oneProject
        (VendoredDir.remove ⟨"/p/vendored", .directory (plainVendor ["foo-1.0.0", "old-2.0.0"])⟩
          ["old-2.0.0"]) =
      enforceOfflineReadiness (oneParser "1.0.0") (fun _ => "") oneProject
        ⟨"/p/vendored", .directory (plainVendor ["foo-1.0.0", "old-2.0.0"])⟩ := by
  have read : readPackages (oneParser "1.0.0") oneProject =
      .ok (⟨10, 100, 100⟩, [⟨"foo", "1.0.0", .registry⟩]) := by
    rfl
  have found : findStaleVendoredPackages (oneParser "1.0.0") oneProject
      ⟨"/p/vendored", .directory (plainVendor ["foo-1.0.0", "old-2.0.0"])⟩ =
      .ok ["old-2.0.0"] := by
    rfl
  refine ((pruning_safe_iff (fun _ => "") read found).mpr ?_).1
  intro package member durable
  obtain rfl := List.mem_singleton.mp member
  have flat : (plainVendor ["foo-1.0.0", "old-2.0.0"]).entries.get "foo" = none := by rfl
  have undashed : Galla.rsplitOnce '-' "1.0.0".toList = none := by rfl
  refine ⟨fun directory name present => ?_, fun directory name version present fields => ?_⟩
  · exact nomatch flat.symm.trans present
  · have numbered : (plainVendor ["foo-1.0.0", "old-2.0.0"]).entries.get "foo-1.0.0" =
        some emptyPackage := by rfl
    obtain rfl := VendorEntry.directory.inj (Option.some.inj (numbered.symm.trans present))
    obtain ⟨rfl, rfl⟩ := Prod.mk.inj (Except.ok.inj fields)
    exact fun front back split => nomatch undashed.symm.trans split

/-- A directory is reported though it is the only one that makes the locked package present: its
name is cut at a dash inside the version. -/
theorem pruning_removes_present :
    let vendored : VendoredDir := ⟨"/p/vendored", .directory (plainVendor ["foo-1.0.0-1"])⟩
    let missing := fun vendored =>
      (enforceOfflineReadiness (oneParser "1.0.0-1") (fun _ => "") oneProject vendored).toOption.map
        (·.missingDependencies)
    (findStaleVendoredPackages (oneParser "1.0.0-1") oneProject vendored).toOption =
        some ["foo-1.0.0-1"] ∧
      missing vendored = some [] ∧ missing (vendored.remove ["foo-1.0.0-1"]) =
        some ["foo-1.0.0-1"] := by
  decide

end Kvist.Dependencies
