import Kvist.Authoring.Dependency

/-!
# The dependency policy

Which origins are recorded, and where that differs from the policy: a suffix behind a version is
refused, and so is a version whose numbers look like a private address, while a private host in an
address is not looked at.
-/

set_option autoImplicit false

namespace Kvist.Authoring

open Galla (isAsciiDigit isAsciiAlphanumeric)
open Json (Value)
open Kvist.Runtime (ToolIntent)
open Text

/-! ## Versions -/

private theorem not_mem_of_numeric {text : List Char} (numeric : IsNumeric text) (character : Char)
    (other : isAsciiDigit character = false) : character ∉ text := by
  intro member
  rw [numeric.2 character member] at other
  cases other

private theorem isNumeric_iff {text : List Char} :
    IsNumeric text ↔ text.isEmpty = false ∧ text.all isAsciiDigit = true := by
  rw [IsNumeric, List.isEmpty_eq_false_iff, List.all_eq_true]

private theorem splitOn_three {major minor patch : List Char} (majorClear : '.' ∉ major)
    (minorClear : '.' ∉ minor) (patchClear : '.' ∉ patch) :
    (major ++ '.' :: (minor ++ '.' :: patch)).splitOn '.' = [major, minor, patch] := by
  rw [List.splitOn_append_cons_self_of_not_mem majorClear,
    List.splitOn_append_cons_self_of_not_mem minorClear, List.splitOn_eq_singleton patchClear]

/-- Three numbers without a suffix. -/
private def IsCoreVersion (value : List Char) : Prop :=
  ∃ major minor patch, value = major ++ '.' :: (minor ++ '.' :: patch) ∧
    IsNumeric major ∧ IsNumeric minor ∧ IsNumeric patch

private theorem isCore_iff {value : List Char} : isCore value = true ↔ IsCoreVersion value := by
  constructor
  · intro core
    have joined : ['.'].intercalate (value.splitOn '.') = value := List.intercalate_splitOn '.'
    rw [isCore] at core
    split at core
    · next major minor patch parts =>
        simp only [Bool.and_eq_true, Bool.not_eq_true'] at core
        obtain ⟨⟨⟨⟨⟨majorSome, minorSome⟩, patchSome⟩, majorDigits⟩, minorDigits⟩, patchDigits⟩ := core
        rw [parts] at joined
        refine ⟨major, minor, patch, by simpa [List.intercalate] using joined.symm, ?_, ?_, ?_⟩
        · exact isNumeric_iff.mpr ⟨majorSome, majorDigits⟩
        · exact isNumeric_iff.mpr ⟨minorSome, minorDigits⟩
        · exact isNumeric_iff.mpr ⟨patchSome, patchDigits⟩
    · cases core
  · rintro ⟨major, minor, patch, rfl, majorNumeric, minorNumeric, patchNumeric⟩
    rw [isCore, splitOn_three (not_mem_of_numeric majorNumeric '.' rfl)
      (not_mem_of_numeric minorNumeric '.' rfl) (not_mem_of_numeric patchNumeric '.' rfl)]
    simp [isNumeric_iff.mp majorNumeric, isNumeric_iff.mp minorNumeric, isNumeric_iff.mp patchNumeric]

/-- A version without a suffix has digits and dots only. -/
private theorem IsCoreVersion.characters {value : List Char} (core : IsCoreVersion value) :
    ∀ character ∈ value, isAsciiDigit character = true ∨ character = '.' := by
  obtain ⟨major, minor, patch, rfl, majorNumeric, minorNumeric, patchNumeric⟩ := core
  intro character member
  simp only [List.mem_append, List.mem_cons] at member
  rcases member with inside | rfl | inside | rfl | inside
  · exact .inl (majorNumeric.2 character inside)
  · exact .inr rfl
  · exact .inl (minorNumeric.2 character inside)
  · exact .inr rfl
  · exact .inl (patchNumeric.2 character inside)

private theorem IsCoreVersion.absent {value : List Char} (core : IsCoreVersion value)
    (character : Char) (other : isAsciiDigit character = false) (dotless : character ≠ '.') :
    character ∉ value := by
  intro member
  rcases core.characters character member with digit | dot
  · rw [digit] at other
    cases other
  · exact dotless dot

/-- The check of what stands behind a dash or a plus sign never comes to see one. -/
theorem isExactSemver_iff {value : List Char} :
    isExactSemver value = true ↔ IsCoreVersion value := by
  rw [← isCore_iff]
  constructor
  · intro exact
    by_contra other
    rw [isExactSemver] at exact
    split at exact
    · cases exact
    · rw [if_pos (by simpa using other)] at exact
      cases exact
  · intro core
    have shape := isCore_iff.mp core
    have plain : value.any "*><=^~".toList.contains = false := by
      rw [List.any_eq_false]
      intro character member
      rcases shape.characters character member with digit | rfl
      · intro operator
        have listed : character ∈ ['*', '>', '<', '=', '^', '~'] := by simpa using operator
        simp only [List.mem_cons, List.not_mem_nil, or_false] at listed
        rcases listed with rfl | rfl | rfl | rfl | rfl | rfl <;> cases digit
      · decide
    have whole : value.splitOnP (fun character => character == '-' || character == '+') = [value] := by
      refine List.splitOnP_eq_singleton fun character member => ?_
      rw [Bool.or_eq_false_iff, beq_eq_false_iff_ne, beq_eq_false_iff_ne]
      constructor
      · rintro rfl
        exact shape.absent _ rfl (by decide) member
      · rintro rfl
        exact shape.absent _ rfl (by decide) member
    rw [isExactSemver, plain, core, whole]
    rfl

theorem isVersion_nil_iff {value : List Char} : IsVersion value [] ↔ isExactSemver value = true := by
  rw [isExactSemver_iff]
  constructor
  · rintro ⟨major, minor, patch, rfl, numeric⟩
    exact ⟨major, minor, patch, by rw [List.append_nil], numeric.1, numeric.2.1, numeric.2.2.1⟩
  · rintro ⟨major, minor, patch, rfl, majorNumeric, minorNumeric, patchNumeric⟩
    exact ⟨major, minor, patch, by rw [List.append_nil], majorNumeric, minorNumeric, patchNumeric,
      [], [], rfl, .inl rfl, .inl rfl⟩

private theorem IsDotted.characters {text : List Char} (dotted : IsDotted text) :
    ∀ character ∈ text, isReferenceCharacter character = true := by
  intro character member
  have joined : ['.'].intercalate (text.splitOn '.') = text := List.intercalate_splitOn '.'
  rw [← joined] at member
  rcases mem_intercalate member with rfl | ⟨identifier, present, inside⟩
  · decide
  · rw [isReferenceCharacter, (dotted identifier present).2 character inside]
    rfl

private theorem IsSuffix.characters {suffix : List Char} (isSuffix : IsSuffix suffix) :
    ∀ character ∈ suffix, isReferenceCharacter character = true ∨ character = '+' := by
  obtain ⟨release, build, rfl, releaseShape, buildShape⟩ := isSuffix
  intro character member
  rcases List.mem_append.mp member with inside | inside
  · rcases releaseShape with rfl | ⟨identifiers, rfl, dotted⟩
    · cases inside
    · rcases List.mem_cons.mp inside with rfl | named
      · exact .inl (by decide)
      · exact .inl (dotted.characters character named)
  · rcases buildShape with rfl | ⟨identifiers, rfl, dotted⟩
    · cases inside
    · rcases List.mem_cons.mp inside with rfl | named
      · exact .inr rfl
      · exact .inl (dotted.characters character named)

private theorem IsSuffix.sign {suffix : List Char} (isSuffix : IsSuffix suffix)
    (nonempty : suffix ≠ []) : '-' ∈ suffix ∨ '+' ∈ suffix := by
  obtain ⟨release, build, rfl, releaseShape, buildShape⟩ := isSuffix
  rcases releaseShape with rfl | ⟨identifiers, rfl, -⟩
  · rcases buildShape with rfl | ⟨identifiers, rfl, -⟩
    · exact absurd rfl nonempty
    · exact .inr (by simp)
  · exact .inl (by simp)

private theorem IsVersion.absent {origin suffix : List Char} (version : IsVersion origin suffix) :
    ':' ∉ origin := by
  obtain ⟨major, minor, patch, rfl, majorNumeric, minorNumeric, patchNumeric, isSuffix⟩ := version
  have behind : ':' ∉ suffix := by
    intro member
    rcases isSuffix.characters ':' member with allowed | plus
    · cases allowed
    · cases plus
  simp [not_mem_of_numeric majorNumeric ':' rfl,
    not_mem_of_numeric minorNumeric ':' rfl,
    not_mem_of_numeric patchNumeric ':' rfl, behind]

private theorem IsVersion.begins {origin suffix : List Char} (version : IsVersion origin suffix) :
    ∃ digit rest, origin = digit :: rest ∧ isAsciiDigit digit = true := by
  obtain ⟨major, minor, patch, rfl, majorNumeric, -⟩ := version
  cases major with
  | nil => exact absurd rfl majorNumeric.1
  | cons digit rest => exact ⟨digit, _, rfl, majorNumeric.2 digit List.mem_cons_self⟩

/-- A suffix makes the check fail. -/
theorem not_isExactSemver_of_suffix {origin suffix : List Char} (version : IsVersion origin suffix)
    (nonempty : suffix ≠ []) : isExactSemver origin = false := by
  rw [← Bool.not_eq_true, isExactSemver_iff]
  intro core
  obtain ⟨major, minor, patch, rfl, -, -, -, isSuffix⟩ := version
  rcases isSuffix.sign nonempty with dash | plus
  · exact core.absent '-' rfl (by decide) (by simp [dash])
  · exact core.absent '+' rfl (by decide) (by simp [plus])

/-! ## Addresses -/

private theorem splitOnceText_scheme {scheme : List Char} (listed : scheme ∈ pinnedSchemes)
    (rest : List Char) : splitOnceText "://".toList (scheme ++ ("://".toList ++ rest)) =
      some (scheme, rest) := by
  have clear : '/' ∉ scheme := by
    simp only [pinnedSchemes, List.mem_cons, List.not_mem_nil, or_false] at listed
    rcases listed with rfl | rfl | rfl | rfl <;> decide
  exact splitOnceText_append (by decide) clear ['/'] rest

theorem IsPinnedUrl.unique {origin rest other : List Char} (url : IsPinnedUrl origin rest)
    (otherUrl : IsPinnedUrl origin other) : rest = other := by
  obtain ⟨scheme, listed, rfl, -⟩ := url
  obtain ⟨otherScheme, otherListed, same, -⟩ := otherUrl
  have split := splitOnceText_scheme listed rest
  rw [same, splitOnceText_scheme otherListed other] at split
  exact (Prod.mk.inj (Option.some.inj split)).2.symm

private theorem IsPinnedUrl.colon {origin rest : List Char} (url : IsPinnedUrl origin rest) :
    ':' ∈ origin := by
  obtain ⟨scheme, -, rfl, -⟩ := url
  simp

/-- No address begins like an origin that is refused. -/
private theorem IsPinnedUrl.verified {origin rest : List Char} (url : IsPinnedUrl origin rest) :
    isUnverifiedOrigin origin = false := by
  obtain ⟨scheme, listed, rfl, -⟩ := url
  simp only [pinnedSchemes, List.mem_cons, List.not_mem_nil, or_false] at listed
  rcases listed with rfl | rfl | rfl | rfl <;>
    simp [isUnverifiedOrigin, unverifiedOriginPrefixes, List.isPrefixOf]

private theorem IsPinnedUrl.plain {origin rest : List Char} (url : IsPinnedUrl origin rest) :
    hasVersionPrecedenceOperator origin = false := by
  obtain ⟨scheme, listed, rfl, -⟩ := url
  simp only [pinnedSchemes, List.mem_cons, List.not_mem_nil, or_false] at listed
  rcases listed with rfl | rfl | rfl | rfl <;> rfl

private theorem IsVersion.plain {origin suffix : List Char} (version : IsVersion origin suffix) :
    hasVersionPrecedenceOperator origin = false := by
  obtain ⟨digit, rest, rfl, isDigit⟩ := version.begins
  rw [hasVersionPrecedenceOperator, List.head?_cons, Option.any_some, ← Bool.not_eq_true]
  intro operator
  have listed : digit ∈ ['^', '~', '>', '<', '='] := by simpa using operator
  simp only [List.mem_cons, List.not_mem_nil, or_false] at listed
  rcases listed with rfl | rfl | rfl | rfl | rfl <;> cases isDigit

/-- What is pinned is a version without a suffix, or an address with a revision or a tag. -/
theorem looksPinned_iff {origin : List Char} :
    looksPinned origin = true ↔ IsVersion origin [] ∨ ∃ rest, IsPinnedUrl origin rest := by
  rw [isVersion_nil_iff]
  constructor
  · intro pinned
    rw [looksPinned] at pinned
    split at pinned
    · cases pinned
    · split at pinned
      · next exact => exact .inl exact
      · split at pinned
        · cases pinned
        · next scheme rest parts =>
            split at pinned
            · cases pinned
            · next listed =>
                exact .inr ⟨rest, scheme, by simpa using listed, splitOnceText_eq_some parts, pinned⟩
  · rintro (exact | ⟨rest, url⟩)
    · rw [looksPinned, (isVersion_nil_iff.mpr exact).plain, exact]
      rfl
    · by_cases exact : isExactSemver origin = true
      · rw [looksPinned, url.plain, exact]
        rfl
      · have plain := url.plain
        obtain ⟨scheme, listed, rfl, pinned⟩ := url
        have member : pinnedSchemes.contains scheme = true := by simpa using listed
        rw [looksPinned, plain, if_neg (by decide), if_neg exact, splitOnceText_scheme listed]
        simp only [member, Bool.not_true, Bool.false_eq_true, if_false]
        exact pinned

/-! ## The policy -/

/-- The starts of private addresses, as they are looked for in every origin. -/
def addressPrefixes : List (List Char) := unverifiedOriginPrefixes.take 6

/-- A version is refused only for the numbers that it begins with. -/
private theorem IsVersion.unverified_iff {origin suffix : List Char}
    (version : IsVersion origin suffix) :
    isUnverifiedOrigin origin = true ↔ ∃ start ∈ addressPrefixes, start <+: origin := by
  have schemeless : containsText "://".toList origin = false := by
    rw [← Bool.not_eq_true, containsText_iff]
    rintro ⟨front, back, rfl⟩
    exact version.absent (by simp)
  obtain ⟨digit, rest, rfl, isDigit⟩ := version.begins
  have other : ∀ letter ∈ ['l', 'f', '.', '/'], (letter == digit) = false := by
    intro letter member
    rw [beq_eq_false_iff_ne]
    rintro rfl
    simp only [List.mem_cons, List.not_mem_nil, or_false] at member
    rcases member with rfl | rfl | rfl | rfl <;> cases isDigit
  simp only [List.mem_cons, List.not_mem_nil, or_false, forall_eq_or_imp, forall_eq] at other
  have split : unverifiedOriginPrefixes =
      addressPrefixes ++ ["localhost".toList, "file://".toList] := rfl
  rw [isUnverifiedOrigin, schemeless, split, List.any_append]
  simp [List.isPrefixOf, other]

theorem isVersion_unique {origin suffix : List Char} (version : IsVersion origin suffix)
    (bare : IsVersion origin []) : suffix = [] := by
  by_contra nonempty
  have failed := not_isExactSemver_of_suffix version nonempty
  rw [isVersion_nil_iff.mp bare] at failed
  cases failed

/-- What is recorded: a bare version that does not begin like a private address, and every pinned
address. -/
theorem accepted_iff {origin : List Char} :
    isUnverifiedOrigin origin = false ∧ looksPinned origin = true ↔
      (IsVersion origin [] ∧ ∀ start ∈ addressPrefixes, ¬start <+: origin) ∨
        ∃ rest, IsPinnedUrl origin rest := by
  rw [looksPinned_iff]
  constructor
  · rintro ⟨verified, version | url⟩
    · refine .inl ⟨version, fun start member begins => ?_⟩
      rw [version.unverified_iff.mpr ⟨start, member, begins⟩] at verified
      cases verified
    · exact .inr url
  · rintro (⟨version, clear⟩ | ⟨rest, url⟩)
    · refine ⟨?_, .inl version⟩
      rw [← Bool.not_eq_true, version.unverified_iff]
      rintro ⟨start, member, begins⟩
      exact clear start member begins
    · exact ⟨url.verified, .inr ⟨rest, url⟩⟩

theorem accepted_inPolicy_iff {origin : List Char} :
    (isUnverifiedOrigin origin = false ∧ looksPinned origin = true ↔ InPolicy origin) ↔
      (∀ suffix, IsVersion origin suffix →
        suffix = [] ∧ ∀ start ∈ addressPrefixes, ¬start <+: origin) ∧
      ∀ rest, IsPinnedUrl origin rest → isPublicHost (hostOf rest) = true := by
  rw [accepted_iff]
  constructor
  · intro same
    constructor
    · intro suffix version
      rcases same.mpr (.inl ⟨suffix, version⟩) with ⟨bare, clear⟩ | ⟨rest, url⟩
      · exact ⟨isVersion_unique version bare, clear⟩
      · exact absurd url.colon version.absent
    · intro rest url
      rcases same.mp (.inr ⟨rest, url⟩) with ⟨suffix, version⟩ | ⟨other, otherUrl, isPublic⟩
      · exact absurd url.colon version.absent
      · exact url.unique otherUrl ▸ isPublic
  · rintro ⟨versions, urls⟩
    constructor
    · rintro (⟨version, -⟩ | ⟨rest, url⟩)
      · exact .inl ⟨[], version⟩
      · exact .inr ⟨rest, url, urls rest url⟩
    · rintro (⟨suffix, version⟩ | ⟨rest, url, -⟩)
      · obtain ⟨rfl, clear⟩ := versions suffix version
        exact .inl ⟨version, clear⟩
      · exact .inr ⟨rest, url⟩

/-- A well-formed request is recorded or surfaced. -/
private theorem classifyDependency_cases (intent : ToolIntent) (arguments : Value)
    (name origin : String) (named : (arguments.get? "name").bind Value.asStr? = some name)
    (believed : looksLikeCrateName name.toList = true)
    (given : (arguments.get? "origin").bind Value.asStr? = some origin) (nonempty : origin ≠ "") :
    (isUnverifiedOrigin origin.toList = false ∧ looksPinned origin.toList = true ∧
      ∃ request, classifyDependency intent arguments = .request request ∧
        request.name = name ∧ request.origin = origin) ∨
    (¬(isUnverifiedOrigin origin.toList = false ∧ looksPinned origin.toList = true) ∧
      ∃ proposed, classifyDependency intent arguments = .decision proposed) := by
  have nameNonempty : name ≠ "" := by
    rintro rfl
    cases believed
  rw [classifyDependency, named, given]
  simp only [believed, Bool.not_true, Bool.false_eq_true, if_false]
  cases unverified : isUnverifiedOrigin origin.toList with
  | true => exact .inr ⟨by simp, _, rfl⟩
  | false =>
      cases pinned : looksPinned origin.toList with
      | true => exact .inl ⟨rfl, rfl, _, rfl, rfl, rfl⟩
      | false => exact .inr ⟨by simp, _, rfl⟩

/-- A well-formed request is recorded if its origin is within the policy and surfaced otherwise,
exactly where the origin is no version with a suffix, no version that begins like a private address
and no pinned address of a private host. -/
theorem classifyDependency_inPolicy_iff (intent : ToolIntent) {arguments : Value}
    {name origin : String} (named : (arguments.get? "name").bind Value.asStr? = some name)
    (believed : looksLikeCrateName name.toList = true)
    (given : (arguments.get? "origin").bind Value.asStr? = some origin) (nonempty : origin ≠ "") :
    ((InPolicy origin.toList → ∃ request, classifyDependency intent arguments = .request request ∧
        request.name = name ∧ request.origin = origin) ∧
      (¬InPolicy origin.toList →
        ∃ proposed, classifyDependency intent arguments = .decision proposed)) ↔
    (∀ suffix, IsVersion origin.toList suffix →
        suffix = [] ∧ ∀ start ∈ addressPrefixes, ¬start <+: origin.toList) ∧
      ∀ rest, IsPinnedUrl origin.toList rest → isPublicHost (hostOf rest) = true := by
  rw [← accepted_inPolicy_iff]
  rcases classifyDependency_cases intent arguments name origin named believed given nonempty with
    ⟨verified, pinned, request, classified, recorded⟩ | ⟨refused, proposed, classified⟩
  · simp only [verified, pinned, and_self, true_iff]
    constructor
    · rintro ⟨-, surfaced⟩
      by_contra outside
      obtain ⟨proposed, decided⟩ := surfaced outside
      rw [classified] at decided
      cases decided
    · intro inside
      exact ⟨fun _ => ⟨request, classified, recorded⟩, fun outside => absurd inside outside⟩
  · rw [iff_false_left refused]
    constructor
    · rintro ⟨recorded, -⟩ inside
      obtain ⟨request, decided, -⟩ := recorded inside
      rw [classified] at decided
      cases decided
    · intro outside
      exact ⟨fun inside => absurd inside outside, fun _ => ⟨proposed, classified⟩⟩

/-- A request for a crate. -/
def requestOf (name origin : String) : ToolIntent :=
  ⟨"call_1", none, "request_dependency", .object [("name", .string name), ("origin", .string origin)]⟩

theorem classifyDependency_inPolicy_serde :
    ((InPolicy "1.0.200".toList → ∃ request, classifyDependency (requestOf "serde" "1.0.200")
          (requestOf "serde" "1.0.200").arguments = .request request ∧
        request.name = "serde" ∧ request.origin = "1.0.200") ∧
      (¬InPolicy "1.0.200".toList →
        ∃ proposed, classifyDependency (requestOf "serde" "1.0.200")
          (requestOf "serde" "1.0.200").arguments = .decision proposed)) ↔
    (∀ suffix, IsVersion "1.0.200".toList suffix →
        suffix = [] ∧ ∀ start ∈ addressPrefixes, ¬start <+: "1.0.200".toList) ∧
      ∀ rest, IsPinnedUrl "1.0.200".toList rest → isPublicHost (hostOf rest) = true :=
  classifyDependency_inPolicy_iff (requestOf "serde" "1.0.200") rfl (by decide) rfl (by decide)

/-- A revision at the loopback address is recorded. -/
theorem loopback_recorded :
    (∃ request, classifyDependency (requestOf "serde" "https://127.0.0.1/serde?rev=0123456")
        (requestOf "serde" "https://127.0.0.1/serde?rev=0123456").arguments = .request request) ∧
      ¬InPolicy "https://127.0.0.1/serde?rev=0123456".toList := by
  have url : IsPinnedUrl "https://127.0.0.1/serde?rev=0123456".toList
      "127.0.0.1/serde?rev=0123456".toList := ⟨"https".toList, by decide, by decide, by decide⟩
  constructor
  · rcases classifyDependency_cases (requestOf "serde" "https://127.0.0.1/serde?rev=0123456")
        (requestOf "serde" "https://127.0.0.1/serde?rev=0123456").arguments "serde"
        "https://127.0.0.1/serde?rev=0123456" rfl (by decide) rfl (by decide) with
      ⟨-, -, request, classified, -⟩ | ⟨refused, -⟩
    · exact ⟨request, classified⟩
    · exact absurd (accepted_iff.mpr (.inr ⟨_, url⟩)) refused
  · rintro (⟨suffix, version⟩ | ⟨rest, other, isPublic⟩)
    · exact version.absent url.colon
    · rw [← url.unique other] at isPublic
      revert isPublic
      decide

end Kvist.Authoring
