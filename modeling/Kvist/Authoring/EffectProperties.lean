import Kvist.Authoring.ApplyProperties
import Kvist.Json.Parser
import Mathlib.Tactic.SplitIfs

/-!
# An authorized effect is applied

What the broker binds into an effect, what the host stages of it, and what the applier makes of the
staged file when the tree may have changed since.
-/

set_option autoImplicit false

namespace Kvist.Authoring

open FileSystem
open Json (Value)
open Kvist.Runtime (ToolIntent)

section

variable {sha256Hex : List UInt8 → String} {fromSlice : List UInt8 → Option Value}
variable {tree : FileTree String} {root : String} {policy : BrokerPolicy} {intent : ToolIntent}
variable {effect : CheckedIntent}

/-! ## Authorization -/

theorem stringArg_ok {arguments : Value} {key value : String} {allowEmpty : Bool}
    (accepted : stringArg arguments key allowEmpty = .ok value) :
    textArgument arguments key = some value ∧ (allowEmpty = false → value ≠ "") := by
  rw [stringArg] at accepted
  split at accepted
  · rename_i text present
    split at accepted
    · rename_i nonempty
      obtain rfl : text = value := Except.ok.inj accepted
      refine ⟨by rw [textArgument, present]; rfl, fun strict => ?_⟩
      rw [strict, Bool.or_false, bne_iff_ne] at nonempty
      exact nonempty
    · cases accepted
  · cases accepted
  · cases accepted

theorem contentIdentityBytes_ok {bytes : List UInt8} {identity : String × Nat}
    (accepted : contentIdentityBytes sha256Hex bytes policy = .ok identity) :
    bytes.length ≤ policy.maxContentBytes ∧
      identity = (identityOf sha256Hex bytes, bytes.length) := by
  rw [contentIdentityBytes, bind_unit_ok_iff, ensure_ok_iff, decide_eq_true_eq] at accepted
  exact ⟨accepted.1, (Except.ok.inj accepted.2).symm⟩

/-- What the broker has found out about a write. -/
structure AuthorizedWrite (sha256Hex : List UInt8 → String) (tree : FileTree String) (root : String)
    (policy : BrokerPolicy) (intent : ToolIntent) (effect : CheckedIntent) (content : String)
    (names : List String) : Prop where
  argument : textArgument intent.arguments "content" = some content
  nonempty : content ≠ ""
  intentName : intent.name = "write_file"
  normalized : ∃ destination, textArgument intent.arguments "destination" = some destination ∧
    normalizeDestination destination policy = .ok names
  classified : ∃ op, classifyWriteDestination tree root names = .ok op
  small : (bytesOf content).length ≤ policy.maxContentBytes
  tool : effect.tool = "write_file"
  callId : effect.callId = intent.id
  destination : effect.destination = displayParts names
  identity : effect.contentIdentity = identityOf sha256Hex (bytesOf content)
  replacement : effect.replacement = none
  size : effect.contentBytes = (bytesOf content).length

theorem authorizeWrite_ok (intentName : intent.name = "write_file")
    (authorized : authorizeWrite sha256Hex tree root intent policy = .ok effect) :
    ∃ content names, AuthorizedWrite sha256Hex tree root policy intent effect content names := by
  rw [authorizeWrite, bind_ok_iff] at authorized
  obtain ⟨destination, named, authorized⟩ := authorized
  rw [bind_ok_iff] at authorized
  obtain ⟨content, argument, authorized⟩ := authorized
  rw [bind_ok_iff] at authorized
  obtain ⟨names, normalized, authorized⟩ := authorized
  rw [bind_ok_iff] at authorized
  obtain ⟨op, classified, authorized⟩ := authorized
  rw [bind_ok_iff] at authorized
  obtain ⟨identity, bounded, same⟩ := authorized
  obtain ⟨text, nonempty⟩ := stringArg_ok argument
  obtain ⟨small, rfl⟩ := contentIdentityBytes_ok bounded
  obtain rfl := Except.ok.inj same
  exact ⟨content, names, text, nonempty rfl, intentName,
    ⟨destination, (stringArg_ok named).1, normalized⟩, ⟨op, classified⟩, small,
    rfl, rfl, rfl, rfl, rfl, rfl⟩

/-- What the broker has found out about an edit. -/
structure AuthorizedEdit (sha256Hex : List UInt8 → String) (tree : FileTree String) (root : String)
    (policy : BrokerPolicy) (intent : ToolIntent) (effect : CheckedIntent)
    (content replacement : String) (names : List String) (existing result : List UInt8) :
    Prop where
  argument : textArgument intent.arguments "content" = some content
  intentName : intent.name = "edit_file"
  target : textArgument intent.arguments "replace" = some replacement
  needed : replacement ≠ ""
  normalized : ∃ destination, textArgument intent.arguments "destination" = some destination ∧
    normalizeDestination destination policy = .ok names
  edited : ∃ destination, editedFile tree root destination names = .ok existing
  bounded : existing.length ≤ policy.maxContentBytes
  once : countOccurrences existing (bytesOf replacement) = 1
  replaced : replaceSingleOccurrence existing (bytesOf replacement) (bytesOf content) = some result
  small : result.length ≤ policy.maxContentBytes
  tool : effect.tool = "edit_file"
  callId : effect.callId = intent.id
  destination : effect.destination = displayParts names
  identity : effect.contentIdentity = identityOf sha256Hex result
  replacement : effect.replacement = some replacement
  size : effect.contentBytes = result.length

theorem authorizeEdit_ok (intentName : intent.name = "edit_file")
    (authorized : authorizeEdit sha256Hex tree root intent policy = .ok effect) :
    ∃ content replacement names existing result, AuthorizedEdit sha256Hex tree root policy intent
      effect content replacement names existing result := by
  rw [authorizeEdit, bind_ok_iff] at authorized
  obtain ⟨destination, named, authorized⟩ := authorized
  rw [bind_ok_iff] at authorized
  obtain ⟨replacement, target, authorized⟩ := authorized
  rw [bind_ok_iff] at authorized
  obtain ⟨content, argument, authorized⟩ := authorized
  rw [bind_ok_iff] at authorized
  obtain ⟨names, normalized, authorized⟩ := authorized
  rw [bind_ok_iff] at authorized
  obtain ⟨existing, edited, authorized⟩ := authorized
  rw [bind_unit_ok_iff, ensure_ok_iff, decide_eq_true_eq] at authorized
  obtain ⟨bounded, authorized⟩ := authorized
  rw [bind_unit_ok_iff, ensure_ok_iff, beq_iff_eq] at authorized
  obtain ⟨once, authorized⟩ := authorized
  split at authorized
  · cases authorized
  · rename_i result replaced
    rw [bind_ok_iff] at authorized
    obtain ⟨identity, identified, same⟩ := authorized
    obtain ⟨small, rfl⟩ := contentIdentityBytes_ok identified
    obtain rfl := Except.ok.inj same
    exact ⟨content, replacement, names, existing, result, (stringArg_ok argument).1, intentName,
      (stringArg_ok target).1, (stringArg_ok target).2 rfl,
      ⟨destination, (stringArg_ok named).1, normalized⟩, ⟨destination, edited⟩, bounded, once,
      replaced, small, rfl, rfl, rfl, rfl, rfl, rfl⟩

theorem checkManifestDecision_not_effect {arguments : Value} :
    checkManifestDecision arguments ≠ some (.effect effect) := by
  intro decided
  rw [checkManifestDecision] at decided
  split at decided
  · cases decided
  · split at decided
    · split at decided <;> cases decided
    · cases decided

theorem effectOf_eq_effect {result : Except String CheckedIntent}
    (same : effectOf result = .effect effect) : result = .ok effect := by
  cases result with
  | error reason => cases same
  | ok checked => rw [BrokerOutcome.effect.inj same]

theorem classifyIntent_effect
    (classified : classifyIntent tree root sha256Hex intent policy = .effect effect) :
    (∃ content names,
      AuthorizedWrite sha256Hex tree root policy intent effect content names) ∨
    ∃ content replacement names existing result, AuthorizedEdit sha256Hex tree root policy intent
      effect content replacement names existing result := by
  rw [classifyIntent] at classified
  split at classified
  · cases classified
  · split at classified
    · rename_i intentName
      split at classified
      · rename_i outcome decided
        exact absurd (classified ▸ decided) checkManifestDecision_not_effect
      · split at classified
        · cases classified
        · exact .inl (authorizeWrite_ok intentName (effectOf_eq_effect classified))
    · split at classified
      · rename_i intentName
        split at classified
        · rename_i outcome decided
          exact absurd (classified ▸ decided) checkManifestDecision_not_effect
        · split at classified
          · cases classified
          · exact .inr (authorizeEdit_ok intentName (effectOf_eq_effect classified))
      · cases classified

/-! ## Staging -/

theorem stagedContent_authorized
    (classified : classifyIntent tree root sha256Hex intent policy = .effect effect) :
    ∃ content, textArgument intent.arguments "content" = some content ∧
      stagedContent effect intent = .ok content := by
  rcases classifyIntent_effect classified with
    ⟨content, names, authorized⟩ | ⟨content, replacement, names, existing, result, authorized⟩
  · refine ⟨content, authorized.argument, ?_⟩
    have given : (some content).filter (· != "") = some content := by
      rw [Option.filter_some, if_pos (bne_iff_ne.mpr authorized.nonempty)]
    rw [stagedContent, if_pos authorized.tool, authorized.argument, given]
  · refine ⟨content, authorized.argument, ?_⟩
    rw [stagedContent, if_neg (by rw [authorized.tool]; decide), if_pos authorized.tool,
      authorized.argument]

theorem failedIo_eq_ok_iff {Result : Type} {operation path : String}
    {result : Except Errno Result} {value : Result} :
    failedIo operation path result = .ok value ↔ result = .ok value := by
  cases result with
  | error error => simp [failedIo]
  | ok other => simp [failedIo]

theorem ensureRealDirectory_grows {parts : List String} {operation : String}
    {prepared : FileTree String}
    (ensured : ensureRealDirectory tree root parts operation = .ok prepared) :
    tree.GrowsTo prepared ∧ ∀ location content, tree.node location = some (.file content) →
      prepared.node location = some (.file content) := by
  rw [ensureRealDirectory] at ensured
  split at ensured
  · obtain rfl := Except.ok.inj ensured
    exact ⟨.refl _, fun _ _ same => same⟩
  · cases ensured
  · rw [failedIo_eq_ok_iff] at ensured
    obtain ⟨directory, opened, isDirectory, legal, leaf, vacant, rfl⟩ :=
      tree.putEntry_eq_ok_iff.mp ensured
    refine ⟨tree.growsTo_put (.inl (vacant rfl)), fun location content present => ?_⟩
    rw [FileTree.node_put, if_neg, present]
    intro same
    rw [same, vacant rfl] at present
    cases present
  · cases ensured

/-- A file that is new stands at the end of its path. -/
theorem writeFile_holds {path : List (PathStep String)} {name : String} {content : List UInt8}
    {written : FileTree String} (fresh : tree.writeFile path name content true = .ok written) :
    HoldsFile written (path ++ [.down name]) content ∧ tree.GrowsTo written ∧
      ∀ location bytes, tree.node location = some (.file bytes) →
        written.node location = some (.file bytes) := by
  obtain ⟨directory, opened, isDirectory, legal, leaf, vacant, rfl⟩ :=
    tree.putEntry_eq_ok_iff.mp fresh
  have grows : tree.GrowsTo (tree.put directory name (.file content) isDirectory legal leaf) :=
    tree.growsTo_put (.inl (vacant rfl))
  have reached := grows.openDirectory opened
  have entry : (tree.put directory name (.file content) isDirectory legal leaf).node
      (directory ++ [name]) = some (.file content) := by
    rw [FileTree.node_put, if_pos rfl]
  refine ⟨⟨?_, ?_⟩, grows, fun location bytes present => ?_⟩
  · rw [FileTree.lstatPath_down, FileTree.lstat_eq_ok_iff]
    exact ⟨directory, reached, entry⟩
  · exact FileTree.read_down _ reached entry
  · rw [FileTree.node_put, if_neg, present]
    intro same
    rw [same, vacant rfl] at present
    cases present

theorem stageIntent_files {sessionId : String} {content : String}
    (staged : stagedContent effect intent = .ok content) :
    (∀ location bytes, tree.node location = some (.file bytes) →
      (stageIntent sha256Hex tree root sessionId effect intent).2.node location =
        some (.file bytes)) ∧
    ∀ names, (stageIntent sha256Hex tree root sessionId effect intent).1 = .ok names →
      HoldsFile (stageIntent sha256Hex tree root sessionId effect intent).2
        (componentPath root names) (stagedIntent effect content).toVec := by
  rw [stageIntent, staged]
  dsimp only
  cases ensured : ensureRealDirectory tree root stagingParts
      "create authoring staging directory" with
  | error error => exact ⟨fun _ _ same => same, fun names accepted => nomatch accepted⟩
  | ok prepared =>
      obtain ⟨-, kept⟩ := ensureRealDirectory_grows ensured
      dsimp only
      generalize created : prepared.writeFile (componentPath root stagingParts) _ _ true = result
      cases result with
      | error error => exact ⟨kept, fun names accepted => nomatch accepted⟩
      | ok written =>
          obtain ⟨holds, -, others⟩ := writeFile_holds created
          refine ⟨fun location bytes present => others _ _ (kept _ _ present), ?_⟩
          intro names accepted
          obtain rfl := Except.ok.inj accepted
          rw [componentPath_concat]
          exact holds

/-! ## Application -/

/-- Of the component root at the base, one regular file below a writable root is changed, no link
leads there, and its bytes are those of the identity. -/
structure AppliedAsAuthorized (sha256Hex : List UInt8 → String) (before after : FileTree String)
    (base names : List String) (identity : String) : Prop where
  below : ∃ root ∈ writableRoots, ∃ rest, rest ≠ [] ∧ names = root :: rest
  unprotected : ∀ name, names.getLast? = some name → name ∉ protectedDocuments
  ancestors : ∀ front back, names = front ++ back → front ≠ [] → back ≠ [] →
    before.node (base ++ front) = some .directory
  regular : before.node (base ++ names) = none ∨
    ∃ old, before.node (base ++ names) = some (.file old)
  only : ∀ location, location ≠ base ++ names → after.node location = before.node location
  bytes : ∃ content, after.node (base ++ names) = some (.file content) ∧
    identityOf sha256Hex content = identity

/-- What an edit makes of the file at the destination is UTF-8. -/
def EditsText (tree : FileTree String) (root : String) (effect : CheckedIntent) (content : String)
    (names : List String) : Prop :=
  ∀ replacement current result, effect.replacement = some replacement →
    tree.read (componentPath root names) = .ok current →
    replaceSingleOccurrence current (bytesOf replacement) (bytesOf content) = some result →
      ∃ text, Json.utf8 text = result

/-- No text that the lossy reader makes of other bytes has their digest. -/
def LossyDistinct (sha256Hex : List UInt8 → String) : Prop :=
  ∀ bytes, sha256Hex (Json.utf8 (Utf8.fromUtf8Lossy bytes)) = sha256Hex bytes →
    Json.utf8 (Utf8.fromUtf8Lossy bytes) = bytes

theorem identityOf_eq_iff {left right : List UInt8} :
    identityOf sha256Hex left = identityOf sha256Hex right ↔
      sha256Hex left = sha256Hex right := by
  rw [identityOf, identityOf]
  constructor
  · intro same
    have lists := congrArg String.toList same
    rw [String.toList_append, String.toList_append] at lists
    exact String.toList_inj.mp (List.append_cancel_left lists)
  · intro same
    rw [same]

theorem AppliedTo.asAuthorized_iff {after : FileTree String} {base names : List String}
    {content : List UInt8} {identity : String} (writable : Writable names)
    (applied : AppliedTo tree after root base names content) :
    AppliedAsAuthorized sha256Hex tree after base names identity ↔
      names.length ≠ 1 ∧ identityOf sha256Hex content = identity := by
  have entry : after.node (base ++ names) = some (.file content) := by
    rw [applied.after, if_pos rfl]
  constructor
  · intro asAuthorized
    obtain ⟨first, -, rest, nonempty, rfl⟩ := asAuthorized.below
    obtain ⟨bytes, present, proven⟩ := asAuthorized.bytes
    rw [entry] at present
    obtain rfl : content = bytes := Node.file.inj (Option.some.inj present)
    refine ⟨?_, proven⟩
    intro single
    exact nonempty (List.eq_nil_of_length_eq_zero (Nat.succ.inj single))
  · intro conditions
    obtain ⟨deeper, proven⟩ := conditions
    refine ⟨?_, writable.unprotected, applied.ancestors, applied.before, ?_, content, entry, proven⟩
    · obtain ⟨first, member, rest, rfl⟩ := writable.root
      refine ⟨first, member, rest, ?_, rfl⟩
      intro empty
      rw [empty] at deeper
      exact deeper rfl
    · intro location other
      rw [applied.after, if_neg other]

theorem applyStaged_ok {staged : StagedIntent} {after : FileTree String}
    (applied : applyStaged sha256Hex tree root staged = .ok after) :
    ∃ names, normalizeDestination staged.destination {} = .ok names ∧
      verifyNoFollowAncestors tree root [] names.dropLast = .ok () ∧
      (staged.tool = "write_file" ∧ applyWrite sha256Hex tree root staged names = .ok after ∨
        staged.tool = "edit_file" ∧ applyEdit sha256Hex tree root staged names = .ok after) := by
  rw [applyStaged, bind_ok_iff] at applied
  obtain ⟨names, resolved, applied⟩ := applied
  rw [resolvedDestination, bind_unit_ok_iff] at resolved
  obtain ⟨-, resolved⟩ := resolved
  rw [bind_unit_ok_iff, bind_ok_iff] at resolved
  obtain ⟨-, parts, normalized, resolved⟩ := resolved
  rw [bind_unit_ok_iff] at resolved
  obtain ⟨verified, same⟩ := resolved
  obtain rfl : parts = names := Except.ok.inj same
  refine ⟨parts, ?_, verified, ?_⟩
  · generalize normalizeDestination staged.destination {} = result at normalized
    cases result with
    | error reason => cases normalized
    | ok other => exact congrArg _ (Except.ok.inj normalized)
  · split at applied
    · rename_i tool
      exact .inl ⟨tool, applied⟩
    · split at applied
      · rename_i tool
        exact .inr ⟨tool, applied⟩
      · cases applied

/-- An applied effect is as authorized exactly where its destination is below a writable root, not
one itself, and an edit makes text. -/
theorem applyStaged_asAuthorized_iff (distinct : LossyDistinct sha256Hex) {content : String}
    {after : FileTree String} (plain : effect.tool = "write_file" → effect.replacement = none)
    (applied : applyStaged sha256Hex tree root (stagedIntent effect content) = .ok after) :
    ∃ base names, tree.openDirectory (pathSteps root.toList) = .ok base ∧
      normalizeDestination effect.destination {} = .ok names ∧
      (AppliedAsAuthorized sha256Hex tree after base names effect.contentIdentity ↔
        names.length ≠ 1 ∧ EditsText tree root effect content names) := by
  obtain ⟨names, normalized, verified, kinds⟩ := applyStaged_ok applied
  have writable := normalizeDestination_ok normalized
  obtain ⟨front, name, rfl⟩ := writable.exists_concat
  rw [List.dropLast_concat] at verified
  rcases kinds with ⟨tool, written⟩ | ⟨tool, written⟩
  · obtain ⟨proven, base, appliedTo⟩ := applyWrite_ok verified written
    refine ⟨base, front ++ [name], appliedTo.component, normalized, ?_⟩
    rw [appliedTo.asAuthorized_iff writable]
    constructor
    · intro conditions
      refine ⟨conditions.1, fun replacement current result carried => ?_⟩
      rw [plain tool] at carried
      cases carried
    · exact fun conditions => ⟨conditions.1, proven⟩
  · obtain ⟨current, result, read, edited, base, appliedTo⟩ := applyEdit_ok verified written
    refine ⟨base, front ++ [name], appliedTo.component, normalized, ?_⟩
    rw [appliedTo.asAuthorized_iff writable]
    obtain ⟨replacement, carried, replaced⟩ := edited.replaced
    have bound : effect.contentIdentity = identityOf sha256Hex result := edited.proven.symm
    rw [bound, identityOf_eq_iff]
    constructor
    · intro conditions
      refine ⟨conditions.1, fun other otherCurrent otherResult otherCarried otherRead same => ?_⟩
      obtain rfl : replacement = other := Option.some.inj (carried.symm.trans otherCarried)
      obtain rfl : current = otherCurrent := Except.ok.inj (read.symm.trans otherRead)
      obtain rfl : result = otherResult := Option.some.inj (replaced.symm.trans same)
      exact ⟨_, distinct result conditions.2⟩
    · intro conditions
      refine ⟨conditions.1, ?_⟩
      have text := conditions.2 replacement current result carried read replaced
      rw [(Utf8.utf8_fromUtf8Lossy_iff result).mpr text]

/-- Staging changes no file, a failed application changes nothing, and an application that succeeds
on any tree with the staged file is as authorized, below the directory that the component root
opens, exactly where the destination is below a writable root, not one itself, and an edit makes
text. -/
theorem stage_apply_asAuthorized_iff (reads : Json.Reads fromSlice)
    (distinct : LossyDistinct sha256Hex) {staging : FileTree String} {sessionId : String}
    (classified : classifyIntent tree root sha256Hex intent policy = .effect effect) :
    (∀ location bytes, staging.node location = some (.file bytes) →
      (stageIntent sha256Hex staging root sessionId effect intent).2.node location =
        some (.file bytes)) ∧
    ∃ content, textArgument intent.arguments "content" = some content ∧
      ∀ names, (stageIntent sha256Hex staging root sessionId effect intent).1 = .ok names →
        HoldsFile (stageIntent sha256Hex staging root sessionId effect intent).2
          (componentPath root names) (stagedIntent effect content).toVec ∧
        ∀ (current : FileTree String) (intentFile : List (PathStep String)),
          HoldsFile current intentFile (stagedIntent effect content).toVec →
          (∀ error, (applyIntent sha256Hex fromSlice current root intentFile).1 = .error error →
            (applyIntent sha256Hex fromSlice current root intentFile).2 = current) ∧
          ((applyIntent sha256Hex fromSlice current root intentFile).1 = .ok () →
            ∃ base names, current.openDirectory (pathSteps root.toList) = .ok base ∧
              normalizeDestination effect.destination {} = .ok names ∧
              (AppliedAsAuthorized sha256Hex current
                  (applyIntent sha256Hex fromSlice current root intentFile).2 base names
                  effect.contentIdentity ↔
                names.length ≠ 1 ∧ EditsText current root effect content names)) := by
  obtain ⟨content, argument, given⟩ := stagedContent_authorized classified
  obtain ⟨kept, holds⟩ := @stageIntent_files sha256Hex staging root intent effect sessionId _ given
  refine ⟨kept, content, argument, fun names staged => ⟨holds names staged, ?_⟩⟩
  intro current intentFile present
  have plain : effect.tool = "write_file" → effect.replacement = none := by
    intro tool
    rcases classifyIntent_effect classified with ⟨_, _, authorized⟩ | ⟨_, _, _, _, _, authorized⟩
    · exact authorized.replacement
    · rw [authorized.tool] at tool
      exact absurd tool (by decide)
  rw [applyIntent]
  cases computed : readStagedIntent fromSlice current intentFile >>=
      applyStaged sha256Hex current root with
  | error error => exact ⟨fun _ _ => rfl, fun accepted => nomatch accepted⟩
  | ok after =>
      refine ⟨fun error failed => (nomatch failed), fun _ => ?_⟩
      rw [bind_ok_iff] at computed
      obtain ⟨read, accepted, applied⟩ := computed
      have version : (stagedIntent effect content).schemaVersion ≤ maxU32 := by
        change 1 ≤ 4294967295
        decide
      obtain rfl := readStagedIntent_ok reads version present accepted
      exact applyStaged_asAuthorized_iff distinct plain applied

end

/-! ## Bytes that are no text -/

private def binaryTree : FileTree String :=
  .ofEntries (fun name => name != "")
    [(["c"], .directory), (["c", "src"], .directory), (["c", ".kvist"], .directory),
      (["c", "src", "a.bin"], .file [0xff, 0x61])] (by decide)

private def binaryDigest (bytes : List UInt8) : String :=
  if bytes = [0xff, 0x62] then "8007c0cd7c10b626e9e1ef4124d7603638d648662ba4001854c9268990b2bd21"
  else if bytes = [0xef, 0xbf, 0xbd, 0x62] then
    "7753e4ff7e1124c6c3dc2a41a0a975571c22c1df739db58674683b24ba913e45"
  else if bytes = bytesOf "call-1" then
    "5d7963c4f471e142f5a72214a9666fb164718f9ba1066a7862ac1c5041887940"
  else String.ofList ('-' :: bytes.map fun byte => Char.ofNat byte.toNat)

private def binaryIntent : ToolIntent where
  id := "call-1"
  providerId := none
  name := "edit_file"
  arguments := .object [("destination", .string "src/a.bin"), ("replace", .string "a"),
    ("content", .string "b")]

private def binaryEffect : CheckedIntent where
  callId := "call-1"
  tool := "edit_file"
  op := .modify
  destination := "src/a.bin"
  contentIdentity := "sha256:8007c0cd7c10b626e9e1ef4124d7603638d648662ba4001854c9268990b2bd21"
  replacement := some "a"
  contentBytes := 2
  purpose := "authoring: call-1"

private theorem binaryEffect_classified :
    classifyIntent binaryTree "/c" binaryDigest binaryIntent {} = .effect binaryEffect := by
  decide +kernel

private theorem binaryDigest_injective : Function.Injective binaryDigest := by
  have dash : ∀ {bytes : List UInt8} {digest : String}, digest.toList.head? ≠ some '-' →
      String.ofList ('-' :: bytes.map fun byte => Char.ofNat byte.toNat) ≠ digest := by
    intro bytes digest other same
    rw [← same, String.toList_ofList] at other
    exact other rfl
  have character : Function.Injective fun byte : UInt8 => Char.ofNat byte.toNat := by
    intro left right same
    have valid : ∀ byte : UInt8, byte.toNat.isValidChar := fun byte =>
      .inl (Nat.lt_trans byte.toNat_lt (by decide))
    have scalar : ∀ byte : UInt8,
        Char.ofNat byte.toNat = Char.ofNatAux byte.toNat (valid byte) :=
      fun byte => dif_pos (valid byte)
    dsimp only at same
    rw [scalar, scalar] at same
    have codes : left.toNat = right.toNat := congrArg Char.toNat same
    exact UInt8.toNat_inj.mp codes
  intro left right same
  rw [binaryDigest, binaryDigest] at same
  split_ifs at same
  all_goals first
    | (subst_vars; rfl)
    | exact absurd same (by decide)
    | exact absurd same (dash (by decide))
    | exact absurd same.symm (dash (by decide))
    | exact List.map_injective_iff.mpr character (List.cons.inj (String.ofList_injective same)).2

private theorem binaryDigest_distinct : LossyDistinct binaryDigest :=
  fun _ same => binaryDigest_injective same

theorem stage_apply_asAuthorized_iff_binary :
    (∀ location bytes, binaryTree.node location = some (.file bytes) →
      (stageIntent binaryDigest binaryTree "/c" "s" binaryEffect binaryIntent).2.node location =
        some (.file bytes)) ∧
    ∃ content, textArgument binaryIntent.arguments "content" = some content ∧
      ∀ names, (stageIntent binaryDigest binaryTree "/c" "s" binaryEffect binaryIntent).1 =
          .ok names →
        HoldsFile (stageIntent binaryDigest binaryTree "/c" "s" binaryEffect binaryIntent).2
          (componentPath "/c" names) (stagedIntent binaryEffect content).toVec ∧
        ∀ (current : FileTree String) (intentFile : List (PathStep String)),
          HoldsFile current intentFile (stagedIntent binaryEffect content).toVec →
          (∀ error, (applyIntent binaryDigest Json.parseSlice current "/c" intentFile).1 =
              .error error →
            (applyIntent binaryDigest Json.parseSlice current "/c" intentFile).2 = current) ∧
          ((applyIntent binaryDigest Json.parseSlice current "/c" intentFile).1 = .ok () →
            ∃ base names, current.openDirectory (pathSteps "/c".toList) = .ok base ∧
              normalizeDestination binaryEffect.destination {} = .ok names ∧
              (AppliedAsAuthorized binaryDigest current
                  (applyIntent binaryDigest Json.parseSlice current "/c" intentFile).2 base names
                  binaryEffect.contentIdentity ↔
                names.length ≠ 1 ∧ EditsText current "/c" binaryEffect content names)) :=
  stage_apply_asAuthorized_iff Json.parseSlice_reads binaryDigest_distinct binaryEffect_classified

private def binaryStaged : FileTree String :=
  (stageIntent binaryDigest binaryTree "/c" "s" binaryEffect binaryIntent).2

private theorem binaryStaged_names :
    (stageIntent binaryDigest binaryTree "/c" "s" binaryEffect binaryIntent).1 =
      .ok [".kvist", "authoring", "s_5d7963c4f471e142.json"] :=
  eq_ok_of_toOption (by decide)

private theorem applyIntent_binaryStaged :
    ∃ after, applyIntent binaryDigest Json.parseSlice binaryStaged "/c"
        (componentPath "/c" [".kvist", "authoring", "s_5d7963c4f471e142.json"]) =
          (.ok (), after) ∧
      after.node ["c", "src", "a.bin"] = some (.file [0xef, 0xbf, 0xbd, 0x62]) := by
  have given : stagedContent binaryEffect binaryIntent = .ok "b" :=
    eq_ok_of_toOption (by decide)
  have holds := (@stageIntent_files binaryDigest binaryTree "/c" binaryIntent binaryEffect "s" _
    given).2 _ binaryStaged_names
  have read := readStagedIntent_staged Json.parseSlice_reads (by decide) holds (by decide +kernel)
  have entry : (applyStaged binaryDigest binaryStaged "/c"
      (stagedIntent binaryEffect "b")).toOption.bind (fun after => after.node ["c", "src", "a.bin"]) =
        some (.file [0xef, 0xbf, 0xbd, 0x62]) := by
    decide +kernel
  rw [applyIntent]
  generalize applied : applyStaged binaryDigest binaryStaged "/c" (stagedIntent binaryEffect "b") =
    result at entry
  have computed : readStagedIntent Json.parseSlice binaryStaged
      (componentPath "/c" [".kvist", "authoring", "s_5d7963c4f471e142.json"]) >>=
        applyStaged binaryDigest binaryStaged "/c" = result := by
    rw [binaryStaged, read, ok_bind]
    exact applied
  rw [computed]
  cases result with
  | error error => cases entry
  | ok after => exact ⟨after, rfl, entry⟩

/-- A file that is no text is written with other bytes than those that were authorized. -/
theorem binaryEffect_not_asAuthorized :
    classifyIntent binaryTree "/c" binaryDigest binaryIntent {} = .effect binaryEffect ∧
    (stageIntent binaryDigest binaryTree "/c" "s" binaryEffect binaryIntent).1 =
      .ok [".kvist", "authoring", "s_5d7963c4f471e142.json"] ∧
    ∃ after, applyIntent binaryDigest Json.parseSlice binaryStaged "/c"
        (componentPath "/c" [".kvist", "authoring", "s_5d7963c4f471e142.json"]) =
          (.ok (), after) ∧
      after.node ["c", "src", "a.bin"] = some (.file [0xef, 0xbf, 0xbd, 0x62]) ∧
      identityOf binaryDigest [0xef, 0xbf, 0xbd, 0x62] ≠ binaryEffect.contentIdentity := by
  obtain ⟨after, applied, entry⟩ := applyIntent_binaryStaged
  exact ⟨binaryEffect_classified, binaryStaged_names, after, applied, entry, by decide⟩

end Kvist.Authoring
