import Kvist.Authoring.Apply
import Kvist.FileSystem.Resolution
import Kvist.Json.Readable

/-!
# What the applier writes

An effect that is applied changes the one file that its destination names, and no link leads there.
-/

set_option autoImplicit false

namespace Kvist.Authoring

open FileSystem
open Json (Value)
open Kvist.Runtime (ToolIntent)

/-! ## The staged file is read back -/

theorem StagedIntent.toValue_readable {fromSlice : List UInt8 → Option Value}
    (reads : Json.Reads fromSlice) {staged : StagedIntent}
    (version : staged.schemaVersion ≤ maxU32) : Json.Readable fromSlice staged.toValue := by
  have number := Json.readable_natural reads
    (Nat.lt_of_le_of_lt version (by decide : maxU32 < 2 ^ 64))
  have distinct : fields.Nodup := by decide
  rw [StagedIntent.toValue]
  cases staged.replacement with
  | none =>
      refine Json.readable_object (distinct.sublist (List.sublist_append_left _ ["replacement"])) ?_
      intro member inside
      simp only [Option.toList_none, List.map_nil, List.append_nil, List.mem_cons,
        List.not_mem_nil, or_false] at inside
      rcases inside with rfl | rfl | rfl | rfl | rfl | rfl <;>
        first | exact number | exact Json.readable_string _
  | some replacement =>
      refine Json.readable_object distinct ?_
      intro member inside
      simp only [Option.toList_some, List.map_cons, List.map_nil, List.cons_append,
        List.nil_append, List.mem_cons, List.not_mem_nil, or_false] at inside
      rcases inside with rfl | rfl | rfl | rfl | rfl | rfl | rfl <;>
        first | exact number | exact Json.readable_string _

theorem StagedIntent.fromValue_toValue {staged : StagedIntent}
    (version : staged.schemaVersion ≤ maxU32) :
    StagedIntent.fromValue staged.toValue = some staged := by
  have number : asVersion (Json.natural staged.schemaVersion) = some staged.schemaVersion := by
    simp [Json.natural, asVersion, version]
  obtain ⟨schemaVersion, callId, tool, destination, contentIdentity, content, replacement⟩ := staged
  cases replacement with
  | none =>
      simp [StagedIntent.toValue, fromValue, fromMembers, fields, number, textArgument,
        Value.asStr?, optionalText, Value.get?]
  | some replacement =>
      simp [StagedIntent.toValue, fromValue, fromMembers, fields, number, textArgument,
        Value.asStr?, optionalText, Value.get?]

theorem StagedIntent.depth_toValue (staged : StagedIntent) : staged.toValue.depth < 128 := by
  cases replaced : staged.replacement <;>
    simp [StagedIntent.toValue, replaced, Json.natural, Value.depth, Value.depthOfMembers]

section

variable {sha256Hex : List UInt8 → String} {fromSlice : List UInt8 → Option Value}
variable {tree after : FileTree String} {root : String}

theorem fromValue_toVec (reads : Json.Reads fromSlice) {staged : StagedIntent}
    (version : staged.schemaVersion ≤ maxU32) :
    (fromSlice staged.toVec).bind StagedIntent.fromValue = some staged := by
  have read := reads.encode (StagedIntent.toValue_readable reads version)
  rw [if_pos staged.depth_toValue] at read
  rw [StagedIntent.toVec, read, Option.bind_some, StagedIntent.fromValue_toValue version]

/-- A regular file with these bytes stands at the end of the path. -/
structure HoldsFile (tree : FileTree String) (path : List (PathStep String)) (bytes : List UInt8) :
    Prop where
  entry : tree.lstatPath path = .ok (.file bytes)
  content : tree.read path = .ok bytes

theorem readStagedIntent_ok (reads : Json.Reads fromSlice) {staged read : StagedIntent}
    (version : staged.schemaVersion ≤ maxU32) {path : List (PathStep String)}
    (holds : HoldsFile tree path staged.toVec)
    (accepted : readStagedIntent fromSlice tree path = .ok read) : read = staged := by
  rw [readStagedIntent, holds.entry] at accepted
  simp only [holds.content, fromValue_toVec reads version] at accepted
  split at accepted
  · cases accepted
  · exact (Except.ok.inj accepted).symm

theorem readStagedIntent_staged (reads : Json.Reads fromSlice) {staged : StagedIntent}
    (version : staged.schemaVersion ≤ maxU32) {path : List (PathStep String)}
    (holds : HoldsFile tree path staged.toVec)
    (small : staged.toVec.length ≤ maxStagedIntentBytes) :
    readStagedIntent fromSlice tree path = .ok staged := by
  rw [readStagedIntent, holds.entry]
  simp only [if_neg (Nat.not_lt.mpr small), holds.content, fromValue_toVec reads version]

/-! ## The way to the destination -/

theorem componentPath_concat (root : String) (names : List String) (name : String) :
    componentPath root (names ++ [name]) = componentPath root names ++ [.down name] := by
  simp [componentPath, downs]

@[simp] theorem componentPath_nil (root : String) : componentPath root [] = pathSteps root.toList :=
  List.append_nil _

theorem symlinkMetadata_ok_iff {names : List String} {name : String} {entry : Node String} :
    symlinkMetadata tree root (names ++ [name]) = .ok entry ↔
      ∃ location, tree.openDirectory (componentPath root names) = .ok location ∧
        tree.node (location ++ [name]) = some entry := by
  rw [symlinkMetadata, componentPath_concat, FileTree.lstatPath_down, FileTree.lstat_eq_ok_iff]

theorem verifyNoFollowAncestors_cons {names rest : List String} {name : String}
    (verified : verifyNoFollowAncestors tree root names (name :: rest) = .ok ()) :
    (∃ location, tree.openDirectory (componentPath root names) = .ok location ∧
      tree.node (location ++ [name]) = some .directory) ∧
    verifyNoFollowAncestors tree root (names ++ [name]) rest = .ok () := by
  rw [verifyNoFollowAncestors] at verified
  split at verified
  · cases verified
  · cases verified
  · rename_i entry
    exact ⟨symlinkMetadata_ok_iff.mp entry, verified⟩
  · cases verified

theorem verifyNoFollowAncestors_ok {names rest : List String} {location : Location String}
    (verified : verifyNoFollowAncestors tree root names rest = .ok ())
    (opened : tree.openDirectory (componentPath root names) = .ok location) :
    tree.openDirectory (componentPath root (names ++ rest)) = .ok (location ++ rest) ∧
      ∀ front back, rest = front ++ back → front ≠ [] →
        tree.node (location ++ front) = some .directory := by
  induction rest generalizing names location with
  | nil =>
      rw [List.append_nil, List.append_nil]
      refine ⟨opened, fun front back whole nonempty => ?_⟩
      exact absurd (List.append_eq_nil_iff.mp whole.symm).1 nonempty
  | cons name rest ih =>
      obtain ⟨⟨found, same, child⟩, others⟩ := verifyNoFollowAncestors_cons verified
      obtain rfl : location = found := Except.ok.inj (opened.symm.trans same)
      have next := tree.openDirectory_down opened child
      rw [← componentPath_concat] at next
      obtain ⟨reached, directories⟩ := ih others next
      rw [List.append_assoc, List.append_assoc] at reached
      refine ⟨reached, fun front back whole nonempty => ?_⟩
      cases front with
      | nil => exact absurd rfl nonempty
      | cons first front =>
          obtain ⟨rfl, tail⟩ := List.cons.inj whole
          cases front with
          | nil => exact child
          | cons second front =>
              have below := directories (second :: front) back tail (List.cons_ne_nil _ _)
              rwa [List.append_assoc] at below

/-! ## One file is written -/

/-- The file of these names below the component root is new or has other bytes, and nothing else
is changed. -/
structure AppliedTo (tree after : FileTree String) (root : String) (base names : List String)
    (content : List UInt8) : Prop where
  component : tree.openDirectory (pathSteps root.toList) = .ok base
  ancestors : ∀ front back, names = front ++ back → front ≠ [] → back ≠ [] →
    tree.node (base ++ front) = some .directory
  before : tree.node (base ++ names) = none ∨ ∃ old, tree.node (base ++ names) = some (.file old)
  after : ∀ location, after.node location =
    if location = base ++ names then some (.file content) else tree.node location

theorem writeResolved_ok {front : List String} {name : String} {content : List UInt8}
    {fresh : Bool} (verified : verifyNoFollowAncestors tree root [] front = .ok ())
    (regular : ∀ location, tree.openDirectory (componentPath root front) = .ok location →
      tree.node (location ++ [name]) = none ∨
        ∃ old, tree.node (location ++ [name]) = some (.file old))
    (written : writeResolved tree root (front ++ [name]) content fresh = .ok after) :
    ∃ base, AppliedTo tree after root base (front ++ [name]) content := by
  rw [writeResolved, List.dropLast_concat, List.getLast?_concat, Option.getD_some] at written
  have put : tree.writeFile (componentPath root front) name content fresh = .ok after := by
    generalize tree.writeFile (componentPath root front) name content fresh = result at written
    cases result with
    | error error => cases written
    | ok tree => exact congrArg _ (Except.ok.inj written)
  obtain ⟨directory, opened, isDirectory, legal, leaf, -, rfl⟩ :=
    tree.putEntry_eq_ok_iff.mp put
  have component : ∃ base, tree.openDirectory (pathSteps root.toList) = .ok base := by
    cases front with
    | nil =>
        rw [componentPath_nil] at opened
        exact ⟨directory, opened⟩
    | cons first rest =>
        obtain ⟨⟨base, reached, -⟩, -⟩ := verifyNoFollowAncestors_cons verified
        rw [componentPath_nil] at reached
        exact ⟨base, reached⟩
  obtain ⟨base, component⟩ := component
  obtain ⟨reached, directories⟩ :=
    verifyNoFollowAncestors_ok verified ((componentPath_nil root).symm ▸ component)
  rw [List.nil_append] at reached
  obtain rfl : directory = base ++ front := Except.ok.inj (opened.symm.trans reached)
  refine ⟨base, component, ?_, ?_, ?_⟩
  · intro above below whole aboveNonempty belowNonempty
    obtain ⟨last, rfl⟩ : ∃ last, below = last ++ [name] := by
      obtain ⟨last, final, rfl⟩ := (List.eq_nil_or_concat below).resolve_left belowNonempty
      rw [List.concat_eq_append, ← List.append_assoc] at whole
      obtain ⟨-, same⟩ := List.append_inj' whole rfl
      rw [List.concat_eq_append, ← same]
      exact ⟨last, rfl⟩
    rw [← List.append_assoc] at whole
    exact directories above last (List.append_inj' whole rfl).1 aboveNonempty
  · rw [← List.append_assoc]
    exact regular _ opened
  · intro location
    rw [FileTree.node_put, List.append_assoc]

/-! ## Each kind of effect -/

theorem lstat_notFound {path : List (PathStep String)} {name : String}
    {location : Location String} (opened : tree.openDirectory path = .ok location)
    (absent : tree.lstat path name = .error .notFound) : tree.node (location ++ [name]) = none := by
  rw [FileTree.lstat, opened] at absent
  change (if tree.legal name = true then _ else _) = _ at absent
  split at absent
  · split at absent
    · cases absent
    · assumption
  · cases absent

/-- The entry at a destination that may be written. -/
theorem regular_destination {front : List String} {name : String}
    (metadata : symlinkMetadata tree root (front ++ [name]) = .error .notFound ∨
      ∃ old, symlinkMetadata tree root (front ++ [name]) = .ok (.file old))
    (location : Location String)
    (opened : tree.openDirectory (componentPath root front) = .ok location) :
    tree.node (location ++ [name]) = none ∨
      ∃ old, tree.node (location ++ [name]) = some (.file old) := by
  rcases metadata with absent | ⟨old, present⟩
  · rw [symlinkMetadata, componentPath_concat, FileTree.lstatPath_down] at absent
    exact .inl (lstat_notFound opened absent)
  · obtain ⟨other, same, entry⟩ := symlinkMetadata_ok_iff.mp present
    obtain rfl : location = other := Except.ok.inj (opened.symm.trans same)
    exact .inr ⟨old, entry⟩

theorem proveIdentity_ok_iff {callId : String} {bytes : List UInt8} {expected : String} :
    proveIdentity sha256Hex callId bytes expected = .ok () ↔
      identityOf sha256Hex bytes = expected := by
  rw [proveIdentity, ensure_ok_iff, beq_iff_eq]

theorem applyWrite_ok {staged : StagedIntent} {front : List String} {name : String}
    (verified : verifyNoFollowAncestors tree root [] front = .ok ())
    (applied : applyWrite sha256Hex tree root staged (front ++ [name]) = .ok after) :
    identityOf sha256Hex (bytesOf staged.content) = staged.contentIdentity ∧
      ∃ base, AppliedTo tree after root base (front ++ [name]) (bytesOf staged.content) := by
  rw [applyWrite, bind_unit_ok_iff, proveIdentity_ok_iff] at applied
  obtain ⟨proven, written⟩ := applied
  refine ⟨proven, ?_⟩
  split at written
  · cases written
  · rename_i old metadata
    exact writeResolved_ok verified (regular_destination (.inr ⟨old, metadata⟩)) written
  · cases written
  · rename_i metadata
    exact writeResolved_ok verified (regular_destination (.inl metadata)) written
  · cases written

/-- The bytes that an edit makes of a file, and the identity that is proven of them. -/
structure Edited (sha256Hex : List UInt8 → String) (staged : StagedIntent)
    (current result : List UInt8) : Prop where
  replaced : ∃ replacement, staged.replacement = some replacement ∧
    replaceSingleOccurrence current (bytesOf replacement) (bytesOf staged.content) = some result
  proven : identityOf sha256Hex result = staged.contentIdentity

theorem editedContent_ok {staged : StagedIntent} {names : List String} {current : List UInt8}
    (edited : editedContent tree root staged names = .ok current) :
    tree.read (componentPath root names) = .ok current ∧
      ∃ old, symlinkMetadata tree root names = .ok (.file old) := by
  rw [editedContent] at edited
  split at edited
  · cases edited
  · cases edited
  · rename_i old metadata
    refine ⟨?_, old, metadata⟩
    generalize tree.read (componentPath root names) = result at edited
    cases result with
    | error error => cases edited
    | ok bytes => exact congrArg _ (Except.ok.inj edited)
  · cases edited

theorem applyEdit_ok {staged : StagedIntent} {front : List String} {name : String}
    (verified : verifyNoFollowAncestors tree root [] front = .ok ())
    (applied : applyEdit sha256Hex tree root staged (front ++ [name]) = .ok after) :
    ∃ current result, tree.read (componentPath root (front ++ [name])) = .ok current ∧
      Edited sha256Hex staged current result ∧
      ∃ base, AppliedTo tree after root base (front ++ [name])
        (Json.utf8 (Utf8.fromUtf8Lossy result)) := by
  rw [applyEdit] at applied
  split at applied
  · cases applied
  · rename_i replacement carried
    rw [bind_ok_iff] at applied
    obtain ⟨current, edited, applied⟩ := applied
    obtain ⟨content, old, metadata⟩ := editedContent_ok edited
    rw [bind_unit_ok_iff] at applied
    obtain ⟨-, applied⟩ := applied
    rw [bind_unit_ok_iff] at applied
    obtain ⟨-, applied⟩ := applied
    split at applied
    · cases applied
    · rename_i result replaced
      rw [bind_unit_ok_iff, proveIdentity_ok_iff] at applied
      obtain ⟨proven, applied⟩ := applied
      rw [bind_unit_ok_iff] at applied
      exact ⟨current, result, content, ⟨⟨replacement, carried, replaced⟩, proven⟩,
        writeResolved_ok verified (regular_destination (.inr ⟨old, metadata⟩)) applied.2⟩

/-! ## Destinations -/

/-- The names below a writable root, of nothing protected. -/
structure Writable (names : List String) : Prop where
  root : ∃ root ∈ writableRoots, ∃ rest, names = root :: rest
  unprotected : ∀ name, names.getLast? = some name → name ∉ protectedDocuments

theorem normalizeDestination_ok {destination : String} {names : List String}
    (normalized : normalizeDestination destination {} = .ok names) : Writable names := by
  simp only [normalizeDestination, bind_unit_ok_iff, ensure_ok_iff] at normalized
  obtain ⟨-, -, normalized⟩ := normalized
  rw [bind_ok_iff] at normalized
  obtain ⟨parts, -, normalized⟩ := normalized
  simp only [bind_unit_ok_iff, ensure_ok_iff] at normalized
  obtain ⟨-, unprotected, -, below, same⟩ := normalized
  obtain rfl : parts = names := Except.ok.inj same
  constructor
  · cases parts with
    | nil => cases below
    | cons first rest =>
        rw [List.head?_cons, Option.any_some, List.contains_iff_mem] at below
        exact ⟨first, below, rest, rfl⟩
  · intro name last
    rw [last, Option.any_some, Bool.not_eq_true', List.contains_eq_mem, decide_eq_false_iff_not]
      at unprotected
    exact unprotected

theorem Writable.exists_concat {names : List String} (writable : Writable names) :
    ∃ front name, names = front ++ [name] := by
  obtain ⟨first, -, rest, rfl⟩ := writable.root
  refine ⟨_, _, (List.dropLast_append_getLast (List.cons_ne_nil first rest)).symm⟩

end

end Kvist.Authoring
