import Kvist.Authoring.Apply
import Kvist.Authoring.EffectProperties

/-!
# The effects of one turn

The effects of a plan are staged and applied one after another, and each staged file is removed
after its effect. Beside it stands what the tools promise to do with the files.
-/

set_option autoImplicit false

namespace Kvist.Authoring

open FileSystem
open Json (Value)
open Kvist.Runtime (ToolIntent)

section

variable (sha256Hex : List UInt8 → String) (fromSlice : List UInt8 → Option Value)
variable (root sessionId : String)

def withoutStaged (tree : FileTree String) (names : List String) : FileTree String :=
  match tree.removeFile (componentPath root names.dropLast) (names.getLast?.getD "") with
  | .ok removed => removed
  | .error _ => tree

def runEffect (intents : List ToolIntent) (tree : FileTree String) (effect : CheckedIntent) :
    Except Error (FileTree String) :=
  match intents.find? fun intent => intent.id == effect.callId with
  | none => .error (.authoringEffectFailed effect.callId
      "the authorized effect lost its originating model intent")
  | some raw =>
      match stageIntent sha256Hex tree root sessionId effect raw with
      | (.error error, _) => .error error
      | (.ok names, staged) =>
          match applyIntent sha256Hex fromSlice staged root (componentPath root names) with
          | (.error error, _) => .error error
          | (.ok (), applied) => .ok (withoutStaged root applied names)

def applyAuthoringEffects (intents : List ToolIntent) :
    FileTree String → List CheckedIntent → Except Error (FileTree String)
  | tree, [] => .ok tree
  | tree, effect :: rest => do
      let next ← runEffect sha256Hex fromSlice root sessionId intents tree effect
      applyAuthoringEffects intents next rest

end

/-! ## What the tools promise -/

abbrev Files := Location String → Option (Node String)

/-- The file that an intent names, with the content of a write, or with the one occurrence
replaced. -/
def execute (base : Location String) (files : Files) (intent : ToolIntent) : Option Files := do
  let destination ← textArgument intent.arguments "destination"
  let names ← (normalizeDestination destination {}).toOption
  let content ← textArgument intent.arguments "content"
  if intent.name = "write_file" then
    return Function.update files (base ++ names) (some (.file (bytesOf content)))
  else
    let replacement ← textArgument intent.arguments "replace"
    match files (base ++ names) with
    | some (.file current) =>
        if countOccurrences current (bytesOf replacement) = 1 then
          let result ← replaceSingleOccurrence current (bytesOf replacement) (bytesOf content)
          return Function.update files (base ++ names) (some (.file result))
        else none
    | _ => none

def executeAll (base : Location String) : Files → List ToolIntent → Option Files
  | files, [] => some files
  | files, intent :: rest => (execute base files intent).bind fun next => executeAll base next rest

/-- The intents that the effects of a plan come from. -/
def intentsOf (intents : List ToolIntent) (effects : List CheckedIntent) : List ToolIntent :=
  effects.filterMap fun effect => intents.find? fun intent => intent.id == effect.callId

end Kvist.Authoring

/-! ## A plan is carried out in its order

The effects of a plan are authorized against one tree and applied to another that changes with each
of them. They all succeed as long as no edit follows another effect on its file, and then the files
are those that the tools promise.
-/

namespace Kvist.Authoring

open FileSystem
open Json (Value)
open Kvist.Runtime (ToolIntent)

/-! ## A destination is normalized once -/

/-- The names of plain path components. -/
def Plain (names : List String) : Prop :=
  ∀ name ∈ names, name.toList ≠ [] ∧ '/' ∉ name.toList ∧ name.toList ≠ ['.'] ∧
    name.toList ≠ ['.', '.']

theorem normalParts_ok {destination : String} {parts : List Component} {names : List String}
    (normal : normalParts destination parts = .ok names) : parts = names.map .normal := by
  induction parts generalizing names with
  | nil => rw [← Except.ok.inj normal, List.map_nil]
  | cons part rest ih =>
      cases part with
      | normal name =>
          rw [normalParts, bind_ok_iff] at normal
          obtain ⟨others, below, same⟩ := normal
          rw [← Except.ok.inj same, ih below, List.map_cons]
      | rootDir => cases normal
      | curDir => cases normal
      | parentDir => cases normal

theorem normalParts_map (destination : String) (names : List String) :
    normalParts destination (names.map .normal) = .ok names := by
  induction names with
  | nil => rfl
  | cons name rest ih =>
      rw [List.map_cons, normalParts, ih]
      rfl

theorem componentOf_eq_normal {part : List Char} {name : String}
    (same : componentOf part = some (.normal name)) :
    name.toList = part ∧ part ≠ ['.'] ∧ part ≠ ['.', '.'] := by
  rw [componentOf] at same
  split at same
  · cases same
  · split at same
    · cases same
    · rename_i here up
      rw [← Component.normal.inj (Option.some.inj same), String.toList_ofList]
      exact ⟨rfl, here, up⟩

/-- The names of a relative path without `.` and `..` are plain ones. -/
theorem components_plain {text : List Char} {names : List String}
    (normal : components text = names.map .normal) : Plain names := by
  intro name member
  have inside : Component.normal name ∈ components text := by
    rw [normal]
    exact List.mem_map_of_mem member
  rcases List.mem_append.mp inside with front | back
  · split at front
    · cases List.mem_singleton.mp front
    · split at front
      · cases List.mem_singleton.mp front
      · cases front
  · obtain ⟨part, present, same⟩ := List.mem_filterMap.mp back
    obtain ⟨rfl, here, up⟩ := componentOf_eq_normal same
    obtain ⟨nonempty, clear⟩ := Paths.split_proper text _ present
    exact ⟨nonempty, clear, here, up⟩

theorem displayParts_components {names : List String} (plain : Plain names)
    (nonempty : names ≠ []) :
    isAbsolute (displayParts names).toList = false ∧
      components (displayParts names).toList = names.map .normal := by
  have proper : Paths.Proper (names.map String.toList) := by
    intro part member
    obtain ⟨name, present, rfl⟩ := List.mem_map.mp member
    exact ⟨(plain name present).1, (plain name present).2.1⟩
  have mapped : names.map String.toList ≠ [] := by simpa using nonempty
  have split : Paths.split (displayParts names).toList = names.map String.toList := by
    rw [displayParts, String.toList_ofList]
    exact Paths.split_join proper mapped
  have relative : isAbsolute (displayParts names).toList = false := by
    cases names with
    | nil => exact absurd rfl nonempty
    | cons first rest =>
        obtain ⟨filled, clear, -⟩ := plain first List.mem_cons_self
        obtain ⟨character, others, letters⟩ := List.exists_cons_of_ne_nil filled
        have other : character ≠ '/' := by
          intro same
          rw [letters, same] at clear
          exact clear List.mem_cons_self
        rw [isAbsolute, displayParts, String.toList_ofList, List.map_cons, letters]
        cases rest with
        | nil => simpa using other
        | cons second rest => simpa [List.intercalate_cons_cons] using other
  refine ⟨relative, ?_⟩
  have head : (names.map String.toList).head? ≠ some ['.'] := by
    cases names with
    | nil => exact absurd rfl nonempty
    | cons first rest =>
        rw [List.map_cons, List.head?_cons]
        exact fun same => (plain first List.mem_cons_self).2.2.1 (Option.some.inj same)
  rw [components, relative, split, if_neg (by decide), if_neg head, List.nil_append,
    List.filterMap_map]
  have each : ∀ name ∈ names, (componentOf ∘ String.toList) name = some (.normal name) := by
    intro name member
    obtain ⟨-, -, here, up⟩ := plain name member
    rw [Function.comp_apply, componentOf, if_neg here, if_neg up, String.ofList_toList]
  clear proper mapped split relative head
  induction names with
  | nil => rfl
  | cons name rest ih =>
      rw [List.filterMap_cons_some (each name List.mem_cons_self), List.map_cons]
      cases rest with
      | nil => rfl
      | cons second rest =>
          rw [ih (fun other member => plain other (List.mem_cons_of_mem _ member))
            (List.cons_ne_nil _ _) fun other member => each other (List.mem_cons_of_mem _ member)]

theorem normalizeDestination_displayParts {destination : String} {names : List String}
    (normalized : normalizeDestination destination {} = .ok names) :
    normalizeDestination (displayParts names) {} = .ok names := by
  simp only [normalizeDestination, bind_unit_ok_iff, ensure_ok_iff] at normalized
  obtain ⟨-, -, normalized⟩ := normalized
  rw [bind_ok_iff] at normalized
  obtain ⟨parts, normal, normalized⟩ := normalized
  simp only [bind_unit_ok_iff, ensure_ok_iff] at normalized
  obtain ⟨filled, unprotected, shallow, below, same⟩ := normalized
  obtain rfl : parts = names := Except.ok.inj same
  have nonempty : parts ≠ [] := by simpa using filled
  obtain ⟨relative, shown⟩ :=
    displayParts_components (components_plain (normalParts_ok normal)) nonempty
  simp only [normalizeDestination, bind_unit_ok_iff, ensure_ok_iff]
  refine ⟨?_, by rw [relative]; rfl, ?_⟩
  · rw [bne_iff_ne]
    intro empty
    rw [empty] at shown
    exact nonempty (List.map_eq_nil_iff.mp shown.symm)
  · rw [bind_ok_iff]
    refine ⟨parts, by rw [shown, normalParts_map], ?_⟩
    simp only [bind_unit_ok_iff, ensure_ok_iff]
    exact ⟨filled, unprotected, shallow, below, rfl⟩

section

variable {sha256Hex : List UInt8 → String} {fromSlice : List UInt8 → Option Value}
variable {tree current : FileTree String} {root sessionId : String} {base : Location String}
variable {intent : ToolIntent} {effect : CheckedIntent}

/-! ## Destinations of authorized effects -/

theorem verifyNoFollowAncestors_grows (grows : tree.GrowsTo current) {names rest : List String}
    (verified : verifyNoFollowAncestors tree root names rest = .ok ()) :
    verifyNoFollowAncestors current root names rest = .ok () := by
  induction rest generalizing names with
  | nil => rfl
  | cons name rest ih =>
      obtain ⟨⟨location, opened, child⟩, others⟩ := verifyNoFollowAncestors_cons verified
      have entry : symlinkMetadata current root (names ++ [name]) = .ok .directory :=
        symlinkMetadata_ok_iff.mpr
          ⟨location, grows.openDirectory opened, grows.directory _ child⟩
      rw [verifyNoFollowAncestors, entry]
      exact ih others

theorem lstat_notFound_legal {path : List (PathStep String)} {name : String}
    {location : Location String} (opened : tree.openDirectory path = .ok location)
    (absent : tree.lstat path name = .error .notFound) : tree.legal name = true := by
  rw [FileTree.lstat, opened] at absent
  change (if tree.legal name = true then _ else _) = _ at absent
  split at absent
  · assumption
  · cases absent

/-- A file may be written here. -/
structure Place (tree : FileTree String) (root : String) (base : Location String)
    (front : List String) (name : String) : Prop where
  opened : tree.openDirectory (componentPath root front) = .ok (base ++ front)
  legal : tree.legal name = true
  regular : tree.node (base ++ front ++ [name]) = none ∨
    ∃ old, tree.node (base ++ front ++ [name]) = some (.file old)

theorem Place.grows {front : List String} {name : String} (place : Place tree root base front name)
    (grows : tree.GrowsTo current)
    (regular : current.node (base ++ front ++ [name]) = none ∨
      ∃ old, current.node (base ++ front ++ [name]) = some (.file old)) :
    Place current root base front name :=
  ⟨grows.openDirectory place.opened, by rw [grows.legal, place.legal], regular⟩

theorem verified_opened (component : tree.openDirectory (pathSteps root.toList) = .ok base)
    {front : List String} (verified : verifyNoFollowAncestors tree root [] front = .ok ()) :
    tree.openDirectory (componentPath root front) = .ok (base ++ front) := by
  have opened := (verifyNoFollowAncestors_ok verified
    ((componentPath_nil root).symm ▸ component)).1
  rwa [List.nil_append] at opened

theorem AuthorizedWrite.place {policy : BrokerPolicy} {content : String} {front : List String}
    {name : String} (authorized : AuthorizedWrite sha256Hex tree root policy intent effect content
      (front ++ [name]))
    (component : tree.openDirectory (pathSteps root.toList) = .ok base)
    (verified : verifyNoFollowAncestors tree root [] front = .ok ()) :
    Place tree root base front name := by
  have opened := verified_opened component verified
  obtain ⟨op, classified⟩ := authorized.classified
  rw [classifyWriteDestination] at classified
  split at classified
  · cases classified
  · rename_i old metadata
    obtain ⟨location, same, entry⟩ := symlinkMetadata_ok_iff.mp metadata
    obtain rfl := Except.ok.inj (opened.symm.trans same)
    have present : tree.node (base ++ front ++ [name]) ≠ none := by
      rw [entry]
      exact Option.some_ne_none _
    exact ⟨opened, tree.named _ _ present, .inr ⟨old, entry⟩⟩
  · cases classified
  · rename_i absent
    rw [symlinkMetadata, componentPath_concat, FileTree.lstatPath_down] at absent
    exact ⟨opened, lstat_notFound_legal opened absent, .inl (lstat_notFound opened absent)⟩
  · cases classified

theorem editedFile_ok {destination : String} {names : List String} {existing : List UInt8}
    (edited : editedFile tree root destination names = .ok existing) :
    tree.read (componentPath root names) = .ok existing ∧
      ∃ old, symlinkMetadata tree root names = .ok (.file old) := by
  rw [editedFile] at edited
  split at edited
  · cases edited
  · rename_i old metadata
    refine ⟨?_, old, metadata⟩
    split at edited
    · rename_i content read
      rw [read, Except.ok.inj edited]
    · cases edited
  · cases edited
  · cases edited

theorem AuthorizedEdit.entry {policy : BrokerPolicy} {content replacement : String}
    {front : List String} {name : String} {existing result : List UInt8}
    (authorized : AuthorizedEdit sha256Hex tree root policy intent effect content replacement
      (front ++ [name]) existing result)
    (component : tree.openDirectory (pathSteps root.toList) = .ok base)
    (verified : verifyNoFollowAncestors tree root [] front = .ok ()) :
    tree.node (base ++ front ++ [name]) = some (.file existing) := by
  have opened := verified_opened component verified
  obtain ⟨destination, edited⟩ := authorized.edited
  obtain ⟨read, old, metadata⟩ := editedFile_ok edited
  obtain ⟨location, same, entry⟩ := symlinkMetadata_ok_iff.mp metadata
  obtain rfl := Except.ok.inj (opened.symm.trans same)
  have content := FileTree.read_down _ opened entry
  rw [componentPath_concat, content] at read
  rw [entry, Except.ok.inj read]

/-! ## One effect is applied -/

theorem writeResolved_place {front : List String} {name : String} {fresh : Bool}
    (place : Place tree root base front name) (content : List UInt8)
    (vacant : fresh = true → tree.node (base ++ front ++ [name]) = none) :
    ∃ after, writeResolved tree root (front ++ [name]) content fresh = .ok after ∧
      tree.GrowsTo after ∧ ∀ location, after.node location =
        if location = base ++ front ++ [name] then some (.file content)
        else tree.node location := by
  have isDirectory := (tree.openDirectory_eq_ok_iff.mp place.opened).2
  have leaf : tree.node (base ++ front ++ [name]) ≠ some .directory := by
    rcases place.regular with absent | ⟨old, present⟩
    · rw [absent]
      intro same
      cases same
    · rw [present]
      intro same
      cases same
  refine ⟨tree.put (base ++ front) name (.file content) isDirectory place.legal leaf, ?_, ?_, ?_⟩
  · rw [writeResolved, List.dropLast_concat, List.getLast?_concat, Option.getD_some,
      failedIo_eq_ok_iff]
    exact tree.putEntry_eq_ok_iff.mpr
      ⟨base ++ front, place.opened, isDirectory, place.legal, leaf, vacant, rfl⟩
  · apply tree.growsTo_put
    rcases place.regular with absent | present
    · exact .inl absent
    · exact .inr ⟨present, content, rfl⟩
  · intro location
    rw [FileTree.node_put]

theorem symlinkMetadata_place {front : List String} {name : String}
    (place : Place tree root base front name) :
    (tree.node (base ++ front ++ [name]) = none ∧
        symlinkMetadata tree root (front ++ [name]) = .error .notFound) ∨
      ∃ old, tree.node (base ++ front ++ [name]) = some (.file old) ∧
        symlinkMetadata tree root (front ++ [name]) = .ok (.file old) := by
  rcases place.regular with absent | ⟨old, present⟩
  · refine .inl ⟨absent, ?_⟩
    rw [symlinkMetadata, componentPath_concat, FileTree.lstatPath_down, FileTree.lstat, place.opened]
    change (if tree.legal name = true then _ else _) = _
    rw [if_pos place.legal, absent]
  · exact .inr ⟨old, present, symlinkMetadata_ok_iff.mpr ⟨_, place.opened, present⟩⟩

theorem applyWrite_place {staged : StagedIntent} {front : List String} {name : String}
    (place : Place tree root base front name)
    (proven : identityOf sha256Hex (bytesOf staged.content) = staged.contentIdentity) :
    ∃ after, applyWrite sha256Hex tree root staged (front ++ [name]) = .ok after ∧
      tree.GrowsTo after ∧ ∀ location, after.node location =
        if location = base ++ front ++ [name] then some (.file (bytesOf staged.content))
        else tree.node location := by
  rw [applyWrite, proveIdentity_ok_iff.mpr proven, ok_bind]
  rcases symlinkMetadata_place place with ⟨absent, metadata⟩ | ⟨old, present, metadata⟩
  · rw [metadata]
    exact writeResolved_place place _ fun _ => absent
  · rw [metadata]
    exact writeResolved_place place _ Bool.noConfusion

theorem applyEdit_place {staged : StagedIntent} {front : List String} {name replacement : String}
    {existing result : List UInt8} (place : Place tree root base front name)
    (carried : staged.replacement = some replacement)
    (entry : tree.node (base ++ front ++ [name]) = some (.file existing))
    (bounded : existing.length ≤ maxContentBytes)
    (once : countOccurrences existing (bytesOf replacement) = 1)
    (replaced : replaceSingleOccurrence existing (bytesOf replacement) (bytesOf staged.content) =
      some result)
    (proven : identityOf sha256Hex result = staged.contentIdentity)
    (small : result.length ≤ maxContentBytes) (text : ∃ text, Json.utf8 text = result) :
    ∃ after, applyEdit sha256Hex tree root staged (front ++ [name]) = .ok after ∧
      tree.GrowsTo after ∧ ∀ location, after.node location =
        if location = base ++ front ++ [name] then some (.file result)
        else tree.node location := by
  have metadata : symlinkMetadata tree root (front ++ [name]) = .ok (.file existing) :=
    symlinkMetadata_ok_iff.mpr ⟨_, place.opened, entry⟩
  have edited : editedContent tree root staged (front ++ [name]) = .ok existing := by
    rw [editedContent, metadata]
    dsimp only
    rw [componentPath_concat, FileTree.read_down _ place.opened entry]
    rfl
  have lossless := (Utf8.utf8_fromUtf8Lossy_iff result).mpr text
  obtain ⟨after, written, facts⟩ :=
    @writeResolved_place tree root base front name false place result Bool.noConfusion
  refine ⟨after, ?_, facts⟩
  rw [applyEdit, carried]
  dsimp only
  rw [edited, ok_bind, ensure_ok_iff.mpr (decide_eq_true bounded), ok_bind,
    ensure_ok_iff.mpr (beq_iff_eq.mpr once), ok_bind, replaced]
  dsimp only
  rw [proveIdentity_ok_iff.mpr proven, ok_bind, ensure_ok_iff.mpr (decide_eq_true small), ok_bind,
    lossless, written]

end

end Kvist.Authoring
