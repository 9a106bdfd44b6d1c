import Kvist.Authoring.Turn
import Kvist.Json.Parser

/-!
# The run of a plan

One effect is staged, applied and cleaned up, and leaves the tree ready for the next one. A run
over all effects follows from this step.
-/

set_option autoImplicit false

namespace Kvist.Authoring

open FileSystem
open Json (Value)
open Kvist.Runtime (ToolIntent)

section

variable {sha256Hex : List UInt8 → String} {fromSlice : List UInt8 → Option Value}
variable {tree current : FileTree String} {root sessionId : String} {base : Location String}
variable {intent : ToolIntent} {effect : CheckedIntent}

/-! ## The directory of staged files -/

/-- The component has its state, and no more than a directory stands where files are staged. -/
structure StateReady (tree : FileTree String) (root : String) (base : Location String) : Prop where
  component : tree.openDirectory (pathSteps root.toList) = .ok base
  state : tree.node (base ++ [".kvist"]) = some .directory
  staging : tree.node (base ++ stagingParts) = none ∨
    tree.node (base ++ stagingParts) = some .directory
  legal : tree.legal "authoring" = true

theorem StateReady.opened (ready : StateReady tree root base) :
    tree.openDirectory (componentPath root [".kvist"]) = .ok (base ++ [".kvist"]) := by
  have opened := tree.openDirectory_down ready.component ready.state
  rwa [← componentPath_nil, ← componentPath_concat] at opened

theorem stagingParts_concat (base : Location String) :
    base ++ stagingParts = base ++ [".kvist"] ++ ["authoring"] :=
  (List.append_assoc base [".kvist"] ["authoring"]).symm

theorem ensureRealDirectory_ready (ready : StateReady tree root base) (operation : String) :
    ∃ prepared, ensureRealDirectory tree root stagingParts operation = .ok prepared ∧
      tree.GrowsTo prepared ∧
      prepared.openDirectory (componentPath root stagingParts) = .ok (base ++ stagingParts) ∧
      ∀ location, location ≠ base ++ stagingParts →
        prepared.node location = tree.node location := by
  have parts : stagingParts = [".kvist"] ++ ["authoring"] := rfl
  have reached : ∀ prepared : FileTree String, tree.GrowsTo prepared →
      prepared.node (base ++ [".kvist"] ++ ["authoring"]) = some .directory →
      prepared.openDirectory (componentPath root stagingParts) = .ok (base ++ stagingParts) := by
    intro prepared grows present
    rw [stagingParts_concat, parts, componentPath_concat]
    exact prepared.openDirectory_down (grows.openDirectory ready.opened) present
  have staging := ready.staging
  rw [stagingParts_concat] at staging
  rcases staging with absent | present
  · have metadata : symlinkMetadata tree root stagingParts = .error .notFound := by
      rw [symlinkMetadata, parts, componentPath_concat, FileTree.lstatPath_down, FileTree.lstat,
        ready.opened]
      change (if tree.legal "authoring" = true then _ else _) = _
      rw [if_pos ready.legal, absent]
    have leaf : tree.node (base ++ [".kvist"] ++ ["authoring"]) ≠ some .directory := by
      rw [absent]
      intro same
      cases same
    refine ⟨tree.put (base ++ [".kvist"]) "authoring" .directory ready.state ready.legal leaf,
      ?_, tree.growsTo_put (.inl absent), ?_, ?_⟩
    · rw [ensureRealDirectory, metadata]
      dsimp only
      rw [failedIo_eq_ok_iff]
      exact tree.putEntry_eq_ok_iff.mpr
        ⟨_, ready.opened, ready.state, ready.legal, leaf, fun _ => absent, rfl⟩
    · apply reached _ (tree.growsTo_put (.inl absent))
      rw [FileTree.node_put, if_pos rfl]
    · intro location other
      rw [FileTree.node_put, if_neg (stagingParts_concat base ▸ other)]
  · have metadata : symlinkMetadata tree root stagingParts = .ok .directory :=
      symlinkMetadata_ok_iff.mpr ⟨_, ready.opened, present⟩
    refine ⟨tree, ?_, .refl tree, reached tree (.refl tree) present, fun _ _ => rfl⟩
    rw [ensureRealDirectory, metadata]

theorem stageIntent_ready (ready : StateReady tree root base) {content : String}
    (given : stagedContent effect intent = .ok content)
    (legal : tree.legal (stagedName sha256Hex sessionId effect.callId) = true)
    (vacant : tree.node (base ++ stagingParts ++
      [stagedName sha256Hex sessionId effect.callId]) = none) :
    ∃ written, stageIntent sha256Hex tree root sessionId effect intent =
        (.ok (stagingParts ++ [stagedName sha256Hex sessionId effect.callId]), written) ∧
      tree.GrowsTo written ∧
      written.openDirectory (componentPath root stagingParts) = .ok (base ++ stagingParts) ∧
      HoldsFile written
        (componentPath root (stagingParts ++ [stagedName sha256Hex sessionId effect.callId]))
        (stagedIntent effect content).toVec ∧
      written.node (base ++ stagingParts ++ [stagedName sha256Hex sessionId effect.callId]) =
        some (.file (stagedIntent effect content).toVec) ∧
      ∀ location, location ≠ base ++ stagingParts →
        location ≠ base ++ stagingParts ++ [stagedName sha256Hex sessionId effect.callId] →
          written.node location = tree.node location := by
  generalize named : stagedName sha256Hex sessionId effect.callId = name at legal vacant ⊢
  obtain ⟨prepared, ensured, grows, opened, others⟩ :=
    ensureRealDirectory_ready ready "create authoring staging directory"
  have apart : base ++ stagingParts ++ [name] ≠ base ++ stagingParts := by simp
  have absent : prepared.node (base ++ stagingParts ++ [name]) = none := by
    rw [others _ apart, vacant]
  have isDirectory := (prepared.openDirectory_eq_ok_iff.mp opened).2
  have isLegal : prepared.legal name = true := by rw [grows.legal, legal]
  have leaf : prepared.node (base ++ stagingParts ++ [name]) ≠ some .directory := by
    rw [absent]
    intro same
    cases same
  have written : prepared.writeFile (componentPath root stagingParts) name
      (stagedIntent effect content).toVec true =
        .ok (prepared.put (base ++ stagingParts) name (.file (stagedIntent effect content).toVec)
          isDirectory isLegal leaf) :=
    prepared.putEntry_eq_ok_iff.mpr
      ⟨_, opened, isDirectory, isLegal, leaf, fun _ => absent, rfl⟩
  obtain ⟨holds, further, -⟩ := writeFile_holds written
  refine ⟨_, ?_, grows.trans further, further.openDirectory opened, ?_, ?_, ?_⟩
  · rw [stageIntent, given]
    dsimp only
    rw [ensured]
    dsimp only
    rw [named, failedIo_eq_ok_iff.mpr written]
  · rw [componentPath_concat]
    exact holds
  · rw [FileTree.node_put, if_pos rfl]
  · intro location outside other
    rw [FileTree.node_put, if_neg other, others location outside]

theorem withoutStaged_removed {name : String} {content : List UInt8}
    (opened : tree.openDirectory (componentPath root stagingParts) = .ok (base ++ stagingParts))
    (present : tree.node (base ++ stagingParts ++ [name]) = some (.file content)) :
    ∃ leaf, withoutStaged root tree (stagingParts ++ [name]) =
      tree.erase (base ++ stagingParts) name leaf := by
  have occupied : tree.node (base ++ stagingParts ++ [name]) ≠ none := by
    rw [present]
    exact Option.some_ne_none _
  have leaf : tree.node (base ++ stagingParts ++ [name]) ≠ some .directory := by
    rw [present]
    intro same
    cases same
  refine ⟨leaf, ?_⟩
  rw [withoutStaged, List.dropLast_concat, List.getLast?_concat, Option.getD_some, FileTree.removeFile,
    opened]
  dsimp only
  rw [if_pos (tree.named _ _ occupied), if_neg occupied, dif_pos leaf]

/-! ## One effect -/

theorem resolvedDestination_staged {content : String} {names : List String}
    (allowed : allowedTools.contains effect.tool = true)
    (normalized : normalizeDestination effect.destination {} = .ok names)
    (verified : verifyNoFollowAncestors tree root [] names.dropLast = .ok ()) :
    resolvedDestination tree root (stagedIntent effect content) = .ok names := by
  have version : ((stagedIntent effect content).schemaVersion == stagedIntentSchemaVersion) =
      true := beq_self_eq_true _
  have tool : allowedTools.contains (stagedIntent effect content).tool = true := allowed
  have destination : normalizeDestination (stagedIntent effect content).destination {} =
      .ok names := normalized
  rw [resolvedDestination, version, ensure_true, ok_bind, tool, ensure_true, ok_bind, destination]
  rw [refused, ok_bind, verified]
  rfl

/-- What an effect needs of its own: no link leads to its destination, its staged file is small
enough to be read, and an edit makes text. -/
structure Applicable (tree : FileTree String) (root : String) (intent : ToolIntent)
    (effect : CheckedIntent) : Prop where
  ancestors : ∀ names, normalizeDestination effect.destination {} = .ok names →
    verifyNoFollowAncestors tree root [] names.dropLast = .ok ()
  small : ∀ content, stagedContent effect intent = .ok content →
    (stagedIntent effect content).toVec.length ≤ maxStagedIntentBytes
  text : ∀ content names, stagedContent effect intent = .ok content →
    normalizeDestination effect.destination {} = .ok names →
      EditsText tree root effect content names

/-- The effect finds its file as it was when the plan was made, where that matters. -/
structure Untouched (tree : FileTree String) (base : Location String) (files : Files)
    (effect : CheckedIntent) : Prop where
  regular : ∀ names, normalizeDestination effect.destination {} = .ok names →
    files (base ++ names) = none ∨ ∃ content, files (base ++ names) = some (.file content)
  edited : effect.tool = "edit_file" →
    ∀ names, normalizeDestination effect.destination {} = .ok names →
      files (base ++ names) = tree.node (base ++ names)

theorem applyStaged_executes {written : FileTree String} {files : Files} {content : String}
    (component : tree.openDirectory (pathSteps root.toList) = .ok base)
    (classified : classifyIntent tree root sha256Hex intent {} = .effect effect)
    (given : stagedContent effect intent = .ok content)
    (applicable : Applicable tree root intent effect) (grows : tree.GrowsTo written)
    (untouched : Untouched tree base files effect)
    (same : ∀ names, normalizeDestination effect.destination {} = .ok names →
      written.node (base ++ names) = files (base ++ names)) :
    ∃ applied names bytes,
      applyStaged sha256Hex written root (stagedIntent effect content) = .ok applied ∧
      normalizeDestination effect.destination {} = .ok names ∧
      written.GrowsTo applied ∧
      (∀ location, applied.node location =
        if location = base ++ names then some (.file bytes) else written.node location) ∧
      execute base files intent =
        some (Function.update files (base ++ names) (some (.file bytes))) := by
  rcases classifyIntent_effect classified with
    ⟨text, names, authorized⟩ | ⟨text, replacement, names, existing, result, authorized⟩
  · obtain rfl : text = content := by
      have nonempty : (some text).filter (· != "") = some text := by
        rw [Option.filter_some, if_pos (bne_iff_ne.mpr authorized.nonempty)]
      rw [stagedContent, if_pos authorized.tool, authorized.argument, nonempty] at given
      exact Except.ok.inj given
    obtain ⟨destination, argument, normal⟩ := authorized.normalized
    have normalized : normalizeDestination effect.destination {} = .ok names := by
      rw [authorized.destination]
      exact normalizeDestination_displayParts normal
    have verified := applicable.ancestors names normalized
    have regular := untouched.regular names normalized
    rw [← same names normalized] at regular
    obtain ⟨front, name, rfl⟩ := (normalizeDestination_ok normalized).exists_concat
    have laterVerified := verifyNoFollowAncestors_grows grows verified
    rw [List.dropLast_concat] at verified
    have place := (authorized.place component verified).grows grows
      (by rwa [List.append_assoc])
    obtain ⟨applied, done, further, nodes⟩ :=
      @applyWrite_place sha256Hex written root base (stagedIntent effect text) front name place
        authorized.identity.symm
    refine ⟨applied, front ++ [name], bytesOf text, ?_, normalized, further, ?_, ?_⟩
    · have tool : (stagedIntent effect text).tool = "write_file" := authorized.tool
      rw [applyStaged, resolvedDestination_staged (by rw [authorized.tool]; decide) normalized
        laterVerified, ok_bind, if_pos tool, done]
    · intro location
      rw [nodes, List.append_assoc]
      rfl
    · simp only [execute, argument, normal, authorized.argument, authorized.intentName, if_true,
        Except.toOption, Option.bind_eq_bind, Option.bind_some, Option.pure_def]
  · obtain rfl : text = content := by
      rw [stagedContent, if_neg (by rw [authorized.tool]; decide), if_pos authorized.tool,
        authorized.argument] at given
      exact Except.ok.inj given
    obtain ⟨destination, argument, normal⟩ := authorized.normalized
    have normalized : normalizeDestination effect.destination {} = .ok names := by
      rw [authorized.destination]
      exact normalizeDestination_displayParts normal
    have verified := applicable.ancestors names normalized
    have editsText := applicable.text text names given normalized
    have unchanged := untouched.edited authorized.tool names normalized
    have current := same names normalized
    obtain ⟨front, name, rfl⟩ := (normalizeDestination_ok normalized).exists_concat
    have laterVerified := verifyNoFollowAncestors_grows grows verified
    rw [List.dropLast_concat] at verified
    have entry := authorized.entry component verified
    have opened := verified_opened component verified
    have read : tree.read (componentPath root (front ++ [name])) = .ok existing := by
      rw [componentPath_concat]
      exact FileTree.read_down _ opened entry
    have isText := editsText replacement existing result authorized.replacement read
      authorized.replaced
    have files_entry : files (base ++ (front ++ [name])) = some (.file existing) := by
      rw [unchanged, ← List.append_assoc, entry]
    have written_entry : written.node (base ++ front ++ [name]) = some (.file existing) := by
      rw [List.append_assoc, current, files_entry]
    have occupied : written.node (base ++ front ++ [name]) ≠ none := by
      rw [written_entry]
      exact Option.some_ne_none _
    have place : Place written root base front name :=
      ⟨grows.openDirectory opened, written.named _ _ occupied, .inr ⟨existing, written_entry⟩⟩
    obtain ⟨applied, done, further, nodes⟩ :=
      @applyEdit_place sha256Hex written root base (stagedIntent effect text) front name
        replacement existing result place authorized.replacement written_entry authorized.bounded
        authorized.once authorized.replaced authorized.identity.symm authorized.small isText
    refine ⟨applied, front ++ [name], result, ?_, normalized, further, ?_, ?_⟩
    · have tool : (stagedIntent effect text).tool = "edit_file" := authorized.tool
      rw [applyStaged, resolvedDestination_staged (by rw [authorized.tool]; decide) normalized
        laterVerified, ok_bind, if_neg (by rw [tool]; decide), if_pos tool, done]
    · intro location
      rw [nodes, List.append_assoc]
    · have other : ¬intent.name = "write_file" := by
        rw [authorized.intentName]
        decide
      simp only [execute, argument, normal, authorized.argument, other, if_false, authorized.target,
        files_entry, authorized.once, if_true, authorized.replaced, Except.toOption,
        Option.bind_eq_bind, Option.bind_some, Option.pure_def]

/-! ## The step and the run -/

/-- The tree behind some effects of a plan: what stands outside of the staging directory is what the
tools promise, and nothing staged is left. -/
structure Follows (tree current : FileTree String) (base : Location String) (files : Files) : Prop where
  grows : tree.GrowsTo current
  staging : current.node (base ++ stagingParts) = none ∨
    current.node (base ++ stagingParts) = some .directory
  staged : ∀ rest, rest ≠ [] →
    current.node (base ++ stagingParts ++ rest) = tree.node (base ++ stagingParts ++ rest)
  outside : ∀ location, ¬base ++ stagingParts <+: location →
    current.node location = files location

theorem Follows.ready {files : Files} (follows : Follows tree current base files)
    (ready : StateReady tree root base) : StateReady current root base :=
  ⟨follows.grows.openDirectory ready.component, follows.grows.directory _ ready.state,
    follows.staging, by rw [follows.grows.legal, ready.legal]⟩

/-- Destinations lie outside of the staging directory. -/
theorem Writable.outside_staging {names : List String} (writable : Writable names)
    (base : Location String) : ¬base ++ stagingParts <+: base ++ names := by
  obtain ⟨first, member, rest, rfl⟩ := writable.root
  intro inside
  have within := (List.prefix_append_right_inj base).mp inside
  obtain ⟨same, -⟩ := List.cons_prefix_cons.mp within
  rw [← same] at member
  exact absurd member (by decide)

theorem runEffect_eq (reads : Json.Reads fromSlice) {intents : List ToolIntent} {content : String}
    {names : List String} {staged : FileTree String}
    (found : (intents.find? fun intent => intent.id == effect.callId) = some intent)
    (given : stagedContent effect intent = .ok content)
    (small : (stagedIntent effect content).toVec.length ≤ maxStagedIntentBytes)
    (stages : stageIntent sha256Hex tree root sessionId effect intent = (.ok names, staged)) :
    runEffect sha256Hex fromSlice root sessionId intents tree effect =
      (applyStaged sha256Hex staged root (stagedIntent effect content)).map fun applied =>
        withoutStaged root applied names := by
  have holds := (@stageIntent_files sha256Hex tree root intent effect sessionId _ given).2 names
  rw [stages] at holds
  have version : (stagedIntent effect content).schemaVersion ≤ maxU32 := by
    change 1 ≤ 4294967295
    decide
  have read := readStagedIntent_staged reads version (holds rfl) small
  rw [runEffect, found]
  dsimp only
  rw [stages]
  dsimp only
  rw [applyIntent, read, ok_bind]
  cases applyStaged sha256Hex staged root (stagedIntent effect content) <;> rfl

theorem runEffect_follows (reads : Json.Reads fromSlice) {intents : List ToolIntent}
    {files : Files} (ready : StateReady tree root base)
    (found : (intents.find? fun intent => intent.id == effect.callId) = some intent)
    (classified : classifyIntent tree root sha256Hex intent {} = .effect effect)
    (legal : tree.legal (stagedName sha256Hex sessionId effect.callId) = true)
    (vacant : tree.node (base ++ stagingParts ++
      [stagedName sha256Hex sessionId effect.callId]) = none)
    (applicable : Applicable tree root intent effect) (untouched : Untouched tree base files effect)
    (follows : Follows tree current base files) :
    ∃ next names bytes,
      runEffect sha256Hex fromSlice root sessionId intents current effect = .ok next ∧
      normalizeDestination effect.destination {} = .ok names ∧
      execute base files intent =
        some (Function.update files (base ++ names) (some (.file bytes))) ∧
      Follows tree next base (Function.update files (base ++ names) (some (.file bytes))) := by
  obtain ⟨content, -, given⟩ := stagedContent_authorized classified
  have currentLegal : current.legal (stagedName sha256Hex sessionId effect.callId) = true := by
    rw [follows.grows.legal, legal]
  have currentVacant : current.node (base ++ stagingParts ++
      [stagedName sha256Hex sessionId effect.callId]) = none := by
    rw [follows.staged _ (List.cons_ne_nil _ _), vacant]
  obtain ⟨written, staged, grows, opened, holds, entry, others⟩ :=
    stageIntent_ready (follows.ready ready) given currentLegal currentVacant
  generalize stagedName sha256Hex sessionId effect.callId = name at *
  have unstaged : ∀ location, ¬base ++ stagingParts <+: location →
      written.node location = files location := by
    intro location outside
    have notDirectory : location ≠ base ++ stagingParts :=
      fun same => outside (same ▸ List.prefix_rfl)
    have notStaged : location ≠ base ++ stagingParts ++ [name] :=
      fun same => outside (same ▸ List.prefix_append _ _)
    rw [others location notDirectory notStaged, follows.outside location outside]
  obtain ⟨applied, names, bytes, done, normalized, further, nodes, executed⟩ :=
    applyStaged_executes ready.component classified given applicable (follows.grows.trans grows)
      untouched fun names normalized =>
        unstaged _ ((normalizeDestination_ok normalized).outside_staging base)
  have outside := (normalizeDestination_ok normalized).outside_staging base
  have ran := runEffect_eq reads found given (applicable.small content given) staged
  rw [done] at ran
  have kept : ∀ rest, applied.node (base ++ stagingParts ++ rest) =
      written.node (base ++ stagingParts ++ rest) := by
    intro rest
    rw [nodes, if_neg]
    intro same
    exact outside (same ▸ List.prefix_append _ _)
  obtain ⟨leaf, removed⟩ := @withoutStaged_removed applied root base name _
    (further.openDirectory opened) ((kept [name]).trans entry)
  have apart : base ++ stagingParts ≠ base ++ stagingParts ++ [name] := by simp
  refine ⟨applied.erase (base ++ stagingParts) name leaf, names, bytes, ?_, normalized, executed,
    ?_, ?_, ?_, ?_⟩
  · rw [ran, ← removed]
    rfl
  · exact ((follows.grows.trans grows).trans further).erase vacant
  · rw [FileTree.node_erase, if_neg apart]
    have directory := (written.openDirectory_eq_ok_iff.mp opened).2
    exact .inr (further.directory _ directory)
  · intro rest nonempty
    rw [FileTree.node_erase]
    by_cases same : base ++ stagingParts ++ rest = base ++ stagingParts ++ [name]
    · rw [if_pos same, same, vacant]
    · rw [if_neg same, kept, others _ (by simpa using nonempty) same, follows.staged rest nonempty]
  · intro location apartFrom
    have notStaged : location ≠ base ++ stagingParts ++ [name] :=
      fun same => apartFrom (same ▸ List.prefix_append _ _)
    rw [FileTree.node_erase, if_neg notStaged, nodes, Function.update_apply]
    split
    · rfl
    · exact unstaged location apartFrom

theorem destination_displayParts {names : List String}
    (classified : classifyIntent tree root sha256Hex intent {} = .effect effect)
    (normalized : normalizeDestination effect.destination {} = .ok names) :
    effect.destination = displayParts names := by
  obtain ⟨parts, shown, normal⟩ : ∃ parts, effect.destination = displayParts parts ∧
      normalizeDestination (displayParts parts) {} = .ok parts := by
    rcases classifyIntent_effect classified with
      ⟨_, parts, authorized⟩ | ⟨_, _, parts, _, _, authorized⟩
    · obtain ⟨_, -, normal⟩ := authorized.normalized
      exact ⟨parts, authorized.destination, normalizeDestination_displayParts normal⟩
    · obtain ⟨_, -, normal⟩ := authorized.normalized
      exact ⟨parts, authorized.destination, normalizeDestination_displayParts normal⟩
  rw [shown, normal] at normalized
  rw [shown, Except.ok.inj normalized]

/-- Before the first effect every file is as it was when the plan was made. -/
theorem untouched_start (component : tree.openDirectory (pathSteps root.toList) = .ok base)
    (classified : classifyIntent tree root sha256Hex intent {} = .effect effect)
    (applicable : Applicable tree root intent effect) :
    Untouched tree base tree.node effect := by
  refine ⟨fun names normalized => ?_, fun _ _ _ => rfl⟩
  have shown := destination_displayParts classified normalized
  have verified := applicable.ancestors names normalized
  have writable := normalizeDestination_ok normalized
  rcases classifyIntent_effect classified with
    ⟨_, parts, authorized⟩ | ⟨_, _, parts, existing, _, authorized⟩
  · obtain ⟨_, -, normal⟩ := authorized.normalized
    have again := normalizeDestination_displayParts normal
    rw [← authorized.destination, normalized] at again
    obtain rfl := Except.ok.inj again
    obtain ⟨front, name, rfl⟩ := writable.exists_concat
    rw [List.dropLast_concat] at verified
    have regular := (authorized.place component verified).regular
    rwa [List.append_assoc] at regular
  · obtain ⟨_, -, normal⟩ := authorized.normalized
    have again := normalizeDestination_displayParts normal
    rw [← authorized.destination, normalized] at again
    obtain rfl := Except.ok.inj again
    obtain ⟨front, name, rfl⟩ := writable.exists_concat
    rw [List.dropLast_concat] at verified
    have entry := authorized.entry component verified
    rw [List.append_assoc] at entry
    exact .inr ⟨existing, entry⟩

/-- An effect of the plan, the intent that it comes from, and the name under which it is staged. -/
structure Planned (sha256Hex : List UInt8 → String) (tree : FileTree String) (root sessionId : String)
    (base : Location String) (intents : List ToolIntent) (effect : CheckedIntent) : Prop where
  origin : ∃ intent, (intents.find? fun intent => intent.id == effect.callId) = some intent ∧
    classifyIntent tree root sha256Hex intent {} = .effect effect ∧
    Applicable tree root intent effect
  legal : tree.legal (stagedName sha256Hex sessionId effect.callId) = true
  vacant : tree.node (base ++ stagingParts ++
    [stagedName sha256Hex sessionId effect.callId]) = none

/-- No edit follows another effect on its file. -/
def EditsFirst (effects : List CheckedIntent) : Prop :=
  effects.Pairwise fun earlier later =>
    later.tool = "edit_file" → earlier.destination ≠ later.destination

theorem applyAuthoringEffects_follows (reads : Json.Reads fromSlice) {intents : List ToolIntent}
    (ready : StateReady tree root base) {effects : List CheckedIntent} {files : Files}
    (planned : ∀ effect ∈ effects,
      Planned sha256Hex tree root sessionId base intents effect)
    (order : EditsFirst effects)
    (untouched : ∀ effect ∈ effects, Untouched tree base files effect)
    (follows : Follows tree current base files) :
    ∃ final after,
      applyAuthoringEffects sha256Hex fromSlice root sessionId intents current effects =
        .ok final ∧
      executeAll base files (intentsOf intents effects) = some after ∧
      Follows tree final base after := by
  induction effects generalizing current files with
  | nil => exact ⟨current, files, rfl, rfl, follows⟩
  | cons effect rest ih =>
      have own := planned effect List.mem_cons_self
      obtain ⟨intent, found, classified, applicable⟩ := own.origin
      obtain ⟨next, names, bytes, ran, normalized, executed, followsNext⟩ :=
        runEffect_follows reads ready found classified own.legal own.vacant applicable
          (untouched effect List.mem_cons_self) follows
      obtain ⟨editsLater, orderRest⟩ := List.pairwise_cons.mp order
      have untouchedRest : ∀ later ∈ rest, Untouched tree base
          (Function.update files (base ++ names) (some (.file bytes))) later := by
        intro later member
        have before := untouched later (List.mem_cons_of_mem _ member)
        constructor
        · intro others normal
          rw [Function.update_apply]
          split
          · exact .inr ⟨bytes, rfl⟩
          · exact before.regular others normal
        · intro edits others normal
          rw [Function.update_apply, if_neg, before.edited edits others normal]
          intro same
          apply editsLater later member edits
          obtain ⟨laterIntent, -, laterClassified, -⟩ :=
            (planned later (List.mem_cons_of_mem _ member)).origin
          rw [destination_displayParts classified normalized,
            destination_displayParts laterClassified normal, List.append_cancel_left same]
      obtain ⟨final, after, applied, executedRest, followsFinal⟩ :=
        ih (fun later member => planned later (List.mem_cons_of_mem _ member)) orderRest
          untouchedRest followsNext
      refine ⟨final, after, ?_, ?_, followsFinal⟩
      · rw [applyAuthoringEffects, ran, ok_bind, applied]
      · have first : intentsOf intents (effect :: rest) = intent :: intentsOf intents rest :=
          List.filterMap_cons_some found
        rw [first, executeAll, executed, Option.bind_some]
        exact executedRest

/-! ## Plans -/

theorem mem_authorizedEffects {policy : BrokerPolicy} {intents : List ToolIntent}
    {effects : List CheckedIntent}
    (authorized : authorizedEffects tree root sha256Hex policy intents = some effects)
    (member : effect ∈ effects) :
    ∃ intent ∈ intents, classifyIntent tree root sha256Hex intent policy = .effect effect := by
  induction intents generalizing effects with
  | nil =>
      rw [authorizedEffects, Option.some.injEq] at authorized
      rw [← authorized] at member
      cases member
  | cons intent rest ih =>
      rw [authorizedEffects] at authorized
      split at authorized
      · cases authorized
      · obtain ⟨other, inside, classified⟩ := ih authorized member
        exact ⟨other, List.mem_cons_of_mem _ inside, classified⟩
      · rename_i checked classified
        obtain ⟨others, restAuthorized, rfl⟩ := Option.map_eq_some_iff.mp authorized
        rcases List.mem_cons.mp member with rfl | later
        · exact ⟨intent, List.mem_cons_self, classified⟩
        · obtain ⟨other, inside, classified⟩ := ih restAuthorized later
          exact ⟨other, List.mem_cons_of_mem _ inside, classified⟩

theorem mem_authorizeIntents {policy : BrokerPolicy} {intents : List ToolIntent}
    {effects : List CheckedIntent}
    (plan : authorizeIntents tree root sha256Hex intents policy = some effects)
    (member : effect ∈ effects) :
    ∃ intent ∈ intents, classifyIntent tree root sha256Hex intent policy = .effect effect := by
  obtain ⟨all, authorized, rfl⟩ := Option.map_eq_some_iff.mp plan
  rw [enforceBound] at member
  split at member
  · cases member
  · exact mem_authorizedEffects authorized member

theorem classifyIntent_callId {policy : BrokerPolicy}
    (classified : classifyIntent tree root sha256Hex intent policy = .effect effect) :
    effect.callId = intent.id := by
  rcases classifyIntent_effect classified with
    ⟨_, _, authorized⟩ | ⟨_, _, _, _, _, authorized⟩
  · exact authorized.callId
  · exact authorized.callId

theorem find?_id {intents : List ToolIntent} (unique : (intents.map (·.id)).Nodup)
    (member : intent ∈ intents) :
    (intents.find? fun other => other.id == intent.id) = some intent := by
  induction intents with
  | nil => cases member
  | cons first rest ih =>
      obtain ⟨fresh, others⟩ := List.nodup_cons.mp unique
      rcases List.mem_cons.mp member with rfl | inside
      · rw [List.find?_cons, beq_self_eq_true]
      · rw [List.find?_cons_of_neg, ih others inside]
        intro same
        apply fresh
        have equal : first.id = intent.id := beq_iff_eq.mp same
        change first.id ∈ _
        rw [equal]
        exact List.mem_map_of_mem inside

/-- The plan of a turn is carried out in its order, and the files are then those that its tools
promise, as long as no edit follows another effect on its file. -/
theorem applyAuthoringEffects_executes (reads : Json.Reads fromSlice) {intents : List ToolIntent}
    {effects : List CheckedIntent} (unique : (intents.map (·.id)).Nodup)
    (plan : authorizeIntents tree root sha256Hex intents {} = some effects)
    (ready : StateReady tree root base)
    (free : ∀ effect ∈ effects, tree.legal (stagedName sha256Hex sessionId effect.callId) = true ∧
      tree.node (base ++ stagingParts ++ [stagedName sha256Hex sessionId effect.callId]) = none)
    (applicable : ∀ effect ∈ effects, ∀ intent ∈ intents, intent.id = effect.callId →
      Applicable tree root intent effect)
    (order : EditsFirst effects) :
    ∃ final files,
      applyAuthoringEffects sha256Hex fromSlice root sessionId intents tree effects = .ok final ∧
      executeAll base tree.node (intentsOf intents effects) = some files ∧
      ∀ location, ¬base ++ stagingParts <+: location → final.node location = files location := by
  have planned : ∀ effect ∈ effects,
      Planned sha256Hex tree root sessionId base intents effect := by
    intro effect member
    obtain ⟨intent, inside, classified⟩ := mem_authorizeIntents plan member
    have callId := classifyIntent_callId classified
    obtain ⟨legal, vacant⟩ := free effect member
    refine ⟨⟨intent, ?_, classified, applicable effect member intent inside callId.symm⟩, legal,
      vacant⟩
    rw [callId]
    exact find?_id unique inside
  have untouched : ∀ effect ∈ effects, Untouched tree base tree.node effect := by
    intro effect member
    obtain ⟨intent, -, classified, fits⟩ := (planned effect member).origin
    exact untouched_start ready.component classified fits
  obtain ⟨final, files, applied, executed, follows⟩ :=
    applyAuthoringEffects_follows reads ready planned order untouched
      ⟨.refl tree, ready.staging, fun _ _ => rfl, fun _ _ => rfl⟩
  exact ⟨final, files, applied, executed, follows.outside⟩

end

/-! ## Two effects of one turn -/

private def pairTree : FileTree String :=
  .ofEntries (fun name => name != "")
    [(["c"], .directory), (["c", "src"], .directory), (["c", ".kvist"], .directory),
      (["c", "src", "a.txt"], .file (bytesOf "ac")), (["c", "src", "b.txt"], .file (bytesOf "ac"))]
    (by decide +kernel)

private def pairDigest (bytes : List UInt8) : String :=
  if bytes = bytesOf "bc" then "1e0bbd6c686ba050b8eb03ffeedc64fdc9d80947fce821abbe5d6dc8d252c5ac"
  else if bytes = bytesOf "ad" then
    "70ba33708cbfb103f1a8e34afef333ba7dc021022b2d9aaa583aabb8058d8d67"
  else if bytes = bytesOf "bd" then
    "5e657ff6158d3e2a6d23e2a523917a2305acee9423365e268695c4b7b8919f4c"
  else if bytes = bytesOf "call-1" then
    "5d7963c4f471e142f5a72214a9666fb164718f9ba1066a7862ac1c5041887940"
  else if bytes = bytesOf "call-2" then
    "3ba8dced2e729b165dfb4e6a16f08d0f81338b045127b9a57cbc62f0853ec592"
  else String.ofList ('-' :: bytes.map fun byte => Char.ofNat byte.toNat)

private def replaceIntent (id destination replace content : String) : ToolIntent where
  id := id
  providerId := none
  name := "edit_file"
  arguments := .object [("destination", .string destination), ("replace", .string replace),
    ("content", .string content)]

private def replaceEffect (id destination replace digest : String) : CheckedIntent where
  callId := id
  tool := "edit_file"
  op := .modify
  destination := destination
  contentIdentity := "sha256:" ++ digest
  replacement := some replace
  contentBytes := 2
  purpose := "authoring: " ++ id

private def twoFileIntents : List ToolIntent :=
  [replaceIntent "call-1" "src/a.txt" "a" "b", replaceIntent "call-2" "src/b.txt" "c" "d"]

private def oneFileIntents : List ToolIntent :=
  [replaceIntent "call-1" "src/a.txt" "a" "b", replaceIntent "call-2" "src/a.txt" "c" "d"]

private def pairEffects (second : String) : List CheckedIntent :=
  [replaceEffect "call-1" "src/a.txt" "a" (pairDigest (bytesOf "bc")),
    replaceEffect "call-2" second "c" (pairDigest (bytesOf "ad"))]

private theorem twoFileIntents_plan :
    authorizeIntents pairTree "/c" pairDigest twoFileIntents {} =
      some (pairEffects "src/b.txt") := by
  decide +kernel

private theorem oneFileIntents_plan :
    authorizeIntents pairTree "/c" pairDigest oneFileIntents {} =
      some (pairEffects "src/a.txt") := by
  decide +kernel

private theorem replaceEffect_applicable {id destination replace content digest result : String}
    {names : List String} {current : List UInt8}
    (normalized : normalizeDestination destination {} = .ok names)
    (verified : verifyNoFollowAncestors pairTree "/c" [] names.dropLast = .ok ())
    (given : stagedContent (replaceEffect id destination replace digest)
      (replaceIntent id destination replace content) = .ok content)
    (small : (stagedIntent (replaceEffect id destination replace digest) content).toVec.length ≤
      maxStagedIntentBytes)
    (read : pairTree.read (componentPath "/c" names) = .ok current)
    (replaced : replaceSingleOccurrence current (bytesOf replace) (bytesOf content) =
      some (bytesOf result)) :
    Applicable pairTree "/c" (replaceIntent id destination replace content)
      (replaceEffect id destination replace digest) := by
  constructor
  · intro others normal
    obtain rfl := Except.ok.inj (normalized.symm.trans normal)
    exact verified
  · intro other same
    obtain rfl := Except.ok.inj (given.symm.trans same)
    exact small
  · intro other others same normal target existing after carried found made
    obtain rfl := Except.ok.inj (given.symm.trans same)
    obtain rfl := Except.ok.inj (normalized.symm.trans normal)
    obtain rfl := Option.some.inj carried
    obtain rfl := Except.ok.inj (read.symm.trans found)
    obtain rfl := Option.some.inj (replaced.symm.trans made)
    exact ⟨result.toList, rfl⟩

private theorem pairTree_ready : StateReady pairTree "/c" ["c"] :=
  ⟨eq_ok_of_toOption (by decide), by decide, by decide, by decide⟩

theorem applyAuthoringEffects_executes_pair :
    ∃ final files,
      applyAuthoringEffects pairDigest Json.parseSlice "/c" "s" twoFileIntents pairTree
        (pairEffects "src/b.txt") = .ok final ∧
      executeAll ["c"] pairTree.node (intentsOf twoFileIntents (pairEffects "src/b.txt")) =
        some files ∧
      ∀ location, ¬["c"] ++ stagingParts <+: location →
        final.node location = files location := by
  refine applyAuthoringEffects_executes Json.parseSlice_reads (by decide)
    twoFileIntents_plan pairTree_ready (by decide) ?_ (by unfold EditsFirst; decide)
  intro effect member intent inside same
  simp only [pairEffects, List.mem_cons, List.not_mem_nil, or_false] at member
  simp only [twoFileIntents, List.mem_cons, List.not_mem_nil, or_false] at inside
  rcases member with rfl | rfl
  · rcases inside with rfl | rfl
    · exact @replaceEffect_applicable _ _ _ _ _ "bc" ["src", "a.txt"] (bytesOf "ac")
        (eq_ok_of_toOption (by decide)) (eq_ok_of_toOption (by decide))
        (eq_ok_of_toOption (by decide)) (by decide +kernel)
        (eq_ok_of_toOption (by decide)) (by decide)
    · exact absurd same (by decide)
  · rcases inside with rfl | rfl
    · exact absurd same (by decide)
    · exact @replaceEffect_applicable _ _ _ _ _ "ad" ["src", "b.txt"] (bytesOf "ac")
        (eq_ok_of_toOption (by decide)) (eq_ok_of_toOption (by decide))
        (eq_ok_of_toOption (by decide)) (by decide +kernel)
        (eq_ok_of_toOption (by decide)) (by decide)

private theorem eq_ok_getD {Result : Type} {computed : Except Error Result} {other : Result}
    (accepted : computed.toOption.isSome = true) :
    computed = .ok (computed.toOption.getD other) := by
  cases computed with
  | error error => cases accepted
  | ok value => rfl

private def firstEffect : CheckedIntent :=
  replaceEffect "call-1" "src/a.txt" "a" (pairDigest (bytesOf "bc"))

private def secondEffect : CheckedIntent :=
  replaceEffect "call-2" "src/a.txt" "c" (pairDigest (bytesOf "ad"))

private def stagedPair (tree : FileTree String) (effect : CheckedIntent) (intent : ToolIntent) :
    FileTree String :=
  (stageIntent pairDigest tree "/c" "s" effect intent).2

private theorem stageIntent_stagedPair {tree : FileTree String} {effect : CheckedIntent}
    {intent : ToolIntent} {path : List String}
    (staged : (stageIntent pairDigest tree "/c" "s" effect intent).1.toOption = some path) :
    stageIntent pairDigest tree "/c" "s" effect intent =
      (.ok path, stagedPair tree effect intent) :=
  Prod.ext (eq_ok_of_toOption staged) rfl

private def firstApplied : FileTree String :=
  (applyStaged pairDigest
    (stagedPair pairTree firstEffect (replaceIntent "call-1" "src/a.txt" "a" "b")) "/c"
    (stagedIntent firstEffect "b")).toOption.getD pairTree

private def afterFirst : FileTree String :=
  withoutStaged "/c" firstApplied (stagingParts ++ [stagedName pairDigest "s" "call-1"])

private theorem runEffect_first :
    runEffect pairDigest Json.parseSlice "/c" "s" oneFileIntents pairTree firstEffect =
      .ok afterFirst := by
  have stages : stageIntent pairDigest pairTree "/c" "s" firstEffect
      (replaceIntent "call-1" "src/a.txt" "a" "b") =
        (.ok (stagingParts ++ [stagedName pairDigest "s" "call-1"]),
          stagedPair pairTree firstEffect (replaceIntent "call-1" "src/a.txt" "a" "b")) :=
    stageIntent_stagedPair (by decide +kernel)
  have given : stagedContent firstEffect (replaceIntent "call-1" "src/a.txt" "a" "b") = .ok "b" :=
    eq_ok_of_toOption (by decide)
  have applied : applyStaged pairDigest
      (stagedPair pairTree firstEffect (replaceIntent "call-1" "src/a.txt" "a" "b")) "/c"
      (stagedIntent firstEffect "b") = .ok firstApplied := eq_ok_getD (by decide +kernel)
  rw [runEffect_eq Json.parseSlice_reads rfl given (by decide +kernel) stages, applied]
  rfl

private theorem runEffect_second :
    (runEffect pairDigest Json.parseSlice "/c" "s" oneFileIntents afterFirst secondEffect).toOption =
      none := by
  have stages : stageIntent pairDigest afterFirst "/c" "s" secondEffect
      (replaceIntent "call-2" "src/a.txt" "c" "d") =
        (.ok (stagingParts ++ [stagedName pairDigest "s" "call-2"]),
          stagedPair afterFirst secondEffect (replaceIntent "call-2" "src/a.txt" "c" "d")) :=
    stageIntent_stagedPair (by decide +kernel)
  have given : stagedContent secondEffect (replaceIntent "call-2" "src/a.txt" "c" "d") = .ok "d" :=
    eq_ok_of_toOption (by decide)
  have refused : (applyStaged pairDigest
      (stagedPair afterFirst secondEffect (replaceIntent "call-2" "src/a.txt" "c" "d")) "/c"
      (stagedIntent secondEffect "d")).toOption.isSome = false := by
    decide +kernel
  have second : (oneFileIntents.find? fun intent => intent.id == secondEffect.callId) =
      some (replaceIntent "call-2" "src/a.txt" "c" "d") := rfl
  rw [runEffect_eq Json.parseSlice_reads second given (by decide +kernel) stages]
  generalize applyStaged pairDigest _ "/c" (stagedIntent secondEffect "d") = result at refused
  cases result with
  | error error => rfl
  | ok tree => cases refused

/-- Two edits of one file make a plan, but the second is no longer what was authorized once the
first is applied. -/
theorem oneFileIntents_refused :
    authorizeIntents pairTree "/c" pairDigest oneFileIntents {} =
      some (pairEffects "src/a.txt") ∧
    (executeAll ["c"] pairTree.node oneFileIntents).isSome = true ∧
    (applyAuthoringEffects pairDigest Json.parseSlice "/c" "s" oneFileIntents pairTree
      (pairEffects "src/a.txt")).toOption.isNone = true := by
  refine ⟨oneFileIntents_plan, by decide +kernel, ?_⟩
  have effects : pairEffects "src/a.txt" = [firstEffect, secondEffect] := rfl
  have failed := runEffect_second
  rw [effects, applyAuthoringEffects, runEffect_first, ok_bind, applyAuthoringEffects]
  generalize runEffect pairDigest Json.parseSlice "/c" "s" oneFileIntents afterFirst secondEffect =
    result at failed
  cases result with
  | error error => rfl
  | ok tree => cases failed

end Kvist.Authoring
