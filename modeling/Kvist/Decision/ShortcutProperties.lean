import Kvist.Decision.Shortcuts
import Kvist.Json.Parser

/-!
# What a number stands for

The registry file always holds a table of numbered commands. A call only adds to it, so a number
stands for the same command in every later file, and the file is one that is read again.
-/

set_option autoImplicit false

namespace Kvist.Decision

open Json Kvist.Numbering OrderedMap

/-! ## The registry read back -/

@[simp] theorem Command.fromJson_toJson (command : Command) :
    Command.fromJson command.toJson = some command := by
  cases command with
  | optionPlan task catalogDigest option title =>
      have content := @taggedContent_cons "kind" "option-plan"
        (Command.optionPlan task catalogDigest option title).members
        (by simp [Command.members, optionPlanFields])
      have fields := @recordFields_zip optionPlanFields
        [.string task, .string catalogDigest, .string option, .string title] (by decide) rfl
      rw [Command.toJson, Command.kind, Command.fromJson, content, Option.bind_some, if_pos rfl]
      rw [Command.members, fields]
  | applyPlan task planId approval continueRun =>
      have content := @taggedContent_cons "kind" "apply-plan"
        (Command.applyPlan task planId approval continueRun).members
        (by simp [Command.members, applyPlanFields])
      have fields := @recordFields_zip applyPlanFields
        [.string task, .string planId, .string approval, .boolean continueRun] (by decide) rfl
      rw [Command.toJson, Command.kind, Command.fromJson, content, Option.bind_some,
        if_neg (by simp), if_pos rfl]
      rw [Command.members, fields]

theorem asNumber_natural {number : Nat} (small : number ≤ maxNumber) :
    asNumber (natural number) = some number := by
  simp [natural, asNumber, small]

theorem keyNumber_toString {number : Nat} (small : number ≤ maxNumber) :
    keyNumber (toString number) = some number := by
  simp [keyNumber, small]

theorem actionsFromJson_toJson {actions : List (Nat × Command)}
    (ascending : Ascending actions)
    (small : ∀ entry ∈ actions, entry.1 ≤ maxNumber) :
    actionsFromJson (actionsToJson actions) = some actions := by
  have read : (actions.map fun entry => (toString entry.1, entry.2.toJson)).mapM (fun member =>
      (keyNumber member.1).bind fun number =>
        (Command.fromJson member.2).map fun command => (number, command)) = some actions := by
    clear ascending
    induction actions with
    | nil => rfl
    | cons entry rest ih =>
        have first := keyNumber_toString (small entry List.mem_cons_self)
        rw [List.map_cons, List.mapM_cons, first, Option.bind_some, Command.fromJson_toJson]
        rw [ih fun other member => small other (List.mem_cons_of_mem _ member)]
        rfl
  rw [actionsToJson, actionsFromJson, read, Option.map_some, foldl_put ascending]

theorem asPath_of_fromUtf8 {path : PathBytes} {text : List Char}
    (read : Utf8.fromUtf8 path = some text) : asPath (.string (String.ofList text)) = some path := by
  rw [asPath, bytesOf, String.toList_ofList, Utf8.fromUtf8_eq_some_iff.mp read]

theorem toJson_ok_iff {registry : Registry} {value : Value} :
    registry.toJson = .ok value ↔ ∃ project component,
      Utf8.fromUtf8 registry.project = some project ∧
      Utf8.fromUtf8 registry.component = some component ∧
      value = .object (registryMembers registry project component) := by
  unfold Registry.toJson
  cases Utf8.fromUtf8 registry.project with
  | none => simp
  | some project =>
      cases Utf8.fromUtf8 registry.component with
      | none => simp
      | some component => simp [eq_comm]

/-- The numbers of the registry are those of the table. -/
structure Tabulated (registry : Registry) (table : Table Command) : Prop where
  next : registry.nextNumber = table.next
  actions : registry.actions = table.entries
  small : table.next ≤ maxNumber

theorem fromJson_toJson {registry : Registry} {table : Table Command} {value : Value}
    (tabulated : Tabulated registry table) (version : registry.schemaVersion ≤ maxNumber)
    (printed : registry.toJson = .ok value) : Registry.fromJson value = some registry := by
  obtain ⟨project, component, projectText, componentText, rfl⟩ := toJson_ok_iff.mp printed
  have fields := @recordFields_zip registryFields
    [natural registry.schemaVersion, .string (String.ofList project),
      .string (String.ofList component), natural registry.nextNumber,
      actionsToJson registry.actions, .string registry.authenticationTag] (by decide) rfl
  have ascending := tabulated.actions ▸ table.ascending
  have below : ∀ entry ∈ registry.actions, entry.1 ≤ maxNumber := by
    intro entry member
    have within := (table.within entry (tabulated.actions ▸ member)).2
    exact Nat.le_of_lt (Nat.lt_of_lt_of_le within tabulated.small)
  have next : registry.nextNumber ≤ maxNumber := tabulated.next ▸ tabulated.small
  rw [Registry.fromJson, registryMembers, fields]
  simp only [asNumber_natural version, asPath_of_fromUtf8 projectText,
    asPath_of_fromUtf8 componentText, asNumber_natural next,
    actionsFromJson_toJson ascending below]
  rfl

/-! ## The text of a registry -/

theorem readable_command {fromStr : List UInt8 → Option Value} (command : Command) :
    Json.Readable fromStr command.toJson := by
  have optionNames : ("kind" :: optionPlanFields).Nodup := by decide
  have applyNames : ("kind" :: applyPlanFields).Nodup := by decide
  cases command with
  | optionPlan task catalogDigest option title =>
      refine @readable_record _ ("kind" :: optionPlanFields) [.string "option-plan", .string task,
        .string catalogDigest, .string option, .string title] optionNames rfl ?_
      intro value member
      simp only [List.mem_cons, List.not_mem_nil, or_false] at member
      rcases member with rfl | rfl | rfl | rfl | rfl <;> exact readable_string _
  | applyPlan task planId approval continueRun =>
      refine @readable_record _ ("kind" :: applyPlanFields) [.string "apply-plan", .string task,
        .string planId, .string approval, .boolean continueRun] applyNames rfl ?_
      intro value member
      simp only [List.mem_cons, List.not_mem_nil, or_false] at member
      rcases member with rfl | rfl | rfl | rfl | rfl
      · exact readable_string _
      · exact readable_string _
      · exact readable_string _
      · exact readable_string _
      · exact readable_boolean _

theorem depth_command (command : Command) : command.toJson.depth = 1 := by
  cases command <;> rfl

/-- Ascending numbers have distinct names. -/
theorem readable_actions {fromStr : List UInt8 → Option Value} {actions : List (Nat × Command)}
    (ascending : Ascending actions) : Json.Readable fromStr (actionsToJson actions) := by
  apply readable_object
  · rw [List.map_map]
    refine List.Pairwise.map _ (fun left right below same => ?_) ascending
    exact absurd (Nat.repr_injective same) (Nat.ne_of_lt below)
  · intro member inside
    obtain ⟨entry, -, rfl⟩ := List.mem_map.mp inside
    exact readable_command entry.2

theorem depth_actions (actions : List (Nat × Command)) : (actionsToJson actions).depth ≤ 2 := by
  rw [actionsToJson, Value.depth]
  induction actions with
  | nil => decide
  | cons entry rest ih =>
      rw [List.map_cons, Value.depthOfMembers, depth_command]
      omega

theorem readable_registry {fromStr : List UInt8 → Option Value} (reads : Reads fromStr)
    {registry : Registry} {table : Table Command} {value : Value}
    (tabulated : Tabulated registry table) (version : registry.schemaVersion ≤ maxNumber)
    (printed : registry.toJson = .ok value) : Json.Readable fromStr value := by
  obtain ⟨project, component, -, -, rfl⟩ := toJson_ok_iff.mp printed
  have bounded : maxNumber < 2 ^ 64 := by decide
  have next : registry.nextNumber ≤ maxNumber := tabulated.next ▸ tabulated.small
  refine readable_record (by decide) rfl ?_
  intro part member
  simp only [List.mem_cons, List.not_mem_nil, or_false] at member
  rcases member with rfl | rfl | rfl | rfl | rfl | rfl
  · exact readable_natural reads (Nat.lt_of_le_of_lt version bounded)
  · exact readable_string _
  · exact readable_string _
  · exact readable_natural reads (Nat.lt_of_le_of_lt next bounded)
  · exact readable_actions (tabulated.actions ▸ table.ascending)
  · exact readable_string _

theorem depth_registry {registry : Registry} {value : Value}
    (printed : registry.toJson = .ok value) : value.depth < 128 := by
  obtain ⟨project, component, -, -, rfl⟩ := toJson_ok_iff.mp printed
  have actions := depth_actions registry.actions
  simp only [registryMembers, registryFields, List.zip_cons_cons, List.zip_nil_right, Value.depth,
    Value.depthOfMembers, natural]
  omega

/-- The tag of a registry does not depend on the one that it holds. -/
theorem authenticated_tag (hmac : Hmac) (secret : List UInt8) (registry : Registry)
    (tag other : String) (project component : List Char) :
    authenticated hmac (.object (registryMembers { registry with authenticationTag := tag }
        project component)) secret =
      authenticated hmac (.object (registryMembers { registry with authenticationTag := other }
        project component)) secret := by
  have split : ∀ tag : String,
      registryMembers { registry with authenticationTag := tag } project component =
        (registryFields.take 5).zip [natural registry.schemaVersion,
          .string (String.ofList project), .string (String.ofList component),
          natural registry.nextNumber, actionsToJson registry.actions] ++
            [("authentication_tag", .string tag)] := fun tag => rfl
  rw [authenticated, authenticated, split tag, split other]
  have names : ((registryFields.take 5).zip [natural registry.schemaVersion,
      .string (String.ofList project), .string (String.ofList component),
      natural registry.nextNumber, actionsToJson registry.actions]).map (·.1) =
        registryFields.take 5 := rfl
  rw [insertMember_sorted]
  · rw [names]
    decide
  · rw [names]
    decide

/-! ## Giving numbers -/

/-- What numbering commands leaves of the registry. -/
structure Numbered (registry : Registry) (table : Table Command) (numbered : Registry)
    (later : Table Command) : Prop where
  tabulated : Tabulated numbered later
  extends_ : later.Extends table
  same : numbered = { registry with nextNumber := later.next, actions := later.entries }
  few : numbered.actions.length ≤ maxActions

abbrev Answers (context : TaskContext) (table : Table Command) (commands : List Command)
    (responses : List ResponseAction) : Prop :=
  List.Forall₂ (fun command answer => (answer.number, command) ∈ table.entries ∧
    answer = response context answer.number command) commands responses

theorem Answers.mono {context : TaskContext} {table later : Table Command}
    {commands : List Command} {responses : List ResponseAction} (further : later.Extends table)
    (answers : Answers context table commands responses) :
    Answers context later commands responses :=
  answers.imp fun _ _ given => ⟨further.entries.subset given.1, given.2⟩

theorem registerCommand_numbers {context : TaskContext} {registry numbered : Registry}
    {table : Table Command} {before after : List ResponseAction} {command : Command}
    (tabulated : Tabulated registry table) (few : registry.actions.length ≤ maxActions)
    (registered : registerCommand context (registry, before) command = .ok (numbered, after)) :
    ∃ later number, Numbered registry table numbered later ∧
      (number, command) ∈ later.entries ∧
      after = before ++ [response context number command] := by
  rw [registerCommand] at registered
  cases found : Table.numberOf command registry.actions with
  | some number =>
      simp only [found, Except.ok.injEq, Prod.mk.injEq] at registered
      obtain ⟨rfl, rfl⟩ := registered
      have member := tabulated.actions ▸ Table.mem_of_numberOf found
      refine ⟨table, number, ⟨tabulated, .refl table, ?_, few⟩, member, rfl⟩
      rw [← tabulated.next, ← tabulated.actions]
  | none =>
      simp only [found, bind_unit_ok_iff, ensure_ok_iff, decide_eq_true_eq, pure_eq_ok,
        Except.ok.injEq, Prod.mk.injEq] at registered
      obtain ⟨room, fits, rfl, rfl⟩ := registered
      have fresh := tabulated.actions ▸ Table.fresh_of_numberOf found
      have above : ∀ entry ∈ registry.actions, entry.1 < registry.nextNumber := by
        rw [tabulated.actions, tabulated.next]
        exact fun entry member => (table.within entry member).2
      have last := @put_last _ _ _ registry.actions registry.nextNumber command above
      refine ⟨table.add command fresh, registry.nextNumber, ⟨⟨?_, ?_, ?_⟩, ?_, ?_, ?_⟩, ?_, rfl⟩
      · exact congrArg (· + 1) tabulated.next
      · change put registry.nextNumber command registry.actions =
          table.entries ++ [(table.next, command)]
        rw [last, tabulated.actions, tabulated.next]
      · change table.next + 1 ≤ maxNumber
        rw [← tabulated.next]
        exact fits
      · exact table.add_extends fresh
      · change _ = { registry with
          nextNumber := table.next + 1, actions := table.entries ++ [(table.next, command)] }
        rw [last, tabulated.actions, tabulated.next]
      · change (put registry.nextNumber command registry.actions).length ≤ maxActions
        rw [last, List.length_append]
        exact room
      · rw [tabulated.next]
        exact List.mem_append_right _ List.mem_cons_self

theorem registerCommands_number {context : TaskContext} {commands : List Command}
    {registry numbered : Registry} {table : Table Command} {responses : List ResponseAction}
    (tabulated : Tabulated registry table) (few : registry.actions.length ≤ maxActions)
    (registered : commands.foldlM (registerCommand context) (registry, []) =
      .ok (numbered, responses)) :
    ∃ later, Numbered registry table numbered later ∧
      Answers context later commands responses := by
  have unchanged : registry = { registry with
      nextNumber := table.next, actions := table.entries } := by
    rw [← tabulated.next, ← tabulated.actions]
  refine foldlM_ok_invariant (fun consumed state => ∃ later, Numbered registry table state.1 later ∧
    Answers context later consumed state.2) ?_
    ⟨table, ⟨tabulated, .refl table, unchanged, few⟩, .nil⟩ registered
  rintro consumed command rest ⟨middle, before⟩ ⟨last, after⟩ - ⟨table', numbers, answers⟩ stepped
  obtain ⟨later, number, further, member, rfl⟩ :=
    registerCommand_numbers numbers.tabulated numbers.few stepped
  refine ⟨later, ⟨further.tabulated, further.extends_.trans numbers.extends_, ?_, further.few⟩, ?_⟩
  · rw [further.same, numbers.same]
  · refine List.rel_append (answers.mono further.extends_) (.cons ?_ .nil)
    exact ⟨member, rfl⟩

/-! ## One call -/

variable {hmac : Hmac} {fromStr : List UInt8 → Option Value}

/-- The bytes are the text of the registry, which has the numbers of the table. -/
structure Stored (bytes : List UInt8) (registry : Registry) (table : Table Command) : Prop where
  text : ∃ value, registry.toJson = .ok value ∧ bytes = encode value
  tabulated : Tabulated registry table
  version : registry.schemaVersion = 1

def Holds (table : Table Command) : File → Prop
  | none => table = .empty
  | some bytes => ∃ registry, Stored bytes registry table

theorem Stored.registryOf (reads : Reads fromStr) {bytes : List UInt8} {registry : Registry}
    {table : Table Command} (stored : Stored bytes registry table) :
    registryOf fromStr (some bytes) = some registry := by
  obtain ⟨value, printed, rfl⟩ := stored.text
  have version : registry.schemaVersion ≤ maxNumber := stored.version ▸ by decide
  have parsed := reads.encode (readable_registry reads stored.tabulated version printed)
  rw [if_pos (depth_registry printed)] at parsed
  rw [Decision.registryOf, Option.bind_some, parsed, Option.bind_some]
  exact fromJson_toJson stored.tabulated version printed

theorem read_some {context : TaskContext} {around : Surroundings} {bytes : List UInt8}
    {found : Option (Registry × List UInt8)}
    (succeeded : read hmac fromStr context around (some bytes) = .ok found) :
    ∃ registry secret, found = some (registry, bytes) ∧
      registryOf fromStr (some bytes) = some registry ∧
      checkRegistry hmac context around secret registry = .ok () := by
  simp only [read, bind_ok_iff, readText_ok_iff, okOr_ok_iff, pure_eq_ok, Except.ok.injEq]
    at succeeded
  obtain ⟨-, -, -, -, text, ⟨rfl, -, -⟩, registry, parsed, secret, -, ⟨⟩, checked, rfl⟩ :=
    succeeded
  exact ⟨registry, secret, rfl, parsed, checked⟩

theorem read_none {context : TaskContext} {around : Surroundings}
    {found : Option (Registry × List UInt8)}
    (succeeded : read hmac fromStr context around none = .ok found) : found = none := by
  simp only [read, bind_unit_ok_iff, pure_eq_ok, Except.ok.injEq] at succeeded
  exact succeeded.2.symm

/-- What is checked of a registry that is read. -/
structure Checked (context : TaskContext) (around : Surroundings) (registry : Registry) :
    Prop where
  version : registry.schemaVersion = 1
  project : ∃ path, absolute around.currentDir context.projectDir = .ok path ∧
    components registry.project = components path
  component : ∃ path, absolute around.currentDir context.componentDir = .ok path ∧
    components registry.component = components path
  few : registry.actions.length ≤ maxActions

theorem checkRegistry_checked {context : TaskContext} {around : Surroundings}
    {secret : List UInt8} {registry : Registry}
    (accepted : checkRegistry hmac context around secret registry = .ok ()) :
    Checked context around registry := by
  simp only [checkRegistry, bind_ok_iff, ensure_eq_ok_iff, exists_const, beq_iff_eq,
    decide_eq_true_eq] at accepted
  obtain ⟨version, project, projectRead, sameProject, component, componentRead, sameComponent, -,
    few, -⟩ := accepted
  exact ⟨version, ⟨project, projectRead, sameProject⟩, ⟨component, componentRead, sameComponent⟩,
    few⟩

theorem Checked.accepted {context : TaskContext} {around later : Surroundings}
    {registry sealed : Registry} {table : Table Command} {secret : List UInt8}
    (checked : Checked context around registry) (tabulated : Tabulated registry table)
    (tagged : sealRegistry hmac secret registry = .ok sealed)
    (place : later.currentDir = around.currentDir) :
    checkRegistry hmac context later secret sealed = .ok () := by
  simp only [sealRegistry, bind_ok_iff, pure_eq_ok, Except.ok.injEq] at tagged
  obtain ⟨value, printed, rfl⟩ := tagged
  obtain ⟨project, component, projectText, componentText, rfl⟩ := toJson_ok_iff.mp printed
  obtain ⟨projectPath, projectRead, sameProject⟩ := checked.project
  obtain ⟨componentPath, componentRead, sameComponent⟩ := checked.component
  have within : registry.actions.any (fun entry =>
      entry.1 == 0 || registry.nextNumber ≤ entry.1) = false := by
    rw [List.any_eq_false, tabulated.actions, tabulated.next]
    intro entry member
    have bounds := table.within entry member
    simp only [Bool.or_eq_true, beq_iff_eq, decide_eq_true_eq, not_or]
    omega
  have positive : registry.nextNumber ≠ 0 := tabulated.next ▸ Nat.ne_of_gt table.positive
  have tags := authenticated_tag hmac secret registry
    (authenticated hmac (.object (registryMembers registry project component)) secret)
    registry.authenticationTag project component
  simp only [checkRegistry, bind_ok_iff, ensure_eq_ok_iff, exists_const, place]
  refine ⟨beq_iff_eq.mpr checked.version, projectPath, projectRead, beq_iff_eq.mpr sameProject,
    componentPath, componentRead, beq_iff_eq.mpr sameComponent, bne_iff_ne.mpr positive,
    decide_eq_true checked.few, by rw [within]; rfl, _,
    toJson_ok_iff.mpr ⟨project, component, projectText, componentText, rfl⟩, ?_⟩
  rw [tags, Bool.or_eq_true, equal_iff]
  exact .inl rfl

/-- The surroundings in which the file that a call wrote is read: the same place and secret, and
no failure of the disk. -/
structure Reading (around writing : Surroundings) : Prop where
  currentDir : around.currentDir = writing.currentDir
  existingSecret : around.existingSecret = writing.secret
  inspect : around.inspect = .ok ()
  access : around.access = .ok ()

/-- The file holds a registry that is read again. -/
def Readable (hmac : Hmac) (fromStr : List UInt8 → Option Value) (call : Call) (file : File) :
    Prop :=
  ∀ around, Reading around call.around →
    ∃ found, read hmac fromStr call.context around file = .ok (some found)

theorem startRegistry_checked (reads : Reads fromStr) {context : TaskContext}
    {around : Surroundings} {file : File} {table : Table Command} {registry : Registry}
    {previous : Option (Registry × List UInt8)} (holds : Holds table file)
    (found : read hmac fromStr context around file = .ok previous)
    (started : startRegistry context around previous = .ok registry) :
    Checked context around registry ∧ Tabulated registry table ∧ previous.map (·.2) = file := by
  cases file with
  | none =>
      obtain rfl := read_none found
      obtain rfl : table = .empty := holds
      simp only [startRegistry, bind_ok_iff, pure_eq_ok, Except.ok.injEq] at started
      obtain ⟨project, projectRead, component, componentRead, rfl⟩ := started
      exact ⟨⟨rfl, ⟨project, projectRead, rfl⟩, ⟨component, componentRead, rfl⟩, Nat.zero_le _⟩,
        ⟨rfl, rfl, by decide⟩, rfl⟩
  | some bytes =>
      obtain ⟨kept, secret, rfl, parsed, accepted⟩ := read_some found
      obtain ⟨stored, holds⟩ := holds
      rw [holds.registryOf reads] at parsed
      obtain rfl := Option.some.inj parsed
      obtain rfl : stored = registry := Except.ok.inj started
      exact ⟨checkRegistry_checked accepted, holds.tabulated, rfl⟩

theorem prepareRegistry_stored (reads : Reads fromStr) {call : Call} {file : File}
    {table : Table Command} {responses : List ResponseAction} {before : Option (List UInt8)}
    {text : List UInt8} (holds : Holds table file)
    (prepared : prepareRegistry hmac fromStr call.context call.around call.commands file =
      .ok (responses, before, text)) :
    before = file ∧ ∃ later, later.Extends table ∧ Holds later (some text) ∧
      Answers call.context later call.commands responses ∧
      Readable hmac fromStr call (some text) := by
  simp only [prepareRegistry, bind_ok_iff, pure_eq_ok, Except.ok.injEq, bounded,
    ensure_eq_ok_iff, exists_const, decide_eq_true_eq, Prod.mk.injEq] at prepared
  obtain ⟨-, -, -, -, previous, found, registry, started, ⟨numbered, answers⟩, registered, secret,
    secretRead, sealed, tagged, -, -, value, printed, small, -, -, -, -, rfl, rfl, rfl⟩ := prepared
  obtain ⟨checked, tabulated, same⟩ := startRegistry_checked reads holds found started
  obtain ⟨later, numbers, given⟩ := registerCommands_number tabulated checked.few registered
  have kept : Checked call.context call.around numbered := by
    have few := numbers.few
    rw [numbers.same] at few ⊢
    exact ⟨checked.version, checked.project, checked.component, few⟩
  have sealedAs : ∃ tag, sealed = { numbered with authenticationTag := tag } := by
    simp only [sealRegistry, bind_ok_iff, pure_eq_ok, Except.ok.injEq] at tagged
    obtain ⟨-, -, rfl⟩ := tagged
    exact ⟨_, rfl⟩
  have stored : Stored (encode value) sealed later := by
    obtain ⟨tag, rfl⟩ := sealedAs
    exact ⟨⟨value, printed, rfl⟩,
      ⟨numbers.tabulated.next, numbers.tabulated.actions, numbers.tabulated.small⟩, kept.version⟩
  refine ⟨same, later, numbers.extends_, ⟨sealed, stored⟩, given, ?_⟩
  intro around reading
  have accepted := kept.accepted numbers.tabulated tagged reading.currentDir
  have parsed : (fromStr (encode value)).bind Registry.fromJson = some sealed :=
    stored.registryOf reads
  have isText : (Utf8.fromUtf8 (encode value)).isSome := by
    have decoded : Utf8.fromUtf8 (encode value) = some (compact value) :=
      Utf8.fromUtf8_eq_some_iff.mpr rfl
    rw [decoded]
    rfl
  refine ⟨(sealed, encode value), ?_⟩
  simp only [read, bind_ok_iff, readText_ok_iff, okOr_ok_iff, pure_eq_ok, Except.ok.injEq]
  exact ⟨(), reading.inspect, (), reading.access, _, ⟨rfl, small, isText⟩, sealed, parsed, secret,
    reading.existingSecret.trans secretRead, (), accepted, rfl⟩

/-- A file is written whole or stays, and what succeeds has written it. -/
theorem publish_cases (around : Surroundings) (path : PathBytes) (text : List UInt8)
    (file : File) :
    ((publish around path file text file).1 = file ∨
      (publish around path file text file).1 = some text) ∧
    ((publish around path file text file).2 = .ok () →
      (publish around path file text file).1 = some text) := by
  cases file with
  | none =>
      simp only [publish, writeNew]
      split
      · exact ⟨.inl rfl, fun impossible => nomatch impossible⟩
      · exact ⟨.inr rfl, fun _ => rfl⟩
  | some before =>
      simp only [publish]
      split
      · rw [replaceControlled]
        split
        · exact ⟨.inl rfl, fun impossible => nomatch impossible⟩
        · exact ⟨.inr rfl, fun _ => rfl⟩
      · rename_i same
        have equal : before = text := by simpa using same
        exact ⟨.inl rfl, fun _ => congrArg some equal⟩

/-- How a call goes on from a file with this table: to a further table, which has the numbers that
the call returns. What is written, or was there before a success, is read again. -/
structure Continued (hmac : Hmac) (fromStr : List UInt8 → Option Value) (call : Call) (file : File)
    (table : Table Command) (outcome : File × Except Failure (List ResponseAction))
    (later : Table Command) : Prop where
  extends_ : later.Extends table
  holds : Holds later outcome.1
  answers : ∀ responses, outcome.2 = .ok responses →
    Answers call.context later call.commands responses
  readable : (outcome.1 ≠ file ∨ ∃ responses, outcome.2 = .ok responses) →
    Readable hmac fromStr call outcome.1

/-- A call that fails before it writes leaves everything as it was. -/
theorem Continued.failed {call : Call} {file : File} {table : Table Command}
    (holds : Holds table file) {result : Except Failure (List ResponseAction)}
    (failure : ∀ responses, result ≠ .ok responses) :
    Continued hmac fromStr call file table (file, result) table where
  extends_ := .refl table
  holds := holds
  answers responses succeeded := absurd succeeded (failure responses)
  readable := by
    rintro (changed | ⟨responses, succeeded⟩)
    · exact absurd rfl changed
    · exact absurd succeeded (failure responses)

theorem run_continued (reads : Reads fromStr) {call : Call} {file : File} {table : Table Command}
    (holds : Holds table file) :
    ∃ later, Continued hmac fromStr call file table (call.run hmac fromStr file) later := by
  rw [Call.run, register]
  cases (do call.around.safeComponent; call.around.lock : Except Failure Unit) with
  | error error => exact ⟨table, .failed holds fun _ impossible => nomatch impossible⟩
  | ok _ =>
      cases prepared : prepareRegistry hmac fromStr call.context call.around call.commands file with
      | error error => exact ⟨table, .failed holds fun _ impossible => nomatch impossible⟩
      | ok result =>
          obtain ⟨responses, before, text⟩ := result
          obtain ⟨rfl, later, further, stored, answers, readable⟩ :=
            prepareRegistry_stored reads holds prepared
          obtain ⟨either, wrote⟩ :=
            publish_cases call.around (registryPath call.context) text before
          dsimp only
          revert either wrote
          cases publish call.around (registryPath call.context) before text before with
          | mk file' published =>
              intro either wrote
              by_cases written : file' = some text
              · subst written
                refine ⟨later, further, stored, ?_, fun _ => readable⟩
                intro returned succeeded
                simp only [bind_ok_iff, pure_eq_ok, Except.ok.injEq] at succeeded
                obtain ⟨-, -, -, -, rfl⟩ := succeeded
                exact answers
              · obtain rfl : file' = before := either.resolve_right written
                refine ⟨table, .failed holds ?_⟩
                intro returned succeeded
                obtain ⟨⟨⟩, succeeded, -⟩ := bind_ok_iff.mp succeeded
                exact written (wrote succeeded)

theorem runCalls_holds (reads : Reads fromStr) (calls : List Call) {file : File}
    {table : Table Command} (holds : Holds table file) :
    ∃ later, later.Extends table ∧ Holds later (runCalls hmac fromStr calls file) := by
  induction calls generalizing file table with
  | nil => exact ⟨table, .refl table, holds⟩
  | cons call rest ih =>
      obtain ⟨middle, continued⟩ := @run_continued hmac fromStr reads call file table holds
      obtain ⟨later, further, held⟩ := ih continued.holds
      exact ⟨later, further.trans continued.extends_, held⟩

/-! ## What a number stands for in the end -/

/-- The registry in the file has the command under the number. -/
def Kept (fromStr : List UInt8 → Option Value) (file : File) (number : Nat) (command : Command) :
    Prop :=
  ∃ registry, registryOf fromStr file = some registry ∧ (number, command) ∈ registry.actions

/-- The number stands for the command and for no other one. -/
structure Permanent (hmac : Hmac) (fromStr : List UInt8 → Option Value) (file : File)
    (number : Nat) (command : Command) : Prop where
  resolved : ∀ context around found, resolve hmac fromStr context around number file = .ok found →
    found = (command, response context number command)
  returned : ∀ (again : Call) (responses : List ResponseAction), (again.run hmac fromStr file).2 = .ok responses →
    ∀ index : Nat, again.commands[index]? = some command →
      responses[index]? = some (response again.context number command)
  exceeded : ∀ registry, registryOf fromStr file = some registry → number < registry.nextNumber

theorem kept_iff (reads : Reads fromStr) {file : File} {table : Table Command}
    (holds : Holds table file) {number : Nat} {command : Command} :
    Kept fromStr file number command ↔ (number, command) ∈ table.entries := by
  cases file with
  | none =>
      obtain rfl : table = .empty := holds
      constructor
      · rintro ⟨registry, parsed, -⟩
        cases parsed
      · exact fun member => nomatch member
  | some bytes =>
      obtain ⟨registry, stored⟩ := holds
      rw [Kept, stored.registryOf reads]
      constructor
      · rintro ⟨other, same, member⟩
        rw [← stored.tabulated.actions, Option.some.inj same]
        exact member
      · exact fun member => ⟨registry, rfl, stored.tabulated.actions ▸ member⟩

theorem permanent_of_entry (reads : Reads fromStr) {file : File} {table : Table Command}
    (holds : Holds table file) {number : Nat} {command : Command}
    (member : (number, command) ∈ table.entries) :
    Permanent hmac fromStr file number command := by
  constructor
  · intro context around found succeeded
    rw [resolve] at succeeded
    obtain ⟨entry, readFile, chosen⟩ := bind_ok_iff.mp succeeded
    rw [okOr_ok_iff, Option.map_eq_some_iff] at chosen
    obtain ⟨other, looked, rfl⟩ := chosen
    cases file with
    | none =>
        obtain rfl := read_none readFile
        cases looked
    | some bytes =>
        obtain ⟨registry, stored⟩ := holds
        obtain ⟨parsedAs, secret, rfl, parsed, -⟩ := read_some readFile
        rw [stored.registryOf reads] at parsed
        obtain rfl := Option.some.inj parsed
        rw [Option.bind_some, stored.tabulated.actions, lookup_eq_some_iff table.ascending]
          at looked
        rw [table.value_unique member looked]
  · intro again responses succeeded index here
    obtain ⟨later, continued⟩ := @run_continued hmac fromStr reads again file table holds
    have answers := continued.answers responses succeeded
    obtain ⟨small, -⟩ := List.getElem?_eq_some_iff.mp here
    have inside : index < responses.length := answers.length_eq ▸ small
    have given := answers.get small inside
    rw [List.get_eq_getElem, List.get_eq_getElem, (List.getElem?_eq_some_iff.mp here).2] at given
    obtain ⟨entry, same⟩ := given
    have numbered := later.number_unique entry (continued.extends_.entries.subset member)
    rw [List.getElem?_eq_getElem inside, same, numbered]
  · intro registry parsed
    cases file with
    | none => cases parsed
    | some bytes =>
        obtain ⟨kept, stored⟩ := holds
        rw [stored.registryOf reads] at parsed
        obtain rfl := Option.some.inj parsed
        rw [stored.tabulated.next]
        exact (table.within _ member).2

/-- Over every sequence of calls, whichever of them fail: what a call returns is in the registry,
what is in the registry stays there, and what a call leaves behind is read again. -/
theorem register_stable (reads : Reads fromStr) (earlier later : List Call) (call : Call) :
    let file := runCalls hmac fromStr earlier none
    let outcome := call.run hmac fromStr file
    (∀ responses, outcome.2 = .ok responses →
      List.Forall₂ (fun command answer => Kept fromStr outcome.1 answer.number command ∧
        answer = response call.context answer.number command) call.commands responses) ∧
    (∀ number command, Kept fromStr outcome.1 number command →
      Permanent hmac fromStr (runCalls hmac fromStr later outcome.1) number command) ∧
    ((outcome.1 ≠ file ∨ ∃ responses, outcome.2 = .ok responses) →
      Readable hmac fromStr call outcome.1) := by
  intro file outcome
  obtain ⟨table, -, holds⟩ := @runCalls_holds hmac fromStr reads earlier none .empty rfl
  obtain ⟨middle, continued⟩ := @run_continued hmac fromStr reads call file table holds
  refine ⟨?_, ?_, continued.readable⟩
  · intro responses succeeded
    exact (continued.answers responses succeeded).imp fun command answer given =>
      ⟨(kept_iff reads continued.holds).mpr given.1, given.2⟩
  · intro number command kept
    have member := (kept_iff reads continued.holds).mp kept
    obtain ⟨last, further, held⟩ := @runCalls_holds hmac fromStr reads later _ middle continued.holds
    exact permanent_of_entry reads held (further.entries.subset member)

/-- Surroundings in which nothing fails. -/
def undisturbed : Surroundings :=
  ⟨.ok (bytesOf "/work"), .ok (), .ok (), .ok (), .ok (), .ok (), .ok (), .ok [7], .ok [7], .ok (),
    .ok (), .ok (), .ok (), .ok (), .ok (), .ok ()⟩

def firstCall : Call :=
  ⟨⟨bytesOf "/work", bytesOf "/work/sub", bytesOf "sub"⟩, undisturbed,
    [.applyPlan "paused" "first" "sha256:1" false]⟩

theorem firstCall_numbers :
    (firstCall.run (fun _ _ => "") parseSlice none).2.toOption.map (·.map (·.number)) =
      some [1] := by
  decide +kernel

/-- The command of a first call stands under number one for good. -/
theorem register_stable_first :
    Permanent (fun _ _ => "") parseSlice
      (runCalls (fun _ _ => "") parseSlice [firstCall]
        (firstCall.run (fun _ _ => "") parseSlice none).1)
      1 (.applyPlan "paused" "first" "sha256:1" false) := by
  obtain ⟨responses, succeeded, numbers⟩ := Option.map_eq_some_iff.mp firstCall_numbers
  have stable := @register_stable (fun _ _ => "") parseSlice parseSlice_reads [] [firstCall]
    firstCall
  have kept := stable.1 responses (eq_ok_of_toOption succeeded)
  cases kept with
  | @cons command answer commands answers first others =>
      have one : answer.number = 1 := List.head_eq_of_cons_eq numbers
      exact stable.2.1 1 _ (one ▸ first.1)

end Kvist.Decision
