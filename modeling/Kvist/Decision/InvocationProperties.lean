import Kvist.Decision.Invocation

/-!
# Command lines that invoke what they show

The words of a printed command line are the arguments that it was printed for. Parsed again, they
come to the action of the command, unless its option starts with a hyphen.
-/

set_option autoImplicit false

namespace Kvist.Decision

open CommandLine Json ShellWords

/-! ## Words -/

theorem printArgument_spells (quoted : Bool) (argument : Word) :
    Spells (printArgument quoted argument) argument := by
  cases quoted with
  | false => exact shellToken_spells argument
  | true => exact quote_spells argument

theorem splitWords_commandLine {program : Word} (spelled : Spells program program)
    (arguments : List (Bool × Word)) :
    splitWords (commandLine program arguments) = some (program :: arguments.map (·.2)) := by
  refine splitWords_intercalate (.cons spelled ?_)
  induction arguments with
  | nil => exact .nil
  | cons argument rest ih => exact .cons (printArgument_spells argument.1 argument.2) ih

/-- The component as a word: behind `./` if it could be taken for something else. -/
def componentWord (component : List UInt8) : Word :=
  let text := Utf8.fromUtf8Lossy component
  if ['-'].isPrefixOf text || subcommands.contains text then '.' :: '/' :: text else text

theorem componentArgument_spells (component : List UInt8) :
    Spells (componentArgument component) (componentWord component) := by
  rw [componentArgument, componentWord]
  split
  · exact shellToken_spells _
  · exact shellToken_spells _

theorem spells_literal {text : Word} (nonempty : text ≠ [])
    (inert : (text.all fun character => !active character &&
      !(['\x27', '"', '\\', '#'].contains character)) = true) : Spells text text := by
  refine spells_self nonempty fun character member => ?_
  have quiet := List.all_eq_true.mp inert character member
  simpa using quiet

theorem program_spells : Spells programName programName :=
  spells_literal (by decide) (by decide)

theorem decision_spells : Spells decisionName decisionName :=
  spells_literal (by decide) (by decide)

/-- The words that a command is shown as behind its component. -/
def commandWords : Command → List Word
  | .optionPlan task catalogDigest option _ =>
      [planName, long taskName, task.toList, long optionName, option.toList, long catalogName,
        catalogDigest.toList]
  | .applyPlan _ planId approval continueRun =>
      [applyName, planId.toList, long approveName, approval.toList] ++
        if continueRun then [long continueName] else []

def commandTokens : Command → List (List Char)
  | .optionPlan task catalogDigest option _ =>
      [planName, long taskName, shellToken task.toList, long optionName, quote option.toList,
        long catalogName, quote catalogDigest.toList]
  | .applyPlan _ planId approval continueRun =>
      [applyName, quote planId.toList, long approveName, quote approval.toList] ++
        if continueRun then [long continueName] else []

theorem commandTokens_spell (command : Command) :
    List.Forall₂ Spells (commandTokens command) (commandWords command) := by
  cases command with
  | optionPlan task catalogDigest option title =>
      refine .cons (spells_literal (by decide) (by decide)) <|
        .cons (spells_literal (by decide) (by decide)) <| .cons (shellToken_spells _) <|
        .cons (spells_literal (by decide) (by decide)) <| .cons (quote_spells _) <|
        .cons (spells_literal (by decide) (by decide)) <| .cons (quote_spells _) .nil
  | applyPlan task planId approval continueRun =>
      refine .cons (spells_literal (by decide) (by decide)) <| .cons (quote_spells _) <|
        .cons (spells_literal (by decide) (by decide)) <| .cons (quote_spells _) ?_
      cases continueRun with
      | false => exact .nil
      | true => exact .cons (spells_literal (by decide) (by decide)) .nil

theorem expansion_eq (component : PathBytes) (command : Command) :
    expansion component command =
      [' '].intercalate (programName :: decisionName :: componentArgument component ::
        commandTokens command) := by
  have opening : openingPart = programName ++ ' ' :: (decisionName ++ [' ']) := by
    decide
  cases command with
  | optionPlan task catalogDigest option title =>
      have first : planPart = ' ' :: (planName ++ ' ' :: (long taskName ++ [' '])) := by
        decide
      have second : optionPart = ' ' :: (long optionName ++ [' ']) := by decide
      have third : catalogPart = ' ' :: (long catalogName ++ [' ']) := by decide
      simp only [expansion, commandTokens, opening, first, second, third,
        List.intercalate_cons_cons, List.intercalate_singleton, List.append_assoc,
        List.cons_append, List.nil_append]
  | applyPlan task planId approval continueRun =>
      have first : applyPart = ' ' :: (applyName ++ [' ']) := by decide
      have second : approvePart = ' ' :: (long approveName ++ [' ']) := by decide
      have third : continuePart = ' ' :: long continueName := by decide
      cases continueRun with
      | false =>
          simp only [expansion, commandTokens, opening, first, second, Bool.false_eq_true, if_false,
            List.intercalate_cons_cons, List.intercalate_singleton, List.append_assoc,
            List.cons_append, List.nil_append, List.append_nil]
      | true =>
          simp only [expansion, commandTokens, opening, first, second, third, if_true,
            List.intercalate_cons_cons, List.intercalate_singleton, List.append_assoc,
            List.cons_append, List.nil_append]

theorem splitWords_expansion (component : PathBytes) (command : Command) :
    splitWords (expansion component command) =
      some (programName :: decisionName :: componentWord component :: commandWords command) := by
  rw [expansion_eq]
  exact splitWords_intercalate (.cons program_spells (.cons decision_spells
    (.cons (componentArgument_spells component) (commandTokens_spell command))))

/-! ## Values that are not taken for options -/

theorem not_hyphenated {word : Word} (other : word.head? ≠ some '-') : hyphenated word = false := by
  rw [hyphenated, beq_eq_false_iff_ne.mpr other, Bool.false_and]

theorem plain_task {task : String} (valid : Queue.validTaskId task = true) :
    task.toList ≠ [] ∧ hyphenated task.toList = false := by
  simp only [Queue.validTaskId, Bool.and_eq_true, bne_iff_ne] at valid
  exact ⟨valid.1.1.1.1.1, not_hyphenated valid.1.1.1.2⟩

theorem plain_digest {text : String} (valid : isDigest text = true) :
    text.toList ≠ [] ∧ hyphenated text.toList = false := by
  rw [isDigest] at valid
  cases stripped : Text.stripLeading digestPrefix text.toList with
  | none => rw [stripped] at valid; cases valid
  | some hex =>
      have begins : digestPrefix = 's' :: "ha256:".toList := by decide
      rw [Text.stripLeading_eq_some_iff.mp stripped, begins, List.cons_append]
      exact ⟨List.cons_ne_nil _ _, not_hyphenated (by simp)⟩

theorem plain_planId {id : String} (valid : validPlanId id = true) :
    id.toList ≠ [] ∧ hyphenated id.toList = false := by
  rw [validPlanId, Bool.and_eq_true, beq_iff_eq, List.all_eq_true] at valid
  obtain ⟨length, digits⟩ := valid
  cases whole : id.toList with
  | nil => rw [whole] at length; cases length
  | cons first rest =>
      refine ⟨List.cons_ne_nil _ _, not_hyphenated ?_⟩
      rw [List.head?_cons]
      rintro same
      have digit := digits first (whole ▸ List.mem_cons_self)
      rw [Option.some.inj same] at digit
      exact absurd digit (by decide)

theorem option_nonempty {option : String} (valid : validOptionId option = true) :
    option.toList ≠ [] := by
  simp only [validOptionId, Bool.and_eq_true, Bool.not_eq_true', List.isEmpty_eq_false_iff] at valid
  exact valid.1.1

theorem subcommand_none {word : Word} (other : word ∉ subcommands) :
    decisionDeclaration.subcommand? word = none := by
  have listed : ∀ name ∈ decisionDeclaration.subcommands.map (·.1), name ∈ subcommands := by
    decide
  rw [Declaration.subcommand?, Option.map_eq_none_iff, List.find?_eq_none]
  intro entry member same
  exact other (beq_iff_eq.mp same ▸ listed entry.1 (List.mem_map_of_mem member))

theorem fromUtf8Lossy_of_fromUtf8 {component : PathBytes} {text : List Char}
    (isText : Utf8.fromUtf8 component = some text) : Utf8.fromUtf8Lossy component = text := by
  rw [← Utf8.fromUtf8_eq_some_iff.mp isText, Utf8.fromUtf8Lossy_utf8]

theorem plain_component {component : PathBytes} {text : List Char} (nonempty : component ≠ [])
    (isText : Utf8.fromUtf8 component = some text) :
    componentWord component ≠ [] ∧ hyphenated (componentWord component) = false ∧
      decisionDeclaration.subcommand? (componentWord component) = none := by
  rw [componentWord, fromUtf8Lossy_of_fromUtf8 isText]
  split
  · refine ⟨List.cons_ne_nil _ _, not_hyphenated (by simp), subcommand_none ?_⟩
    intro member
    have first : ∀ name ∈ subcommands, name.head? ≠ some '.' := by decide
    exact first _ member rfl
  · rename_i safe
    simp only [Bool.or_eq_true, not_or, List.contains_eq_mem, decide_eq_true_eq] at safe
    refine ⟨?_, not_hyphenated ?_, subcommand_none safe.2⟩
    · rintro rfl
      exact nonempty (Utf8.fromUtf8_eq_some_iff.mp isText).symm
    · intro first
      obtain ⟨rest, rfl⟩ := List.head?_eq_some_iff.mp first
      exact safe.1 (by simp [List.isPrefixOf])

/-! ## Parsing -/

/-- What a command leaves to be complete depends on the names and the number of its items. -/
theorem complete_eq {declaration : Declaration} {items : List Item} {given : List Word}
    {count : Nat} (named : names items = given) (counted : positionalCount items = count) :
    declaration.complete items =
      (declaration.required ≤ count && declaration.mandatory.all given.contains &&
        declaration.requires.all (fun pair => !given.contains pair.1 || given.contains pair.2) &&
        declaration.conflicts.all fun pair => !(given.contains pair.1 && given.contains pair.2)) := by
  rw [Declaration.complete, named, counted]

variable {parse : Parser} {others : List (Word × Declaration)}

theorem parse_decision (lawful : Lawful parse) {component name : Word} {inner : Declaration}
    {rest : List Word} (plain : component ≠ [] ∧ hyphenated component = false ∧
      decisionDeclaration.subcommand? component = none)
    (named : hyphenated name = false) (found : decisionDeclaration.subcommand? name = some inner) :
    parse (programDeclaration others) (decisionName :: component :: name :: rest) =
      (parse inner rest).map fun matched =>
        ([], [(decisionName, [.positional component]), (name, matched.1)] ++ matched.2) := by
  have outer := lawful.descends (programDeclaration others) decisionDeclaration [] decisionName
    (component :: name :: rest) ⟨by simp, List.nodup_nil, Nat.le_refl _⟩
    (by rw [complete_eq rfl rfl]; rfl) (by decide) (by
      simp [Declaration.subcommand?, programDeclaration])
  have middle := lawful.descends decisionDeclaration inner [.positional component] name rest
    ⟨by simpa [Declaration.Knows] using plain, List.nodup_nil, Nat.le_refl _⟩
    (by rw [complete_eq rfl rfl]; rfl) named found
  simp only [List.flatMap_nil, List.nil_append] at outer
  simp only [List.flatMap_cons, List.flatMap_nil, Item.words, List.cons_append, List.nil_append]
    at middle
  rw [outer, middle, Option.map_map]
  rfl

theorem optionValue_cons (name other value : Word) (items : List Item) :
    optionValue name (.option other value :: items) =
      if other = name then some value else optionValue name items := by
  rw [optionValue, List.findSome?_cons]
  split <;> simp_all [optionValue]

/-- The items of an option command, as far as its option. -/
theorem parse_plan (lawful : Lawful parse) {task option catalog : Word}
    (plainTask : task ≠ [] ∧ hyphenated task = false)
    (plainOption : option ≠ [] ∧ hyphenated option = false)
    (plainCatalog : catalog ≠ [] ∧ hyphenated catalog = false) :
    parse planDeclaration [long taskName, task, long optionName, option, long catalogName,
        catalog] =
      some ([.option taskName task, .option optionName option, .option catalogName catalog],
        []) := by
  refine lawful.reads planDeclaration
    [.option taskName task, .option optionName option, .option catalogName catalog] ⟨?_, ?_, ?_⟩ ?_
  · intro item member
    simp only [List.mem_cons, List.not_mem_nil, or_false] at member
    rcases member with rfl | rfl | rfl
    · exact ⟨by decide, plainTask⟩
    · exact ⟨by decide, plainOption⟩
    · exact ⟨by decide, plainCatalog⟩
  · change [taskName, optionName, catalogName].Nodup
    decide
  · exact Nat.le_refl 0
  · have checked : (decide (planDeclaration.required ≤ 0) &&
        planDeclaration.mandatory.all [taskName, optionName, catalogName].contains &&
        planDeclaration.requires.all (fun pair =>
          !([taskName, optionName, catalogName].contains pair.1) ||
            [taskName, optionName, catalogName].contains pair.2) &&
        planDeclaration.conflicts.all fun pair =>
          !([taskName, optionName, catalogName].contains pair.1 &&
            [taskName, optionName, catalogName].contains pair.2)) = true := by
      decide
    rw [← checked]
    exact complete_eq rfl rfl

theorem parse_plan_refused (lawful : Lawful parse) {task option catalog : Word}
    (plainTask : task ≠ [] ∧ hyphenated task = false) (hyphen : hyphenated option = true) :
    parse planDeclaration [long taskName, task, long optionName, option, long catalogName,
        catalog] = none := by
  refine lawful.refuses planDeclaration [.option taskName task] optionName option
    [long catalogName, catalog] ⟨?_, List.nodup_singleton _, Nat.le_refl 0⟩ (by decide) ?_
    hyphen
  · intro item member
    rw [List.mem_singleton.mp member]
    exact ⟨by decide, plainTask⟩
  · change optionName ∉ [taskName]
    decide

theorem invocation_plan (lawful : Lawful parse) {component task option catalog : Word}
    (plainComponent : component ≠ [] ∧ hyphenated component = false ∧
      decisionDeclaration.subcommand? component = none)
    (plainTask : task ≠ [] ∧ hyphenated task = false) (nonempty : option ≠ [])
    (plainCatalog : catalog ≠ [] ∧ hyphenated catalog = false) :
    invocation parse others [programName, decisionName, component, planName, long taskName, task,
        long optionName, option, long catalogName, catalog] =
      if hyphenated option then none
      else some (component, .plan (some task) (some option) (some catalog) none none none) := by
  have found : decisionDeclaration.subcommand? planName = some planDeclaration := rfl
  have outer := @parse_decision parse others lawful component planName planDeclaration
    [long taskName, task, long optionName, option, long catalogName, catalog] plainComponent
    (by decide) found
  rw [invocation, outer]
  split
  · rename_i hyphen
    rw [parse_plan_refused lawful plainTask hyphen]
    rfl
  · rename_i plain
    rw [parse_plan lawful plainTask ⟨nonempty, by simpa using plain⟩ plainCatalog]
    simp only [Option.map_some, Option.bind_some, List.cons_append, List.nil_append, if_true,
      positionalValues, List.filterMap_cons, List.filterMap_nil, actionOf, optionValue_cons]
    rfl

theorem parse_apply (lawful : Lawful parse) {planId approval : Word} (continueRun : Bool)
    (plainId : planId ≠ [] ∧ hyphenated planId = false)
    (plainApproval : approval ≠ [] ∧ hyphenated approval = false) :
    parse applyDeclaration ([planId, long approveName, approval] ++
        if continueRun then [long continueName] else []) =
      some ([.positional planId, .option approveName approval] ++
        if continueRun then [.flag continueName] else [], []) := by
  have words : [planId, long approveName, approval] ++
      (if continueRun then [long continueName] else []) =
        ([Item.positional planId, Item.option approveName approval] ++
          if continueRun then [Item.flag continueName] else []).flatMap Item.words := by
    cases continueRun <;> rfl
  rw [words]
  refine lawful.reads applyDeclaration _ ⟨?_, ?_, ?_⟩ ?_
  · intro item member
    have listed : item = .positional planId ∨ item = .option approveName approval ∨
        item = .flag continueName := by
      cases continueRun <;> simp at member <;> tauto
    rcases listed with rfl | rfl | rfl
    · exact ⟨plainId.1, plainId.2, rfl⟩
    · exact ⟨by decide, plainApproval⟩
    · exact ⟨by decide, by decide⟩
  · cases continueRun with
    | false => exact List.nodup_singleton _
    | true =>
        change [approveName, continueName].Nodup
        decide
  · cases continueRun <;> exact Nat.le_refl 1
  · cases continueRun <;> rfl

theorem invocation_apply (lawful : Lawful parse) {component planId approval : Word}
    (continueRun : Bool) (plainComponent : component ≠ [] ∧ hyphenated component = false ∧
      decisionDeclaration.subcommand? component = none)
    (plainId : planId ≠ [] ∧ hyphenated planId = false)
    (plainApproval : approval ≠ [] ∧ hyphenated approval = false) :
    invocation parse others (programName :: decisionName :: component :: applyName ::
        ([planId, long approveName, approval] ++
          if continueRun then [long continueName] else [])) =
      some (component, .apply planId approval continueRun) := by
  have outer := @parse_decision parse others lawful component applyName applyDeclaration
    ([planId, long approveName, approval] ++ if continueRun then [long continueName] else [])
    plainComponent (by decide) rfl
  rw [invocation, outer, parse_apply lawful continueRun plainId plainApproval]
  cases continueRun <;> rfl

/-! ## The component -/

theorem components_dot_slash (path : PathBytes) :
    components (dot :: slash :: path) =
      (false, [dot] :: ((path.splitOn slash).filter (!·.isEmpty)).filter (· != [dot])) := by
  have parts : ([dot] ++ slash :: path).splitOn slash = [dot] :: path.splitOn slash :=
    List.splitOn_append_cons_self_of_not_mem (by decide) path
  rw [List.singleton_append] at parts
  rw [components, parts]
  rfl

/-- Without any `.`, a path's parts are all that stands between its slashes. -/
theorem filter_components (path : PathBytes) :
    (components path).2.filter (· != [dot]) =
      ((path.splitOn slash).filter (!·.isEmpty)).filter (· != [dot]) := by
  rw [components]
  dsimp only
  rw [List.filter_append, List.filter_filter, List.filter_filter]
  have first : ((path.splitOn slash).filter (!·.isEmpty) |>.take 1).filter
      (fun part => part != [dot] && (!isAbsolute path || part != [dot])) =
        ((path.splitOn slash).filter (!·.isEmpty) |>.take 1).filter (· != [dot]) := by
    apply List.filter_congr
    intro part _
    cases part != [dot] <;> simp
  rw [first]
  simp only [Bool.and_self]
  rw [← List.filter_append, List.take_append_drop]

/-- A path from the root of the components stays the same behind `./`. -/
theorem normalizeComponentPath_dot_slash {path : PathBytes}
    (normal : normalizeComponentPath path = some path) :
    normalizeComponentPath (dot :: slash :: path) = some path := by
  rw [normalizeComponentPath] at normal
  split at normal
  · obtain rfl := Option.some.inj normal
    decide
  · dsimp only at normal
    split at normal
    · cases normal
    · rename_i proper
      have same := Option.some.inj normal
      rw [filter_components] at proper same
      simp only [Bool.or_eq_true, not_or, List.isEmpty_iff] at proper
      rw [normalizeComponentPath, components_dot_slash, if_neg]
      · have kept : ([dot] :: ((path.splitOn slash).filter (!·.isEmpty)).filter
            (· != [dot])).filter (· != [dot]) =
              ((path.splitOn slash).filter (!·.isEmpty)).filter (· != [dot]) := by
          rw [List.filter_cons_of_neg (by decide), List.filter_filter]
          simp only [Bool.and_self]
        dsimp only
        rw [kept, if_neg, same]
        simp only [Bool.or_eq_true, not_or, List.isEmpty_iff]
        exact ⟨⟨proper.1.1, Bool.eq_false_iff.mp rfl⟩, proper.2⟩
      · rintro single
        exact proper.1.1 (List.cons.inj (Prod.mk.inj single).2).2

theorem normalize_componentWord {component : PathBytes} {text : List Char}
    (normal : normalizeComponentPath component = some component)
    (isText : Utf8.fromUtf8 component = some text) :
    normalizeComponentPath (utf8 (componentWord component)) = some component := by
  have bytes := Utf8.fromUtf8_eq_some_iff.mp isText
  rw [componentWord, fromUtf8Lossy_of_fromUtf8 isText]
  split
  · have behind : utf8 ('.' :: '/' :: text) = dot :: slash :: component := by
      rw [← bytes]
      rfl
    rw [behind]
    exact normalizeComponentPath_dot_slash normal
  · rw [bytes]
    exact normal

theorem normalize_nonempty {component : PathBytes}
    (normal : normalizeComponentPath component = some component) : component ≠ [] := by
  rintro rfl
  revert normal
  decide

/-! ## Invoking what is shown -/

theorem optionPlan_parsesBack_iff (lawful : Lawful parse) {component : PathBytes}
    {text : List Char} (normal : normalizeComponentPath component = some component)
    (isText : Utf8.fromUtf8 component = some text) {task catalogDigest option title : String}
    (registrable : (Command.optionPlan task catalogDigest option title).registrable = true) :
    ParsesBack parse others component (.optionPlan task catalogDigest option title) ↔
      hyphenated option.toList = false := by
  have split := splitWords_expansion component (.optionPlan task catalogDigest option title)
  simp only [Command.registrable, Bool.and_eq_true] at registrable
  have invoked := @invocation_plan parse others lawful _ _ _ _
    (plain_component (normalize_nonempty normal) isText) (plain_task registrable.1.1)
    (option_nonempty registrable.2) (plain_digest registrable.1.2)
  constructor
  · rintro ⟨words, argument, words', parsed, -⟩
    rw [split] at words'
    obtain rfl := Option.some.inj words'
    rw [commandWords, invoked] at parsed
    by_contra hyphen
    rw [Bool.not_eq_false] at hyphen
    rw [if_pos hyphen] at parsed
    cases parsed
  · intro plain
    refine ⟨_, _, split, ?_, normalize_componentWord normal isText⟩
    rw [commandWords, invoked, if_neg (Bool.eq_false_iff.mp plain)]
    rfl

theorem applyPlan_parsesBack (lawful : Lawful parse) {component : PathBytes}
    {text : List Char} (normal : normalizeComponentPath component = some component)
    (isText : Utf8.fromUtf8 component = some text) {task planId approval : String}
    {continueRun : Bool}
    (registrable : (Command.applyPlan task planId approval continueRun).registrable = true) :
    ParsesBack parse others component (.applyPlan task planId approval continueRun) := by
  have split := splitWords_expansion component (.applyPlan task planId approval continueRun)
  simp only [Command.registrable, Bool.and_eq_true] at registrable
  have invoked := @invocation_apply parse others lawful _ _ _ continueRun
    (plain_component (normalize_nonempty normal) isText) (plain_planId registrable.1.2)
    (plain_digest registrable.2)
  exact ⟨_, _, split, invoked, normalize_componentWord normal isText⟩

/-- Printed arguments are the words of the line, and the line of a registered command invokes it
exactly if its option does not start with a hyphen. -/
theorem parsesBack_iff (lawful : Lawful parse) {component : PathBytes} {text : List Char}
    (normal : normalizeComponentPath component = some component)
    (isText : Utf8.fromUtf8 component = some text) {command : Command}
    (registrable : command.registrable = true) (arguments : List (Bool × Word)) :
    splitWords (commandLine programName arguments) =
        some (programName :: arguments.map (·.2)) ∧
      (ParsesBack parse others component command ↔ command.optionHyphenated = false) := by
  refine ⟨splitWords_commandLine program_spells arguments, ?_⟩
  cases command with
  | optionPlan task catalogDigest option title =>
      exact optionPlan_parsesBack_iff lawful normal isText registrable
  | applyPlan task planId approval continueRun =>
      exact ⟨fun _ => rfl, fun _ => applyPlan_parsesBack lawful normal isText registrable⟩

def sampleDigest : String := "sha256:" ++ String.ofList (List.replicate 64 'a')

def subComponent : PathBytes := [115, 117, 98]

theorem parsesBack_iff_retry :
    ParsesBack readArguments [] subComponent
      (.optionPlan "paused" sampleDigest "retry" "Try again") :=
  ((parsesBack_iff readArguments_lawful (by decide) (rfl : Utf8.fromUtf8 subComponent = some _)
    (by decide) []).2).mpr (by decide)

/-- An option that starts with a hyphen is registered, and its line invokes nothing. -/
theorem hyphenated_option_lost :
    (Command.optionPlan "paused" sampleDigest "-retry" "Try again").registrable = true ∧
      ¬ParsesBack readArguments [] subComponent
        (.optionPlan "paused" sampleDigest "-retry" "Try again") := by
  have registrable :
      (Command.optionPlan "paused" sampleDigest "-retry" "Try again").registrable = true := by
    decide
  refine ⟨registrable, fun parsed => ?_⟩
  have plain := (optionPlan_parsesBack_iff readArguments_lawful (by decide)
    (rfl : Utf8.fromUtf8 subComponent = some _) registrable).mp parsed
  exact absurd plain (by decide)

end Kvist.Decision
