import Kvist.Command.Render

/-!
# What a template is rendered as

The placeholders of an argument have their values at once, whatever the values say, as long as no
value brings in a placeholder that is replaced after it.
-/

set_option autoImplicit false

namespace Kvist.Command

open Occurrences Placeholders Text

def placeholders : List Placeholder :=
  [.promptJson, .prompt, .targetDirectory, .reasoningEffort, .contextFiles]

theorem placeholders_bracketed : Bracketed placeholders Placeholder.text '\x7b' where
  complete := by
    intro name
    cases name <;> decide
  opens := by
    intro name
    cases name <;> exact ⟨_, rfl, by decide⟩
  apart := by
    intro first second
    cases first <;> cases second <;> decide

def valueOf (request : Request) (context : List Char) : Placeholder → List Char
  | .promptJson => jsonString request.prompt
  | .prompt => request.prompt
  | .targetDirectory => (Utf8.fromUtf8 request.targetDir).getD []
  | .reasoningEffort => (request.reasoningEffort.map fun effort => effort.asStr.toList).getD []
  | .contextFiles => context

def fillArgument (request : Request) (context raw : List Char) : List Char :=
  fill placeholders Placeholder.text (valueOf request context) raw

/-- An argument that is nothing but a placeholder without a value. -/
def absentAlone (request : Request) (raw : List Char) : Bool :=
  (raw == Placeholder.reasoningEffort.text && request.reasoningEffort.isNone) ||
    (raw == Placeholder.contextFiles.text && request.contextPaths.isEmpty)

/-- An argument with each placeholder replaced by its value in one pass. -/
def fillOnce (request : Request) (arguments : List (List Char)) (raw : List Char) :
    Except Failure (List (List Char)) := do
  ensure (!(containsText Placeholder.targetDirectory.text raw &&
      (Utf8.fromUtf8 request.targetDir).isNone)) (directoryFailure request.targetDir)
  if absentAlone request raw ∧ afterOption arguments then return arguments.dropLast
  else if containsText Placeholder.contextFiles.text raw ∧ request.contextPaths ≠ [] then
    pushContext request.contextPaths (fun path => fillArgument request path raw) arguments
  else return arguments ++ [fillArgument request [] raw]

/-- The argument where only these placeholders are replaced. -/
def fillOnly (request : Request) (replaced : List Placeholder) (raw : List Char) : List Char :=
  fill placeholders Placeholder.text
    (fun name => if name ∈ replaced then valueOf request [] name else name.text) raw

def BringsIn (request : Request) (replaced : List Placeholder) (later : Placeholder)
    (raw : List Char) : Prop :=
  countOf later.text (fillOnly request replaced raw) ≠ countOf later.text raw

instance (request : Request) (replaced : List Placeholder) (later : Placeholder)
    (raw : List Char) : Decidable (BringsIn request replaced later raw) :=
  inferInstanceAs (Decidable (_ ≠ _))

structure Undisturbed (request : Request) (raw : List Char) : Prop where
  prompt : ¬BringsIn request [.promptJson] .prompt raw
  targetDirectory : ¬BringsIn request [.promptJson, .prompt] .targetDirectory raw
  reasoningEffort : containsText Placeholder.reasoningEffort.text raw = true →
    ¬BringsIn request [.promptJson, .prompt, .targetDirectory] .reasoningEffort raw ∧
      containsText Placeholder.contextFiles.text raw = false
  contextFiles : containsText Placeholder.contextFiles.text raw = true →
    ¬BringsIn request [.promptJson, .prompt, .targetDirectory] .contextFiles raw

def DirectoryRead (request : Request) (raw : List Char) : Prop :=
  Utf8.fromUtf8 request.targetDir ≠ none ∨
    containsText Placeholder.targetDirectory.text raw = false ∧
      ¬BringsIn request [.promptJson] .prompt raw ∧
        ¬BringsIn request [.promptJson, .prompt] .targetDirectory raw

/-- An argument that fails in one pass as it does with one replacement after the other: it asks for
a path that is no text. -/
inductive FailsAlike (request : Request) (raw : List Char) : Prop where
  | directory :
      containsText Placeholder.targetDirectory.text raw = true →
      Utf8.fromUtf8 request.targetDir = none → FailsAlike request raw
  | context {path : List UInt8} :
      containsText Placeholder.reasoningEffort.text raw = false →
      containsText Placeholder.contextFiles.text raw = true →
      path ∈ request.contextPaths → Utf8.fromUtf8 path = none →
      DirectoryRead request raw → FailsAlike request raw

/-- The arguments up to the first that fails are undisturbed. Nothing is asked of those behind it. -/
inductive AllUndisturbed (request : Request) : List (List Char) → Prop where
  | nil : AllUndisturbed request []
  | fails {raw : List Char} {rest : List (List Char)} :
      FailsAlike request raw → AllUndisturbed request (raw :: rest)
  | cons {raw : List Char} {rest : List (List Char)} :
      Undisturbed request raw → AllUndisturbed request rest → AllUndisturbed request (raw :: rest)

/-! ## Replacing one after the other -/

theorem containsText_eq (needle text : List Char) :
    containsText needle text = decide (countOf needle text ≠ 0) := by
  rw [containsText, countOf, Bool.eq_iff_iff, decide_eq_true_eq, Ne, List.countP_eq_zero,
    List.any_eq_true]
  push Not
  rfl

section Argument

variable {request : Request} {raw : List Char}

theorem fillOnly_nil : fillOnly request [] raw = raw := by
  have written : (fun name : Placeholder => if name ∈ ([] : List Placeholder) then
      valueOf request [] name else name.text) = Placeholder.text := by
    funext name
    exact if_neg List.not_mem_nil
  rw [fillOnly, written]
  exact placeholders_bracketed.fill_self raw

theorem replace_fillOnly {replaced : List Placeholder} {later : Placeholder}
    (new : later ∉ replaced) (undisturbed : ¬BringsIn request replaced later raw)
    (value : List Char) :
    replace later.text value (fillOnly request replaced raw) =
      fill placeholders Placeholder.text (Function.update
        (fun name => if name ∈ replaced then valueOf request [] name else name.text) later value)
        raw :=
  placeholders_bracketed.replace_fill (if_neg new) (not_not.mp undisturbed) value

theorem replace_fillOnly_value {replaced : List Placeholder} {later : Placeholder}
    (new : later ∉ replaced) (undisturbed : ¬BringsIn request replaced later raw) :
    replace later.text (valueOf request [] later) (fillOnly request replaced raw) =
      fillOnly request (replaced ++ [later]) raw := by
  rw [replace_fillOnly new undisturbed, fillOnly]
  congr 1
  funext name
  by_cases same : name = later
  · rw [same, Function.update_self, if_pos (by simp)]
  · rw [Function.update_of_ne same]
    simp only [List.mem_append, List.mem_singleton, same, or_false]

theorem replace_prompts (undisturbed : ¬BringsIn request [.promptJson] .prompt raw) :
    replace Placeholder.prompt.text request.prompt
        (replace Placeholder.promptJson.text (jsonString request.prompt) raw) =
      fillOnly request [.promptJson, .prompt] raw := by
  have first : replace Placeholder.promptJson.text (valueOf request [] .promptJson)
      (fillOnly request [] raw) = fillOnly request [.promptJson] raw :=
    replace_fillOnly_value List.not_mem_nil (not_not.mpr (by rw [fillOnly_nil]))
  rw [fillOnly_nil] at first
  refine Eq.trans (congrArg _ first) ?_
  exact replace_fillOnly_value (by decide) undisturbed

theorem countOf_eq_zero {needle text : List Char} (absent : containsText needle text = false) :
    countOf needle text = 0 := by
  rw [containsText_eq, decide_eq_false_iff_not, not_not] at absent
  exact absent

/-- The directory as well, wherever it is asked for. -/
theorem replace_directory (undisturbed : Undisturbed request raw) {Result : Type}
    (next : List Char → Except Failure Result) :
    (do
      let rendered ←
        if containsText Placeholder.targetDirectory.text
            (fillOnly request [.promptJson, .prompt] raw) then do
          let directory ← toStr directoryFailure request.targetDir
          pure (replace Placeholder.targetDirectory.text directory
            (fillOnly request [.promptJson, .prompt] raw))
        else pure (fillOnly request [.promptJson, .prompt] raw)
      next rendered) =
    (do
      ensure (!(containsText Placeholder.targetDirectory.text raw &&
        (Utf8.fromUtf8 request.targetDir).isNone)) (directoryFailure request.targetDir)
      next (fillOnly request [.promptJson, .prompt, .targetDirectory] raw)) := by
  have same : containsText Placeholder.targetDirectory.text
      (fillOnly request [.promptJson, .prompt] raw) =
        containsText Placeholder.targetDirectory.text raw := by
    rw [containsText_eq, containsText_eq, not_not.mp undisturbed.targetDirectory]
  rw [same]
  cases asked : containsText Placeholder.targetDirectory.text raw with
  | false =>
      have whole : fillOnly request [.promptJson, .prompt] raw =
          fillOnly request [.promptJson, .prompt, .targetDirectory] raw := by
        refine placeholders_bracketed.fill_congr fun name present => ?_
        have other : name ≠ .targetDirectory := by
          rintro rfl
          exact present (countOf_eq_zero asked)
        simp only [List.mem_cons, List.not_mem_nil, other, or_false]
      rw [if_neg Bool.false_ne_true, Bool.false_and, Bool.not_false, ensure_true, ok_bind,
        pure_eq_ok, ok_bind, whole]
  | true =>
      rw [if_pos rfl, Bool.true_and]
      cases read : Utf8.fromUtf8 request.targetDir with
      | none =>
          rw [toStr, read]
          rfl
      | some directory =>
          have value : valueOf request [] .targetDirectory = directory := by
            rw [valueOf, read]
            rfl
          have replaced := replace_fillOnly_value
            (show Placeholder.targetDirectory ∉ [.promptJson, .prompt] by decide)
            undisturbed.targetDirectory
          rw [value] at replaced
          rw [toStr, read, Option.elim_some, ok_bind, replaced]
          rfl

theorem fillArgument_of_effort (absent : containsText Placeholder.contextFiles.text raw = false)
    (undisturbed : ¬BringsIn request [.promptJson, .prompt, .targetDirectory] .reasoningEffort raw)
    {value : List Char} (effort : valueOf request [] .reasoningEffort = value) :
    replace Placeholder.reasoningEffort.text value
        (fillOnly request [.promptJson, .prompt, .targetDirectory] raw) =
      fillArgument request [] raw := by
  rw [← effort, replace_fillOnly_value (by decide) undisturbed]
  refine placeholders_bracketed.fill_congr fun name present => ?_
  cases name with
  | contextFiles => exact absurd (countOf_eq_zero absent) present
  | promptJson => rfl
  | prompt => rfl
  | targetDirectory => rfl
  | reasoningEffort => rfl

theorem fillArgument_of_context (absent : containsText Placeholder.reasoningEffort.text raw = false)
    (undisturbed : ¬BringsIn request [.promptJson, .prompt, .targetDirectory] .contextFiles raw)
    (path : List Char) :
    replace Placeholder.contextFiles.text path
        (fillOnly request [.promptJson, .prompt, .targetDirectory] raw) =
      fillArgument request path raw := by
  rw [replace_fillOnly (by decide) undisturbed]
  refine placeholders_bracketed.fill_congr fun name present => ?_
  cases name with
  | reasoningEffort => exact absurd (countOf_eq_zero absent) present
  | contextFiles => rfl
  | promptJson => rfl
  | prompt => rfl
  | targetDirectory => rfl

theorem fillArgument_of_neither
    (noEffort : containsText Placeholder.reasoningEffort.text raw = false)
    (noContext : containsText Placeholder.contextFiles.text raw = false) :
    fillOnly request [.promptJson, .prompt, .targetDirectory] raw =
      fillArgument request [] raw := by
  refine placeholders_bracketed.fill_congr fun name present => ?_
  cases name with
  | reasoningEffort => exact absurd (countOf_eq_zero noEffort) present
  | contextFiles => exact absurd (countOf_eq_zero noContext) present
  | promptJson => rfl
  | prompt => rfl
  | targetDirectory => rfl

theorem ne_text_of_absent {name : Placeholder} (absent : containsText name.text raw = false) :
    raw ≠ name.text := by
  rintro rfl
  revert absent
  cases name <;> decide

theorem absentAlone_of_noEffort
    (noEffort : containsText Placeholder.reasoningEffort.text raw = false) :
    absentAlone request raw =
      (raw == Placeholder.contextFiles.text && request.contextPaths.isEmpty) := by
  rw [absentAlone, beq_false_of_ne (ne_text_of_absent noEffort), Bool.false_and, Bool.false_or]

theorem absentAlone_of_noContext
    (noContext : containsText Placeholder.contextFiles.text raw = false) :
    absentAlone request raw =
      (raw == Placeholder.reasoningEffort.text && request.reasoningEffort.isNone) := by
  rw [absentAlone, beq_false_of_ne (ne_text_of_absent noContext), Bool.false_and, Bool.or_false]

theorem renderArgument_eq (undisturbed : Undisturbed request raw) (arguments : List (List Char)) :
    renderArgument request arguments raw = fillOnce request arguments raw := by
  rw [renderArgument, fillOnce]
  dsimp only
  rw [replace_prompts undisturbed.prompt, replace_directory undisturbed]
  congr 1
  funext _
  cases effort : containsText Placeholder.reasoningEffort.text raw with
  | true =>
      obtain ⟨brings, noContext⟩ := undisturbed.reasoningEffort effort
      have noPaths : ¬(false = true ∧ request.contextPaths ≠ []) := fun both =>
        Bool.false_ne_true both.1
      rw [if_pos rfl, absentAlone_of_noContext noContext, noContext, if_neg noPaths]
      cases chosen : request.reasoningEffort with
      | some level =>
          have value : valueOf request [] .reasoningEffort = level.asStr.toList := by
            rw [valueOf, chosen]
            rfl
          have notAlone : ¬(false = true ∧ afterOption arguments = true) := fun both =>
            Bool.false_ne_true both.1
          rw [Option.isNone_some, Bool.and_false, if_neg notAlone]
          dsimp only
          rw [fillArgument_of_effort noContext brings value]
      | none =>
          have value : valueOf request [] .reasoningEffort = [] := by
            rw [valueOf, chosen]
            rfl
          dsimp only
          simp only [Option.isNone_none, Bool.and_true, beq_iff_eq,
            fillArgument_of_effort noContext brings value]
  | false =>
      rw [if_neg Bool.false_ne_true, absentAlone_of_noEffort effort]
      cases context : containsText Placeholder.contextFiles.text raw with
      | false =>
          rw [if_neg Bool.false_ne_true, beq_false_of_ne (ne_text_of_absent context),
            Bool.false_and, if_neg (fun both => Bool.false_ne_true both.1),
            if_neg (fun both => Bool.false_ne_true both.1), fillArgument_of_neither effort context]
      | true =>
          have filled := @fillArgument_of_context request raw effort
            (undisturbed.contextFiles context)
          rw [if_pos rfl]
          cases paths : request.contextPaths with
          | nil =>
              have noPaths : ¬(true = true ∧ ([] : List (List UInt8)) ≠ []) := fun both => both.2 rfl
              rw [if_neg noPaths, List.isEmpty_nil, if_pos rfl]
              simp only [Bool.and_true, beq_iff_eq, filled]
          | cons path rest =>
              have somePaths : true = true ∧ path :: rest ≠ [] := ⟨rfl, List.cons_ne_nil _ _⟩
              rw [List.isEmpty_cons, if_neg Bool.false_ne_true, Bool.and_false,
                if_neg (fun both => Bool.false_ne_true both.1), if_pos somePaths, funext filled]

/-! ## Arguments that fail -/

theorem pushContext_error {contextPaths : List (List UInt8)} {path : List UInt8}
    (member : path ∈ contextPaths) (unread : Utf8.fromUtf8 path = none) :
    ∃ failure, ∀ rendered arguments,
      pushContext contextPaths rendered arguments = .error failure := by
  induction contextPaths with
  | nil => cases member
  | cons first rest ih =>
      cases read : Utf8.fromUtf8 first with
      | none =>
          refine ⟨contextFailure first, fun rendered arguments => ?_⟩
          rw [pushContext, List.foldlM_cons, toStr, read]
          rfl
      | some text =>
          have later : path ∈ rest := by
            rcases List.mem_cons.mp member with rfl | later
            · rw [unread] at read
              cases read
            · exact later
          obtain ⟨failure, failed⟩ := ih later
          refine ⟨failure, fun rendered arguments => ?_⟩
          rw [pushContext, List.foldlM_cons, toStr, read]
          exact failed rendered (arguments ++ [rendered text])

theorem containsText_prompts
    (asked : containsText Placeholder.targetDirectory.text raw = true) :
    containsText Placeholder.targetDirectory.text
      (replace Placeholder.prompt.text request.prompt
        (replace Placeholder.promptJson.text (jsonString request.prompt) raw)) = true := by
  have json := placeholders_bracketed.countOf_replace
    (show Placeholder.targetDirectory ≠ .promptJson by decide) (jsonString request.prompt) raw
  have prompt := placeholders_bracketed.countOf_replace
    (show Placeholder.targetDirectory ≠ .prompt by decide) request.prompt
    (replace Placeholder.promptJson.text (jsonString request.prompt) raw)
  rw [containsText_eq, decide_eq_true_eq] at asked ⊢
  omega

/-- Without a text for the directory, an argument is rendered only where it is not asked for. -/
theorem rendered_directory (read : DirectoryRead request raw) :
    ∃ rendered, ∀ {Result : Type} (next : List Char → Except Failure Result),
      (do
        let rendered ←
          if containsText Placeholder.targetDirectory.text
              (replace Placeholder.prompt.text request.prompt
                (replace Placeholder.promptJson.text (jsonString request.prompt) raw)) then do
            let directory ← toStr directoryFailure request.targetDir
            pure (replace Placeholder.targetDirectory.text directory
              (replace Placeholder.prompt.text request.prompt
                (replace Placeholder.promptJson.text (jsonString request.prompt) raw)))
          else pure (replace Placeholder.prompt.text request.prompt
            (replace Placeholder.promptJson.text (jsonString request.prompt) raw))
        next rendered) = next rendered := by
  rcases read with text | ⟨absent, prompt, directory⟩
  · obtain ⟨directory, found⟩ := Option.ne_none_iff_exists'.mp text
    rw [toStr, found]
    split
    · exact ⟨_, fun next => rfl⟩
    · exact ⟨_, fun next => rfl⟩
  · rw [replace_prompts prompt, containsText_eq, not_not.mp directory, ← containsText_eq, absent]
    exact ⟨_, fun next => rfl⟩

theorem renderArgument_fails (fails : FailsAlike request raw) :
    ∃ failure, ∀ arguments, renderArgument request arguments raw = .error failure ∧
      fillOnce request arguments raw = .error failure := by
  cases fails with
  | directory asked unread =>
      refine ⟨directoryFailure request.targetDir, fun arguments => ⟨?_, ?_⟩⟩
      · rw [renderArgument]
        dsimp only
        rw [if_pos (containsText_prompts asked), toStr, unread]
        rfl
      · rw [fillOnce, asked, unread]
        rfl
  | @context path noEffort asked member unread read =>
      obtain ⟨failure, failed⟩ := pushContext_error member unread
      obtain ⟨rendered, directory⟩ := rendered_directory read
      have nonempty : request.contextPaths ≠ [] := List.ne_nil_of_mem member
      have notEmpty : request.contextPaths.isEmpty = false := List.isEmpty_eq_false_iff.mpr nonempty
      have notAlone : absentAlone request raw = false := by
        rw [absentAlone_of_noEffort noEffort, notEmpty, Bool.and_false]
      have given : (!(containsText Placeholder.targetDirectory.text raw &&
          (Utf8.fromUtf8 request.targetDir).isNone)) = true := by
        rcases read with text | ⟨absent, -⟩
        · obtain ⟨directory, found⟩ := Option.ne_none_iff_exists'.mp text
          rw [found, Option.isNone_some, Bool.and_false, Bool.not_false]
        · rw [absent, Bool.false_and, Bool.not_false]
      refine ⟨failure, fun arguments => ⟨?_, ?_⟩⟩
      · rw [renderArgument]
        dsimp only
        rw [directory, noEffort, if_neg Bool.false_ne_true, asked, if_pos rfl, notEmpty,
          if_neg Bool.false_ne_true]
        exact failed _ _
      · rw [fillOnce, given, ensure_true, ok_bind, notAlone,
          if_neg (fun both => Bool.false_ne_true both.1), if_pos ⟨asked, nonempty⟩]
        exact failed _ _

theorem renderArguments_eq {rawArguments : List (List Char)}
    (undisturbed : AllUndisturbed request rawArguments) (arguments : List (List Char)) :
    rawArguments.foldlM (renderArgument request) arguments =
      rawArguments.foldlM (fillOnce request) arguments := by
  induction undisturbed generalizing arguments with
  | nil => rfl
  | fails fails =>
      obtain ⟨failure, failed⟩ := renderArgument_fails fails
      obtain ⟨rendered, filled⟩ := failed arguments
      rw [List.foldlM_cons, List.foldlM_cons, rendered, filled]
      rfl
  | cons undisturbed _ ih =>
      rw [List.foldlM_cons, List.foldlM_cons, renderArgument_eq undisturbed arguments]
      exact congrArg _ (funext ih)

end Argument

/-- A command has its placeholders filled at once if, where it is rendered at all, no value brings
in a later placeholder in the arguments up to the first that fails. -/
theorem renderCommand_fillOnce {template : List Char} {request : Request}
    (undisturbed : ∀ program rawArguments,
      parseArguments template = .ok (program :: rawArguments) →
      containsText Placeholder.reasoningEffort.text program = false →
      (request.reasoningEffort.isSome = true →
        rawArguments.any (containsText Placeholder.reasoningEffort.text) = true) →
      AllUndisturbed request rawArguments) :
    renderCommandWithReasoningEffort template request =
      commandWith fillOnce template request := by
  rw [renderCommandWithReasoningEffort, commandWith, commandWith]
  cases parsed : parseArguments template with
  | error failure => rfl
  | ok rawArguments =>
      cases rawArguments with
      | nil => rfl
      | cons program rawArguments =>
          simp only [ok_bind]
          cases selects : containsText Placeholder.reasoningEffort.text program with
          | true => rfl
          | false =>
              cases missing : request.reasoningEffort.isSome &&
                  !rawArguments.any (containsText Placeholder.reasoningEffort.text) with
              | true => rfl
              | false =>
                  have placed : request.reasoningEffort.isSome = true →
                      rawArguments.any (containsText Placeholder.reasoningEffort.text) = true := by
                    intro requested
                    simpa [requested] using missing
                  have same := renderArguments_eq
                    (undisturbed program rawArguments parsed selects placed) []
                  simp only [same]

theorem renderCommand_fillOnce_plain :
    renderCommandWithReasoningEffort "agent -p \x7bprompt\x7d".toList
        ⟨"a \x7bb\x7d".toList, [], [], none⟩ =
      commandWith fillOnce "agent -p \x7bprompt\x7d".toList ⟨"a \x7bb\x7d".toList, [], [], none⟩ :=
  renderCommand_fillOnce fun program rawArguments parsed _ _ => by
    have split : parseArguments "agent -p \x7bprompt\x7d".toList =
        .ok ["agent".toList, "-p".toList, "\x7bprompt\x7d".toList] := by decide
    cases split.symm.trans parsed
    refine .cons ⟨by decide, by decide, by decide, by decide⟩ (.cons ?_ .nil)
    exact ⟨by decide, by decide, by decide, by decide⟩

/-- A prompt that names the directory is replaced itself. -/
theorem prompt_substituted :
    renderCommand "agent \x7bprompt\x7d".toList "in \x7btarget_directory\x7d".toList [] [47] =
      .ok ("agent".toList, ["in /".toList]) ∧
    commandWith fillOnce "agent \x7bprompt\x7d".toList ⟨"in \x7btarget_directory\x7d".toList, [], [47], none⟩ =
      .ok ("agent".toList, ["in \x7btarget_directory\x7d".toList]) := by
  decide

end Kvist.Command
