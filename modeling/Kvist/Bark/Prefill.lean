import Kvist.Bark.CommandTree

/-!
# Prefilled components

The component that is in focus is put into the line where a command takes one and none is given. It
is offered once for each command until the line is submitted.
-/

set_option autoImplicit false

namespace Kvist.Bark

open Text

/-! ## The words of a tree -/

def FlagSpec.words (flag : FlagSpec) : List Word :=
  (flag.long.map fun long => ['-', '-'] ++ long).toList ++
    (flag.short.map fun short => ['-', short]).toList

mutual

def collectWords : CommandNode → List Word
  | ⟨_, subcommands, flags, _⟩ => collectSubcommands subcommands ++ flags.flatMap FlagSpec.words

def collectSubcommands : List CommandNode → List Word
  | [] => []
  | subcommand :: rest => subcommand.name :: collectWords subcommand ++ collectSubcommands rest

end

/-- What is put in, with the commands that it was put in for. -/
structure Prefill where
  root : CommandNode
  focus : Option Word
  inserted : List (List Word)
  signal : Bool
  words : List Word

namespace Prefill

def new (root : CommandNode) (focus : Option Word) : Prefill :=
  ⟨root, focus, [], false, ['-', '-'] :: collectWords root⟩

def beginSubmission (prefill : Prefill) : Prefill :=
  { prefill with inserted := [], signal := false }

/-! ## The focus as a word -/

/-- A focus that would be read as an option or a command is written as a path. -/
def argument (prefill : Prefill) (focus : Word) : Word :=
  if focus.head? = some '-' ∨ focus ∈ prefill.words then ['.', '/'] ++ focus else focus

def isUnquoted (character : Char) : Bool :=
  !isWhitespace character && !(['\x27', '"', '\\'].contains character)

/-- `replace`, for a single character. -/
def replaceCharacter (character : Char) (replacement text : List Char) : List Char :=
  text.flatMap fun other => if other = character then replacement else [other]

def quote (word : Word) : Word :=
  if word.all isUnquoted then word
  else '"' :: replaceCharacter '"' ['\\', '"'] (replaceCharacter '\\' ['\\', '\\'] word) ++ ['"']

def quotedFocus (prefill : Prefill) : Option Word :=
  match prefill.focus with
  | none => none
  | some focus =>
      if focus = [] ∨ focus.any isControl then none else some (quote (prefill.argument focus))

/-! ## Insertion -/

/-- Whether the component may be put in. What is given by hand counts as put in. -/
def available (prefill : Prefill) (line : List Char) (cursor : Nat) (consume : Bool) :
    Bool × Prefill :=
  match componentPosition prefill.root line cursor with
  | none => (false, prefill)
  | some position =>
      if position.command = ["cd".toList] then (false, prefill)
      else if position.supplied then
        (false, { prefill with inserted := prefill.inserted.insert position.command })
      else if !position.vacant || prefill.inserted.contains position.command then (false, prefill)
      else if consume then
        (true, { prefill with inserted := prefill.inserted.insert position.command })
      else (true, prefill)

def bareStatus (line : List Char) (cursor : Nat) : Bool :=
  cursor = ByteText.byteLength line && trimList line = "status".toList

/-- The text that is put in at the cursor, if there is one. -/
def insertion (prefill : Prefill) (line : List Char) (cursor : Nat) : Option Word × Prefill :=
  match prefill.quotedFocus, ByteText.getTo cursor line, ByteText.getFrom cursor line with
  | some focus, some front, some back =>
      let trailingSpace := front.getLast?.any isWhitespace
      if (!trailingSpace && !bareStatus line cursor) ||
          back.head?.any (fun character => !isWhitespace character && character ≠ '-') then
        (none, (prefill.available line cursor false).2)
      else
        let (granted, prefill) := prefill.available line cursor true
        (if granted then some ((if trailingSpace then [] else [' ']) ++ focus ++ [' ']) else none,
          prefill)
  | _, _, _ => (none, prefill)

/-! ## Hooks of the editor -/

def highlight (prefill : Prefill) (line : List Char) (cursor : Nat) : Prefill :=
  if prefill.quotedFocus.isNone then prefill
  else
    let (granted, prefill) := prefill.available line cursor false
    if granted && (ByteText.getTo cursor line).any fun front =>
        front.getLast?.any isWhitespace || bareStatus line cursor then
      { prefill with signal := true }
    else prefill

def shouldExpandAbbr (prefill : Prefill) (line : List Char) (wordStart : Nat) : Bool × Prefill :=
  match ByteText.getFrom wordStart line with
  | none => (false, prefill)
  | some rest =>
      let word := rest.takeWhile fun character => !isWhitespace character
      if prefill.words.contains word && prefill.quotedFocus.isSome then
        prefill.available line (wordStart + ByteText.byteLength word) true
      else (false, prefill)

/-! ## Runs -/

/-- What the shell does with the prefill of its editor. -/
inductive Operation where
  | beginSubmission
  | insertion (line : List Char) (cursor : Nat)
  | highlight (line : List Char) (cursor : Nat)
  | shouldExpandAbbr (line : List Char) (wordStart : Nat)
  | setFocus (focus : Option Word)

def step (prefill : Prefill) : Operation → Prefill
  | .beginSubmission => prefill.beginSubmission
  | .insertion line cursor => (prefill.insertion line cursor).2
  | .highlight line cursor => prefill.highlight line cursor
  | .shouldExpandAbbr line wordStart => (prefill.shouldExpandAbbr line wordStart).2
  | .setFocus focus => { prefill with focus := focus }

def insertedFor (prefill : Prefill) : Operation → Option (List Word)
  | .insertion line cursor =>
      if (prefill.insertion line cursor).1.isSome then
        (componentPosition prefill.root line cursor).map (·.command)
      else none
  | _ => none

/-- The commands that the component is put in for, one after the other. -/
def insertions (prefill : Prefill) : List Operation → List (List Word)
  | [] => []
  | operation :: rest =>
      (prefill.insertedFor operation).toList ++ (prefill.step operation).insertions rest

end Prefill

end Kvist.Bark
