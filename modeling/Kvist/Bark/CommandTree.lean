import Kvist.ByteText
import Kvist.Command.Render
import Kvist.FileSystem.Tree

/-!
# The command tree of the shell

A line is split into tokens, and the tokens are read along the tree of commands: subcommands are
entered, options are passed over with their values, and what remains are positional values.
-/

set_option autoImplicit false

namespace Kvist.Bark

open Text

abbrev Word := List Char

/-! ## The tree -/

structure FlagSpec where
  long : Option Word
  short : Option Char
  takesValue : Bool

structure PositionalSpec where
  valueName : Option Word

/-- A command with its subcommands, and with its flags and positional values in order. -/
structure CommandNode where
  name : Word
  subcommands : List CommandNode
  flags : List FlagSpec
  positionals : List PositionalSpec

namespace CommandNode

def findSubcommand (node : CommandNode) (name : Word) : Option CommandNode :=
  node.subcommands.find? fun subcommand => subcommand.name = name

def findFlagByLong (node : CommandNode) (long : Word) : Option FlagSpec :=
  node.flags.find? fun flag => flag.long = some long

def findFlagByShort (node : CommandNode) (short : Char) : Option FlagSpec :=
  node.flags.find? fun flag => flag.short = some short

end CommandNode

/-! ## Domains -/

inductive ValueDomain where
  | decisionResponse
  | component
  | task
  | attempt
  | model
  | role
  | branch
  | theme
  deriving DecidableEq

def positionalDomain (valueName : Word) : Option ValueDomain :=
  if valueName = "RESPONSE_NUMBER".toList then some .decisionResponse
  else if valueName = "COMPONENT_DIR".toList then some .component
  else if valueName = "TASK_ID".toList then some .task
  else if valueName = "ATTEMPT_ID".toList then some .attempt
  else if valueName = "MODEL_NAME".toList ∨ valueName = "MODEL".toList then some .model
  else if valueName = "ROLE".toList then some .role
  else if valueName = "THEME".toList then some .theme
  else none

def PositionalSpec.domain (positional : PositionalSpec) : Option ValueDomain :=
  positionalDomain (positional.valueName.getD [])

def optionDomain (long : Word) : Option ValueDomain :=
  if long = "model".toList then some .model
  else if long = "branch".toList then some .branch
  else if long = "task".toList then some .task
  else none

/-! ## Tokens -/

structure Token where
  text : Word
  start : Nat
  stop : Nat

def tokenizeFrom : List Token → Option Nat → Word → Option Char → Nat → List Char → List Token
  | tokens, start, current, _, index, [] =>
      match start with
      | some start => tokens ++ [⟨current, start, index⟩]
      | none => tokens
  | tokens, start, current, quote, index, character :: rest =>
      let after := index + character.utf8Size
      match quote with
      | none =>
          if character = '\x27' ∨ character = '"' then
            tokenizeFrom tokens (some (start.getD index)) current (some character) after rest
          else if isWhitespace character then
            match start with
            | some start => tokenizeFrom (tokens ++ [⟨current, start, index⟩]) none [] none after rest
            | none => tokenizeFrom tokens none current none after rest
          else
            tokenizeFrom tokens (some (start.getD index)) (current ++ [character]) none after rest
      | some active =>
          if character = active then tokenizeFrom tokens start current none after rest
          else if character = '\\' then
            match rest with
            | next :: behind =>
                if next = active ∨ next = '\\' then
                  tokenizeFrom tokens start (current ++ [next]) (some active)
                    (after + next.utf8Size) behind
                else tokenizeFrom tokens start (current ++ ['\\']) (some active) after (next :: behind)
            | [] => tokenizeFrom tokens start (current ++ ['\\']) (some active) after []
          else tokenizeFrom tokens start (current ++ [character]) (some active) after rest

def tokenize (region : List Char) : List Token := tokenizeFrom [] none [] none 0 region

/-! ## Flags -/

structure ParsedFlag where
  long : Option Word
  takesValue : Bool
  inlineValue : Option Word

def parseFlag (node : CommandNode) (text : Word) : Option ParsedFlag :=
  match stripLeading ['-', '-'] text with
  | some longWithEq =>
      match splitOnce '=' longWithEq with
      | some (long, value) =>
          (node.findFlagByLong long).map fun flag => ⟨some long, flag.takesValue, some value⟩
      | none =>
          (node.findFlagByLong longWithEq).map fun flag => ⟨some longWithEq, flag.takesValue, none⟩
  | none =>
      match (stripLeading ['-'] text).bind List.head? with
      | some short =>
          if ByteText.byteLength text = 2 then
            (node.findFlagByShort short).map fun flag => ⟨flag.long, flag.takesValue, none⟩
          else none
      | none => none

/-! ## Walking -/

structure Scope where
  command : Option Word := none
  component : Option Word := none
  task : Option Word := none

def componentName : FileSystem.Component → Option Word
  | .rootDir => none
  | .curDir => some ['.']
  | .parentDir => some ['.', '.']
  | .normal part => some part.toList

/-- The path without the names that stand for the directory itself. -/
def componentScopeKey (value : Word) : Word :=
  let parts := (FileSystem.components value).filter (· ≠ .curDir)
  let path := (if parts.head? = some .rootDir then ['/'] else []) ++
    ['/'].intercalate (parts.filterMap componentName)
  if path = [] then ['.'] else path

def applyOptionValue (node : CommandNode) (long value : Word) (scope : Scope) : Scope :=
  match node.findFlagByLong long, optionDomain long with
  | some _, some .component => { scope with component := some (componentScopeKey value) }
  | some _, some .task => { scope with task := some value }
  | _, _ => scope

def applyPositionalValue (positional : PositionalSpec) (value : Word) (scope : Scope) : Scope :=
  match positional.domain with
  | some .component => { scope with component := some (componentScopeKey value), task := none }
  | some .task => { scope with task := some value }
  | _ => scope

/-- Where a walk along the tree has come to, with what it has seen. -/
structure Cursor where
  scope : Scope
  node : CommandNode
  positionalsConsumed : Nat
  pendingValue : Option Word
  noFlags : Bool
  commandPath : List Word
  valid : Bool

namespace Cursor

def start (root : CommandNode) : Cursor := ⟨{}, root, 0, none, false, [], true⟩

def readPositional (cursor : Cursor) (text : Word) : Cursor :=
  match cursor.node.positionals[cursor.positionalsConsumed]? with
  | some positional =>
      { cursor with
        positionalsConsumed := cursor.positionalsConsumed + 1
        scope := applyPositionalValue positional text cursor.scope }
  | none => { cursor with valid := false }

def read (cursor : Cursor) (text : Word) : Cursor :=
  if cursor.noFlags then cursor.readPositional text
  else
    match cursor.pendingValue with
    | some long =>
        { cursor with
          pendingValue := none
          scope := applyOptionValue cursor.node long text cursor.scope }
    | none =>
        if text = ['-', '-'] then { cursor with noFlags := true }
        else
          match cursor.node.findSubcommand text with
          | some subcommand =>
              { cursor with
                node := subcommand
                commandPath := cursor.commandPath ++ [subcommand.name]
                positionalsConsumed := 0
                scope := { component := cursor.scope.component, command := some subcommand.name }
                pendingValue := none }
          | none =>
              match parseFlag cursor.node text with
              | some flag =>
                  if flag.takesValue && flag.inlineValue.isNone then
                    { cursor with pendingValue := flag.long }
                  else cursor
              | none => cursor.readPositional text

end Cursor

def walk (root : CommandNode) (resolved : List Token) : Cursor :=
  resolved.foldl (fun cursor token => cursor.read token.text) (Cursor.start root)

/-! ## The component slot -/

structure ComponentPosition where
  command : List Word
  supplied : Bool
  vacant : Bool

def isComponent (positional : PositionalSpec) : Bool := positional.domain = some .component

def componentPosition (root : CommandNode) (line : List Char) (place : Nat) :
    Option ComponentPosition :=
  match ByteText.getTo place line with
  | none => none
  | some front =>
      if line.contains '\n' || line.contains '\r' || !(Command.splitRawCommand line).isOk then none
      else
        let full := walk root (tokenize line)
        if !full.valid || !full.node.positionals.any isComponent then none
        else
          let before := walk root (tokenize front)
          let vacant := before.valid && before.commandPath = full.commandPath &&
            before.pendingValue.isNone &&
            (before.node.positionals[before.positionalsConsumed]?).any isComponent
          some ⟨full.commandPath, full.scope.component.isSome, vacant⟩

end Kvist.Bark
