import Mathlib.Data.List.Nodup

/-!
# Declared command lines

A command declares its options, flags, positional arguments and subcommands, and a line of words is
parsed by these declarations. What is relied on of a parser are three laws, and one parser that has
them is here.
-/

set_option autoImplicit false

namespace Kvist.CommandLine

abbrev Word := List Char

inductive Item where
  | option (name value : Word)
  | flag (name : Word)
  | positional (value : Word)
  deriving DecidableEq, Repr

/-- What a command takes, with the names that have to be given and those that need or exclude
another one. -/
structure Declaration where
  required : Nat
  positionals : Nat
  options : List Word
  flags : List Word
  mandatory : List Word
  requires : List (Word × Word)
  conflicts : List (Word × Word)
  subcommands : List (Word × Declaration)

def long (name : Word) : Word := '-' :: '-' :: name

def Item.words : Item → List Word
  | .option name value => [long name, value]
  | .flag name => [long name]
  | .positional value => [value]

def Item.name? : Item → Option Word
  | .option name _ => some name
  | .flag name => some name
  | .positional _ => none

def names (items : List Item) : List Word := items.filterMap Item.name?

def positionalCount (items : List Item) : Nat := items.countP (·.name?.isNone)

/-- A word that is taken for an option, also where a value should stand. -/
def hyphenated (word : Word) : Bool := word.head? == some '-' && word != ['-']

namespace Declaration

def subcommand? (declaration : Declaration) (name : Word) : Option Declaration :=
  (declaration.subcommands.find? (·.1 == name)).map (·.2)

def complete (declaration : Declaration) (items : List Item) : Bool :=
  declaration.required ≤ positionalCount items &&
    declaration.mandatory.all (names items).contains &&
    declaration.requires.all (fun pair =>
      !(names items).contains pair.1 || (names items).contains pair.2) &&
    declaration.conflicts.all fun pair =>
      !((names items).contains pair.1 && (names items).contains pair.2)

def Knows (declaration : Declaration) : Item → Prop
  | .option name value => name ∈ declaration.options ∧ value ≠ [] ∧ hyphenated value = false
  | .flag name => name ∈ declaration.flags ∧ name ∉ declaration.options
  | .positional value =>
      value ≠ [] ∧ hyphenated value = false ∧ declaration.subcommand? value = none

structure Accepts (declaration : Declaration) (items : List Item) : Prop where
  known : ∀ item ∈ items, declaration.Knows item
  once : (names items).Nodup
  few : positionalCount items ≤ declaration.positionals

end Declaration

/-- The items of a command, and the names and items of its subcommands inwards. -/
abbrev Matches := List Item × List (Word × List Item)

abbrev Parser := Declaration → List Word → Option Matches

/-- What is relied on of a parser. -/
structure Lawful (parse : Parser) : Prop where
  /-- Declared arguments are parsed as what they are. -/
  reads : ∀ (declaration : Declaration) (items : List Item), declaration.Accepts items →
    declaration.complete items = true →
    parse declaration (items.flatMap Item.words) = some (items, [])
  /-- Behind the arguments, the name of a subcommand hands the other words over to it. -/
  descends : ∀ (declaration inner : Declaration) (items : List Item) (name : Word)
    (rest : List Word), declaration.Accepts items → declaration.complete items = true →
    hyphenated name = false → declaration.subcommand? name = some inner →
    parse declaration (items.flatMap Item.words ++ name :: rest) =
      (parse inner rest).map fun found => (items, (name, found.1) :: found.2)
  /-- An option whose value starts with a hyphen has none. -/
  refuses : ∀ (declaration : Declaration) (items : List Item) (name value : Word)
    (rest : List Word), declaration.Accepts items → name ∈ declaration.options →
    name ∉ names items → hyphenated value = true →
    parse declaration (items.flatMap Item.words ++ long name :: value :: rest) = none

/-! ## A parser -/

def readFrom : Declaration → List Item → List Word → Option Matches
  | declaration, items, [] => if declaration.complete items then some (items, []) else none
  | declaration, items, word :: rest =>
      if ['-', '-'].isPrefixOf word then
        let name := word.drop 2
        if (names items).contains name then none
        else if declaration.options.contains name then
          match rest with
          | [] => none
          | value :: behind =>
              if hyphenated value then none
              else readFrom declaration (items ++ [.option name value]) behind
        else if declaration.flags.contains name then
          readFrom declaration (items ++ [.flag name]) rest
        else none
      else if hyphenated word then none
      else
        match declaration.subcommand? word with
        | some inner =>
            if declaration.complete items then
              (readFrom inner [] rest).map fun found => (items, (word, found.1) :: found.2)
            else none
        | none =>
            if positionalCount items < declaration.positionals then
              readFrom declaration (items ++ [.positional word]) rest
            else none

def readArguments : Parser := fun declaration words => readFrom declaration [] words

theorem isPrefixOf_long (name : Word) : ['-', '-'].isPrefixOf ('-' :: '-' :: name) = true := by
  simp [List.isPrefixOf]

theorem not_prefix_of_plain {word : Word} (plain : hyphenated word = false) :
    ['-', '-'].isPrefixOf word = false := by
  cases word with
  | nil => rfl
  | cons first rest =>
      cases rest with
      | nil => simp [List.isPrefixOf]
      | cons second rest =>
          simp only [hyphenated, List.head?_cons, Bool.and_eq_false_iff, beq_eq_false_iff_ne,
            bne_eq_false_iff_eq] at plain
          rcases plain with other | single
          · have first' : '-' ≠ first := fun same => other (congrArg some same.symm)
            simp [List.isPrefixOf, first']
          · cases single

variable {declaration : Declaration}

theorem names_append (front back : List Item) : names (front ++ back) = names front ++ names back :=
  List.filterMap_append

theorem readFrom_option {items : List Item} {name value : Word} {rest : List Word}
    (declared : name ∈ declaration.options) (fresh : name ∉ names items) :
    readFrom declaration items (long name :: value :: rest) =
      if hyphenated value then none
      else readFrom declaration (items ++ [.option name value]) rest := by
  rw [readFrom.eq_def]
  simp only [long, isPrefixOf_long, if_true, List.drop_succ_cons, List.drop_zero,
    List.contains_eq_mem, declared, fresh, decide_true, decide_false, Bool.false_eq_true, if_false]

theorem readFrom_flag {items : List Item} {name : Word} {rest : List Word}
    (declared : name ∈ declaration.flags) (noOption : name ∉ declaration.options)
    (fresh : name ∉ names items) :
    readFrom declaration items (long name :: rest) =
      readFrom declaration (items ++ [.flag name]) rest := by
  rw [readFrom.eq_def]
  simp only [long, isPrefixOf_long, if_true, List.drop_succ_cons, List.drop_zero,
    List.contains_eq_mem, declared, noOption, fresh, decide_true, decide_false,
    Bool.false_eq_true, if_false]

theorem readFrom_word {items : List Item} {word : Word} {rest : List Word}
    (plain : hyphenated word = false) :
    readFrom declaration items (word :: rest) =
      match declaration.subcommand? word with
      | some inner =>
          if declaration.complete items then
            (readFrom inner [] rest).map fun found => (items, (word, found.1) :: found.2)
          else none
      | none =>
          if positionalCount items < declaration.positionals then
            readFrom declaration (items ++ [.positional word]) rest
          else none := by
  rw [readFrom.eq_def]
  simp only [not_prefix_of_plain plain, plain, Bool.false_eq_true, if_false]

theorem readFrom_items {items : List Item} (before : List Item) (rest : List Word)
    (accepts : declaration.Accepts (before ++ items)) :
    readFrom declaration before (items.flatMap Item.words ++ rest) =
      readFrom declaration (before ++ items) rest := by
  induction items generalizing before with
  | nil => rw [List.append_nil]; rfl
  | cons item items ih =>
      have further := ih (before ++ [item]) (by rwa [List.append_assoc])
      rw [List.append_assoc, List.singleton_append] at further
      have known := accepts.known item (by simp)
      have once := accepts.once
      have few := accepts.few
      rw [List.flatMap_cons, List.append_assoc, ← further]
      cases item with
      | option name value =>
          have fresh : name ∉ names before := by
            rw [names_append] at once
            exact fun member => List.disjoint_of_nodup_append once member List.mem_cons_self
          rw [Item.words, List.cons_append, List.singleton_append,
            readFrom_option known.1 fresh, if_neg (by simp [known.2.2])]
      | flag name =>
          have fresh : name ∉ names before := by
            rw [names_append] at once
            exact fun member => List.disjoint_of_nodup_append once member List.mem_cons_self
          rw [Item.words, List.singleton_append, readFrom_flag known.1 known.2 fresh]
      | positional value =>
          have room : positionalCount before < declaration.positionals := by
            simp only [positionalCount, List.countP_append, List.countP_cons, Item.name?,
              Option.isNone_none, if_true] at few ⊢
            omega
          rw [Item.words, List.singleton_append, readFrom_word known.2.1, known.2.2]
          exact if_pos room

theorem readArguments_lawful : Lawful readArguments where
  reads declaration items accepts complete := by
    have read := @readFrom_items declaration items [] [] accepts
    rw [List.append_nil, List.nil_append] at read
    rw [readArguments, read, readFrom, if_pos complete]
  descends declaration inner items name rest accepts complete plain found := by
    rw [readArguments, readFrom_items [] _ accepts, List.nil_append, readFrom_word plain, found]
    exact if_pos complete
  refuses declaration items name value rest accepts declared fresh hyphen := by
    rw [readArguments, readFrom_items [] _ accepts, List.nil_append,
      readFrom_option declared fresh, if_pos hyphen]

end Kvist.CommandLine
