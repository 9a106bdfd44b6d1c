import Kvist.Bark.Prefill
import Kvist.QuotedWords
import Kvist.TextLines

/-!
# Where components are put in

A component fills an empty slot of the command, unless the place is inside a quotation: what stands
before it is then read as if the quotation had ended there.
-/

set_option autoImplicit false

namespace Kvist.Bark

open Text QuotedWords

/-! ## One way to split a line -/

theorem isMark_iff {character : Char} :
    isMark character = true ↔ character = '\x27' ∨ character = '"' := by
  rw [isMark, Bool.or_eq_true, decide_eq_true_iff, decide_eq_true_iff]

/-- What a splitter holds is the state of a scan. A word is begun where a quotation is. -/
structure Holds (state : Scan) (words : List Word) (started : Bool) (current : Word)
    (quote : Option Char) : Prop where
  words : state.words = words
  word : state.word = if started then some current else none
  bare : started = false → current = []
  mark : state.quote = quote
  opened : quote.isSome → started = true

namespace Holds

variable {state : Scan} {words : List Word} {started : Bool} {current text : Word}
  {quote : Option Char} {character : Char}

theorem word_getD (holds : Holds state words started current quote) :
    state.word.getD [] = current := by
  rw [holds.word]
  cases started with
  | true => rfl
  | false => exact (holds.bare rfl).symm

theorem push (holds : Holds state words started current quote) (text : Word) :
    Holds (state.push text) words true (current ++ text) quote where
  words := holds.words
  word := by rw [Scan.push, holds.word_getD, if_pos rfl]
  bare := nofun
  mark := holds.mark
  opened := fun _ => rfl

theorem begin (holds : Holds state words started current quote) (character : Char) :
    Holds { state.push [] with quote := some character } words true current (some character) where
  words := holds.words
  word := by rw [Scan.push, holds.word_getD, List.append_nil, if_pos rfl]
  bare := nofun
  mark := rfl
  opened := fun _ => rfl

theorem finish (holds : Holds state words started current quote) :
    Holds { state with quote := none } words started current none where
  words := holds.words
  word := holds.word
  bare := holds.bare
  mark := rfl
  opened := nofun

theorem close (holds : Holds state words true current none) :
    Holds state.close (words ++ [current]) false [] none where
  words := by rw [Scan.close, holds.words, holds.word, if_pos rfl, Option.toList_some]
  word := rfl
  bare := fun _ => rfl
  mark := holds.mark
  opened := nofun

theorem blank (holds : Holds state words false current none) :
    Holds state.close words false current none where
  words := by
    rw [Scan.close, holds.words, holds.word, if_neg Bool.false_ne_true, Option.toList_none,
      List.append_nil]
  word := rfl
  bare := holds.bare
  mark := holds.mark
  opened := nofun

theorem allWords (holds : Holds state words started current quote) :
    state.allWords = if started then words ++ [current] else words := by
  rw [Scan.allWords, holds.words, holds.word]
  cases started with
  | true => rfl
  | false => exact List.append_nil _

end Holds

/-- The tokens of the completion are the words up to the end. -/
theorem tokenizeFrom_texts {state : Scan} {text : List Char} {tokens : List Token}
    {start : Option Nat} {current : Word} {quote : Option Char} {index : Nat}
    (holds : Holds state (tokens.map (·.text)) start.isSome current quote) :
    (tokenizeFrom tokens start current quote index text).map (·.text) =
      (scan state text).allWords := by
  induction state, text using scan.induct generalizing tokens start current quote index with
  | case1 state =>
      rw [scan_nil, holds.allWords, tokenizeFrom.eq_def]
      cases start with
      | none => rfl
      | some start => exact List.map_append
  | case2 state character rest outside mark ih =>
      obtain rfl : quote = none := holds.mark.symm.trans outside
      rw [scan_mark outside mark, tokenizeFrom.eq_def]
      dsimp only
      rw [if_pos (isMark_iff.mp mark)]
      exact ih (holds.begin character)
  | case3 state character rest outside mark blank ih =>
      obtain rfl : quote = none := holds.mark.symm.trans outside
      rw [scan_blank outside blank, tokenizeFrom.eq_def]
      dsimp only
      rw [if_neg fun marked => mark (isMark_iff.mpr marked), if_pos blank]
      cases start with
      | none => exact ih holds.blank
      | some start => 
        refine ih ?_
        rw [List.map_append]
        exact holds.close
  | case4 state character rest outside mark blank ih =>
      obtain rfl : quote = none := holds.mark.symm.trans outside
      rw [scan_plain outside ((Bool.not_eq_true _).mp mark) ((Bool.not_eq_true _).mp blank),
        tokenizeFrom.eq_def]
      dsimp only
      rw [if_neg fun marked => mark (isMark_iff.mpr marked), if_neg blank]
      exact ih (holds.push [character])
  | case5 state rest active inside ih =>
      obtain rfl : quote = some active := holds.mark.symm.trans inside
      rw [scan_end inside, tokenizeFrom.eq_def]
      dsimp only
      rw [if_pos rfl]
      exact ih holds.finish
  | case6 state active inside other =>
      obtain rfl : quote = some active := holds.mark.symm.trans inside
      have begun := holds.opened rfl
      obtain ⟨first, rfl⟩ := Option.isSome_iff_exists.mp begun
      rw [scan_trailing inside other, (holds.push ['\\']).allWords, tokenizeFrom.eq_def]
      dsimp only
      rw [if_neg other, if_pos rfl, tokenizeFrom.eq_def]
      exact List.map_append
  | case7 state active inside next behind escaped other ih =>
      obtain rfl : quote = some active := holds.mark.symm.trans inside
      have begun := holds.opened rfl
      rw [scan_escape inside other escaped, tokenizeFrom.eq_def]
      dsimp only
      rw [if_neg other, if_pos rfl, if_pos escaped]
      refine ih ?_
      rw [begun]
      exact holds.push [next]
  | case8 state active inside next behind escaped other ih =>
      obtain rfl : quote = some active := holds.mark.symm.trans inside
      have begun := holds.opened rfl
      rw [scan_backslash inside other escaped, tokenizeFrom.eq_def]
      dsimp only
      rw [if_neg other, if_pos rfl, if_neg escaped]
      refine ih ?_
      rw [begun]
      exact holds.push ['\\']
  | case9 state character rest active inside other backslash ih =>
      obtain rfl : quote = some active := holds.mark.symm.trans inside
      have begun := holds.opened rfl
      rw [scan_inside inside other backslash, tokenizeFrom.eq_def]
      dsimp only
      rw [if_neg other, if_neg backslash]
      refine ih ?_
      rw [begun]
      exact holds.push [character]

theorem parseLoop_eq {state : Scan} {text : List Char} {arguments : List Word} {started : Bool}
    {current : Word} {quote : Option Char}
    (holds : Holds state arguments started current quote) :
    (Command.parseLoop arguments current quote started text).toOption =
      if (scan state text).quote = none then some (scan state text).allWords else none := by
  induction state, text using scan.induct generalizing arguments started current quote with
  | case1 state =>
      rw [scan_nil, holds.allWords, holds.mark, Command.parseLoop.eq_def]
      cases quote with
      | none => rfl
      | some active => rfl
  | case2 state character rest outside mark ih =>
      obtain rfl : quote = none := holds.mark.symm.trans outside
      rw [scan_mark outside mark, Command.parseLoop.eq_def]
      dsimp only
      rw [if_pos (isMark_iff.mp mark)]
      exact ih (holds.begin character)
  | case3 state character rest outside mark blank ih =>
      obtain rfl : quote = none := holds.mark.symm.trans outside
      rw [scan_blank outside blank, Command.parseLoop.eq_def]
      dsimp only
      rw [if_neg fun marked => mark (isMark_iff.mpr marked), if_pos blank]
      cases started with
      | false => exact ih holds.blank
      | true => exact ih holds.close
  | case4 state character rest outside mark blank ih =>
      obtain rfl : quote = none := holds.mark.symm.trans outside
      rw [scan_plain outside ((Bool.not_eq_true _).mp mark) ((Bool.not_eq_true _).mp blank),
        Command.parseLoop.eq_def]
      dsimp only
      rw [if_neg fun marked => mark (isMark_iff.mpr marked), if_neg blank]
      exact ih (holds.push [character])
  | case5 state rest active inside ih =>
      obtain rfl : quote = some active := holds.mark.symm.trans inside
      rw [scan_end inside, Command.parseLoop.eq_def]
      dsimp only
      rw [if_pos rfl]
      exact ih holds.finish
  | case6 state active inside other =>
      obtain rfl : quote = some active := holds.mark.symm.trans inside
      have pushed := holds.push ['\\']
      rw [scan_trailing inside other, pushed.mark, Command.parseLoop.eq_def]
      dsimp only
      rw [if_neg other, if_pos rfl, Command.parseLoop.eq_def]
      rfl
  | case7 state active inside next behind escaped other ih =>
      obtain rfl : quote = some active := holds.mark.symm.trans inside
      rw [scan_escape inside other escaped, Command.parseLoop.eq_def]
      dsimp only
      rw [if_neg other, if_pos rfl, if_pos escaped]
      exact ih (holds.push [next])
  | case8 state active inside next behind escaped other ih =>
      obtain rfl : quote = some active := holds.mark.symm.trans inside
      rw [scan_backslash inside other escaped, Command.parseLoop.eq_def]
      dsimp only
      rw [if_neg other, if_pos rfl, if_neg escaped]
      exact ih (holds.push ['\\'])
  | case9 state character rest active inside other backslash ih =>
      obtain rfl : quote = some active := holds.mark.symm.trans inside
      rw [scan_inside inside other backslash, Command.parseLoop.eq_def]
      dsimp only
      rw [if_neg other, if_neg backslash]
      have begun := holds.opened rfl
      exact ih (begun ▸ holds.push [character])

/-- The words of a line, the program first. -/
def lineWords (line : List Char) : Option (List Word) :=
  match Command.splitRawCommand line with
  | .ok (program, arguments) => some (program :: arguments)
  | .error _ => none

theorem holds_start : Holds Scan.start [] false [] none := ⟨rfl, rfl, fun _ => rfl, rfl, nofun⟩

theorem tokenize_texts (text : List Char) :
    (tokenize text).map (·.text) = (scan .start text).allWords :=
  tokenizeFrom_texts holds_start

theorem lineWords_eq_some_iff {line : List Char} {words : List Word} :
    lineWords line = some words ↔
      (scan .start line).quote = none ∧ words ≠ [] ∧ words = (scan .start line).allWords := by
  have read : (Command.parseLoop [] [] none false line).toOption = _ := parseLoop_eq holds_start
  rw [lineWords, Command.splitRawCommand, Command.parseArguments]
  cases parsed : Command.parseLoop [] [] none false line with
  | error failure =>
      rw [parsed] at read
      have inside : (scan .start line).quote ≠ none := by
        intro outside
        rw [if_pos outside] at read
        cases read
      exact ⟨nofun, fun ⟨outside, _⟩ => absurd outside inside⟩
  | ok arguments =>
      rw [parsed] at read
      have outside : (scan .start line).quote = none := by
        by_contra inside
        rw [if_neg inside] at read
        cases read
      rw [if_pos outside] at read
      obtain rfl : arguments = (scan .start line).allWords := Option.some_inj.mp read
      cases all : (scan .start line).allWords with
      | nil => 
        refine ⟨nofun, fun ⟨_, more, same⟩ => absurd same more⟩
      | cons program arguments =>
        constructor
        · intro same
          cases same
          exact ⟨outside, List.cons_ne_nil _ _, rfl⟩
        · rintro ⟨_, _, rfl⟩
          rfl

/-! ## Reading a line -/

/-- Where a line is read along the tree. Each option that takes a value waits for it. -/
structure Reading where
  node : CommandNode
  consumed : Nat
  waiting : Bool
  separated : Bool
  path : List Word
  valid : Bool

namespace Reading

def start (root : CommandNode) : Reading := ⟨root, 0, false, false, [], true⟩

def positional (reading : Reading) : Reading :=
  match reading.node.positionals[reading.consumed]? with
  | some _ => { reading with consumed := reading.consumed + 1 }
  | none => { reading with valid := false }

def next (reading : Reading) (text : Word) : Reading :=
  if reading.separated then reading.positional
  else if reading.waiting then { reading with waiting := false }
  else if text = ['-', '-'] then { reading with separated := true }
  else
    match reading.node.findSubcommand text with
    | some subcommand =>
        { reading with
          node := subcommand
          path := reading.path ++ [subcommand.name]
          consumed := 0 }
    | none =>
        match parseFlag reading.node text with
        | some flag => { reading with waiting := flag.takesValue && flag.inlineValue.isNone }
        | none => reading.positional

def of (root : CommandNode) (words : List Word) : Reading := words.foldl next (start root)

/-- A component is the next positional value of the command. -/
def atComponent (reading : Reading) : Bool :=
  (reading.node.positionals[reading.consumed]?).any isComponent

end Reading

namespace Cursor

def reading (cursor : Cursor) : Reading :=
  ⟨cursor.node, cursor.positionalsConsumed, cursor.pendingValue.isSome, cursor.noFlags,
    cursor.commandPath, cursor.valid⟩

def leavesOption (cursor : Cursor) (text : Word) : Bool :=
  !cursor.noFlags && cursor.pendingValue.isNone && text ≠ ['-', '-'] &&
    (cursor.node.findSubcommand text).isNone &&
    (parseFlag cursor.node text).any fun flag =>
      flag.takesValue && flag.inlineValue.isNone && flag.long.isNone

/-- No value-taking option without a long name is read. -/
def namedOptions : Cursor → List Word → Bool
  | _, [] => true
  | cursor, text :: rest => !cursor.leavesOption text && (cursor.read text).namedOptions rest

theorem readPositional_reading (cursor : Cursor) (text : Word) :
    (cursor.readPositional text).reading = cursor.reading.positional := by
  rw [readPositional, Reading.positional]
  cases found : cursor.node.positionals[cursor.positionalsConsumed]? with
  | some positional =>
      have same : cursor.reading.node.positionals[cursor.reading.consumed]? = some positional := found
      rw [same]
      rfl
  | none =>
      have same : cursor.reading.node.positionals[cursor.reading.consumed]? = none := found
      rw [same]
      rfl

theorem read_reading {cursor : Cursor} {text : Word} (named : cursor.leavesOption text = false) :
    (cursor.read text).reading = cursor.reading.next text := by
  rw [read, Reading.next]
  cases separated : cursor.noFlags with
  | true =>
      have same : cursor.reading.separated = true := separated
      rw [if_pos rfl, if_pos same]
      exact readPositional_reading cursor text
  | false =>
      have same : cursor.reading.separated = false := separated
      rw [same, if_neg Bool.false_ne_true, if_neg Bool.false_ne_true]
      cases pending : cursor.pendingValue with
      | some long =>
          have waiting : cursor.reading.waiting = true := by rw [reading, pending]; rfl
          rw [if_pos waiting]
          rfl
      | none =>
          have waiting : cursor.reading.waiting = false := by rw [reading, pending]; rfl
          rw [waiting, if_neg Bool.false_ne_true]
          by_cases separator : text = ['-', '-']
          · rw [if_pos separator, if_pos separator, reading, reading, pending]
            rfl
          · rw [if_neg separator, if_neg separator]
            have node : cursor.reading.node = cursor.node := rfl
            rw [node]
            cases entered : cursor.node.findSubcommand text with
            | some subcommand => rfl
            | none =>
                cases parsed : parseFlag cursor.node text with
                | none => exact readPositional_reading cursor text
                | some flag =>
                    rw [leavesOption, separated, pending, entered, parsed] at named
                    dsimp only
                    cases takes : flag.takesValue && flag.inlineValue.isNone with
                    | false =>
                        rw [if_neg Bool.false_ne_true, reading, pending, separated]
                        rfl
                    | true =>
                        have long : flag.long.isSome = true := by
                          simp only [separator, takes, Bool.not_false, Option.isNone_none,
                            Bool.true_and, Option.any_some, ne_eq, not_false_eq_true,
                            decide_true, Option.isNone_eq_false_iff] at named
                          exact named
                        rw [if_pos rfl, reading, long]
                        rfl

theorem foldl_read_reading {cursor : Cursor} {words : List Word}
    (named : cursor.namedOptions words = true) :
    (words.foldl read cursor).reading = words.foldl Reading.next cursor.reading := by
  induction words generalizing cursor with
  | nil => rfl
  | cons text rest ih =>
      rw [namedOptions, Bool.and_eq_true, Bool.not_eq_true'] at named
      rw [List.foldl_cons, List.foldl_cons, ih named.2, read_reading named.1]

theorem namedOptions_append {cursor : Cursor} {before after : List Word}
    (named : cursor.namedOptions (before ++ after) = true) :
    cursor.namedOptions before = true := by
  induction before generalizing cursor with
  | nil => rfl
  | cons text rest ih =>
      rw [List.cons_append, namedOptions, Bool.and_eq_true] at named
      rw [namedOptions, named.1, ih named.2]
      rfl

end Cursor

namespace Reading

/-- What a reading says, but for the positional values. -/
def route (reading : Reading) : CommandNode × Bool × Bool × List Word :=
  (reading.node, reading.waiting, reading.separated, reading.path)

variable {first second : Reading}

theorem positional_route (reading : Reading) : reading.positional.route = reading.route := by
  rw [positional]
  split
  · rfl
  · rfl

/-- How many positional values were read does not matter for the command. -/
theorem next_route (same : first.route = second.route) (text : Word) :
    (first.next text).route = (second.next text).route := by
  obtain ⟨node, consumed, waiting, separated, path, valid⟩ := first
  obtain ⟨_, others, _, _, _, formed⟩ := second
  cases same
  rw [next, next]
  dsimp only
  split_ifs with separated waiting
  · rw [positional_route, positional_route]
    rfl
  · rfl
  · rfl
  · cases node.findSubcommand text with
    | some subcommand => rfl
    | none =>
        cases parseFlag node text with
        | some flag => rfl
        | none =>
            dsimp only
            rw [positional_route, positional_route]
            rfl

theorem foldl_next_route (same : first.route = second.route) (words : List Word) :
    (words.foldl next first).route = (words.foldl next second).route := by
  induction words generalizing first second with
  | nil => exact same
  | cons text rest ih => exact ih (next_route same text)

end Reading

/-! ## The slot -/

/-- Behind the words before it, the argument is the component of the command of the line. -/
structure FillsSlot (root : CommandNode) (before after : List Word) (argument : Word) : Prop where
  valid : (Reading.of root before).valid = true
  component : (Reading.of root before).atComponent = true
  taken : Reading.of root (before ++ [argument]) =
    { Reading.of root before with consumed := (Reading.of root before).consumed + 1 }
  command : (Reading.of root before).path = (Reading.of root (before ++ after)).path
  kept : (Reading.of root (before ++ argument :: after)).path =
    (Reading.of root (before ++ after)).path

/-- What is put in is an argument more, outside quotations and at a slot for it. -/
def EditsSlot (root : CommandNode) (focus : Option Word) (front inserted back : List Char) : Prop :=
  (scan .start front).quote = none ∧ ∃ argument after,
    lineWords (front ++ back) = some ((scan .start front).allWords ++ after) ∧
    lineWords (front ++ (inserted ++ back)) =
      some ((scan .start front).allWords ++ argument :: after) ∧
    (∃ component, focus = some component ∧
      (argument = component ∨ argument = ['.', '/'] ++ component)) ∧
    FillsSlot root (scan .start front).allWords after argument

theorem of_append (root : CommandNode) (before after : List Word) :
    Reading.of root (before ++ after) = after.foldl Reading.next (Reading.of root before) :=
  List.foldl_append

theorem parseFlag_plain {node : CommandNode} {first : Char} {rest : Word} (plain : first ≠ '-') :
    parseFlag node (first :: rest) = none := by
  have long : stripLeading ['-', '-'] (first :: rest) = none := by
    refine Option.eq_none_iff_forall_ne_some.mpr fun behind stripped => ?_
    exact plain (List.cons.inj (stripLeading_eq_some_iff.mp stripped)).1
  have short : stripLeading ['-'] (first :: rest) = none := by
    refine Option.eq_none_iff_forall_ne_some.mpr fun behind stripped => ?_
    exact plain (List.cons.inj (stripLeading_eq_some_iff.mp stripped)).1
  rw [parseFlag, long]
  dsimp only
  rw [short]
  rfl

theorem positional_atComponent {reading : Reading} (component : reading.atComponent = true) :
    reading.positional = { reading with consumed := reading.consumed + 1 } := by
  rw [Reading.positional]
  rw [Reading.atComponent] at component
  cases found : reading.node.positionals[reading.consumed]? with
  | none =>
      rw [found] at component
      cases component
  | some positional => rfl

/-- At the slot, a word is taken as the component unless it names a command. -/
theorem next_atComponent {reading : Reading} {first : Char} {rest : Word}
    (component : reading.atComponent = true) (ready : reading.waiting = false)
    (plain : first ≠ '-') :
    reading.next (first :: rest) = { reading with consumed := reading.consumed + 1 } ↔
      reading.separated = true ∨ reading.node.findSubcommand (first :: rest) = none := by
  have taken := positional_atComponent component
  obtain ⟨node, consumed, waiting, separated, path, valid⟩ := reading
  obtain rfl : waiting = false := ready
  have separator : first :: rest ≠ ['-', '-'] := fun same => plain (List.cons.inj same).1
  cases separated with
  | true => exact iff_of_true taken (.inl rfl)
  | false =>
      rw [Reading.next, if_neg Bool.false_ne_true, if_neg Bool.false_ne_true, if_neg separator]
      dsimp only
      cases entered : node.findSubcommand (first :: rest) with
      | none =>
          rw [parseFlag_plain plain]
          exact iff_of_true taken (.inr rfl)
      | some subcommand =>
          refine iff_of_false (fun same => ?_) fun either => ?_
          · exact Nat.succ_ne_zero _ (congrArg Reading.consumed same).symm
          · rcases either with none | none
            · cases none
            · cases none

theorem fillsSlot_iff {root : CommandNode} {before after : List Word} {first : Char} {rest : Word}
    {cursor : Cursor} (walked : before.foldl Cursor.read (Cursor.start root) = cursor)
    (named : (Cursor.start root).namedOptions (before ++ after) = true)
    (valid : cursor.valid = true) (ready : cursor.pendingValue.isNone = true)
    (component : (cursor.node.positionals[cursor.positionalsConsumed]?).any isComponent = true)
    (command : cursor.commandPath =
      ((before ++ after).foldl Cursor.read (Cursor.start root)).commandPath)
    (plain : first ≠ '-') :
    FillsSlot root before after (first :: rest) ↔
      cursor.noFlags = true ∨ cursor.node.findSubcommand (first :: rest) = none := by
  have early : Reading.of root before = cursor.reading := by
    rw [← walked]
    exact (Cursor.foldl_read_reading (Cursor.namedOptions_append named)).symm
  have whole : (Reading.of root (before ++ after)).path =
      ((before ++ after).foldl Cursor.read (Cursor.start root)).commandPath :=
    congrArg Reading.path (Cursor.foldl_read_reading named).symm
  have waiting : cursor.reading.waiting = false :=
    (Bool.not_eq_true _).mp fun some => by
      rw [Option.isNone_iff_eq_none] at ready
      rw [Cursor.reading, ready] at some
      cases some
  have slot : cursor.reading.atComponent = true := component
  have argument : Reading.of root (before ++ [first :: rest]) = cursor.reading.next (first :: rest) := by
    rw [of_append, early]
    rfl
  have taken : Reading.of root (before ++ [first :: rest]) =
      { cursor.reading with consumed := cursor.reading.consumed + 1 } ↔
      cursor.noFlags = true ∨ cursor.node.findSubcommand (first :: rest) = none := by
    rw [argument]
    exact next_atComponent slot waiting plain
  constructor
  · intro fills
    have same := fills.taken
    rw [early] at same
    exact taken.mp same
  · intro clear
    have same := taken.mpr clear
    have shifted : (Reading.of root (before ++ [first :: rest])).route =
        (Reading.of root before).route := by
      rw [same, early]
      rfl
    refine ⟨?_, ?_, ?_, ?_, ?_⟩
    · rw [early]
      exact valid
    · rw [early]
      exact slot
    · rw [early]
      exact same
    · rw [whole, early]
      exact command
    · have path : (after.foldl Reading.next (Reading.of root (before ++ [first :: rest]))).path =
          (after.foldl Reading.next (Reading.of root before)).path :=
        congrArg (fun route => route.2.2.2) (Reading.foldl_next_route shifted after)
      rw [← of_append, ← of_append, ← List.append_cons] at path
      exact path

/-! ## The words of the tree -/

theorem collectWords_eq (node : CommandNode) : collectWords node =
    collectSubcommands node.subcommands ++ node.flags.flatMap FlagSpec.words := by
  obtain ⟨name, subcommands, flags, positionals⟩ := node
  rw [collectWords]

theorem collectSubcommands_of_mem {subcommand : CommandNode} {subcommands : List CommandNode}
    (member : subcommand ∈ subcommands) :
    subcommand.name ∈ collectSubcommands subcommands ∧
      collectWords subcommand ⊆ collectSubcommands subcommands := by
  induction subcommands with
  | nil => cases member
  | cons other rest ih =>
      rw [collectSubcommands]
      rcases List.mem_cons.mp member with rfl | later
      · exact ⟨List.mem_cons_self, fun word inside =>
          List.mem_cons_of_mem _ (List.mem_append_left _ inside)⟩
      · obtain ⟨name, words⟩ := ih later
        exact ⟨List.mem_cons_of_mem _ (List.mem_append_right _ name), fun word inside =>
          List.mem_cons_of_mem _ (List.mem_append_right _ (words inside))⟩

theorem readPositional_node (cursor : Cursor) (text : Word) :
    (cursor.readPositional text).node = cursor.node := by
  rw [Cursor.readPositional]
  split
  · rfl
  · rfl

theorem read_node (cursor : Cursor) (text : Word) :
    (cursor.read text).node = cursor.node ∨
      (cursor.read text).node ∈ cursor.node.subcommands := by
  rw [Cursor.read]
  split
  · exact .inl (readPositional_node cursor text)
  · split
    · exact .inl rfl
    · split
      · exact .inl rfl
      · split
        · next entered => exact .inr (List.mem_of_find?_eq_some entered)
        · split
          · split
            · exact .inl rfl
            · exact .inl rfl
          · exact .inl (readPositional_node cursor text)

/-- A walk stays in the tree. -/
theorem collectWords_foldl_read {root : CommandNode} {cursor : Cursor} (words : List Word)
    (within : collectWords cursor.node ⊆ collectWords root) :
    collectWords (words.foldl Cursor.read cursor).node ⊆ collectWords root := by
  induction words generalizing cursor with
  | nil => exact within
  | cons text rest ih =>
      refine ih ?_
      rcases read_node cursor text with same | entered
      · rw [same]
        exact within
      · refine fun word inside => within ?_
        rw [collectWords_eq cursor.node]
        exact List.mem_append_left _ ((collectSubcommands_of_mem entered).2 inside)

theorem findSubcommand_none {root : CommandNode} {word : Word} (words : List Word)
    (foreign : word ∉ collectWords root) :
    (words.foldl Cursor.read (Cursor.start root)).node.findSubcommand word = none := by
  rw [CommandNode.findSubcommand, List.find?_eq_none]
  intro subcommand member named
  have within : collectWords (words.foldl Cursor.read (Cursor.start root)).node ⊆ collectWords root :=
    collectWords_foldl_read words (List.Subset.refl _)
  refine foreign (within ?_)
  rw [collectWords_eq, ← of_decide_eq_true named]
  exact List.mem_append_left _ (collectSubcommands_of_mem member).1

/-! ## The argument -/

theorem replaceCharacter_twice (word : Word) :
    Prefill.replaceCharacter '"' ['\\', '"'] (Prefill.replaceCharacter '\\' ['\\', '\\'] word) =
      escape word := by
  rw [Prefill.replaceCharacter, Prefill.replaceCharacter, List.flatMap_assoc, escape]
  refine List.flatMap_congr fun character _ => ?_
  by_cases backslash : character = '\\'
  · rw [backslash]
    rfl
  · rw [if_neg backslash, List.flatMap_singleton]
    by_cases mark : character = '"'
    · rw [if_pos mark, if_pos (.inl mark), mark]
    · rw [if_neg mark, if_neg (not_or.mpr ⟨mark, backslash⟩)]

/-- The focus is put in so that it is read as it is. -/
theorem spells_quote {word : Word} (nonempty : word ≠ []) : Spells (Prefill.quote word) word := by
  rw [Prefill.quote]
  split_ifs with plain
  · refine spells_self nonempty fun character member => ?_
    have inert := List.all_eq_true.mp plain character member
    rw [Prefill.isUnquoted, Bool.and_eq_true, Bool.not_eq_true', Bool.not_eq_true'] at inert
    refine ⟨?_, inert.1⟩
    rw [← Bool.not_eq_true, isMark_iff]
    rintro (rfl | rfl)
    · exact absurd inert.2 (by decide)
    · exact absurd inert.2 (by decide)
  · rw [replaceCharacter_twice]
    exact spells_quoted word

theorem argument_cases (prefill : Prefill) (component : Word) :
    (component.head? ≠ some '-' ∧ component ∉ prefill.words ∧
      prefill.argument component = component) ∨
    prefill.argument component = ['.', '/'] ++ component := by
  rw [Prefill.argument]
  split_ifs with ambiguous
  · exact .inr rfl
  · rw [not_or] at ambiguous
    exact .inl ⟨ambiguous.1, ambiguous.2, rfl⟩

/-- The argument is not read as an option. -/
theorem argument_plain {prefill : Prefill} {component : Word} (nonempty : component ≠ []) :
    ∃ first rest, prefill.argument component = first :: rest ∧ first ≠ '-' := by
  rcases argument_cases prefill component with ⟨plain, _, same⟩ | path
  · obtain ⟨first, rest, rfl⟩ := List.exists_cons_of_ne_nil nonempty
    exact ⟨first, rest, same, fun dash => plain (congrArg some dash)⟩
  · exact ⟨'.', '/' :: component, path, by decide⟩

/-! ## What is granted -/

theorem available_granted {prefill : Prefill} {line : List Char} {cursor : Nat} {consume : Bool}
    (granted : (prefill.available line cursor consume).1 = true) :
    ∃ position, componentPosition prefill.root line cursor = some position ∧
      position.vacant = true ∧ position.command ∉ prefill.inserted := by
  rw [Prefill.available] at granted
  split at granted
  · cases granted
  · next position found =>
      split_ifs at granted with home supplied taken
      · rw [Bool.or_eq_true, not_or, Bool.not_eq_true', Bool.not_eq_false,
          List.contains_iff_mem] at taken
        exact ⟨position, found, taken.1, taken.2⟩
      · rw [Bool.or_eq_true, not_or, Bool.not_eq_true', Bool.not_eq_false,
          List.contains_iff_mem] at taken
        exact ⟨position, found, taken.1, taken.2⟩

/-- What is put in stands at the place, which is behind white space or a bare command. -/
theorem insertion_granted {prefill : Prefill} {line inserted : List Char} {cursor : Nat}
    (granted : (prefill.insertion line cursor).1 = some inserted) :
    ∃ component front back, prefill.focus = some component ∧ component ≠ [] ∧
      line = front ++ back ∧ ByteText.byteLength front = cursor ∧
      (prefill.available line cursor true).1 = true ∧
      ((front.getLast?.any isWhitespace = true ∧
          inserted = Prefill.quote (prefill.argument component) ++ [' ']) ∨
        (Prefill.bareStatus line cursor = true ∧
          inserted = ' ' :: Prefill.quote (prefill.argument component) ++ [' '])) := by
  rw [Prefill.insertion] at granted
  split at granted
  · next focus front back quoted before behind =>
      rw [Prefill.quotedFocus] at quoted
      split at quoted
      · cases quoted
      · next component focused =>
          split_ifs at quoted with unusable
          rw [not_or] at unusable
          cases quoted
          obtain ⟨rest, rfl, length⟩ := ByteText.getTo_eq_some_iff.mp before
          obtain rfl : rest = back := by
            rw [← length, ByteText.getFrom_append] at behind
            exact Option.some_inj.mp behind
          dsimp only at granted
          split_ifs at granted with blocked taken gap
          · refine ⟨component, front, rest, focused, unusable.1, rfl, length, taken, .inl ⟨gap, ?_⟩⟩
            exact (Option.some_inj.mp granted).symm
          · refine ⟨component, front, rest, focused, unusable.1, rfl, length, taken, .inr ⟨?_, ?_⟩⟩
            · by_contra bare
              rw [Bool.not_eq_true] at gap bare
              rw [gap, bare] at blocked
              exact blocked rfl
            · exact (Option.some_inj.mp granted).symm
  · cases granted

theorem walk_tokenize (root : CommandNode) (text : List Char) :
    walk root (tokenize text) = (scan .start text).allWords.foldl Cursor.read (Cursor.start root) := by
  rw [← tokenize_texts, List.foldl_map]
  rfl

/-- What the line and what stands before the place say about the slot. -/
theorem componentPosition_vacant {root : CommandNode} {front back : List Char}
    {position : ComponentPosition}
    (found : componentPosition root (front ++ back) (ByteText.byteLength front) = some position)
    (vacant : position.vacant = true) :
    (∃ words, lineWords (front ++ back) = some words) ∧
      (walk root (tokenize front)).valid = true ∧
      (walk root (tokenize front)).commandPath = (walk root (tokenize (front ++ back))).commandPath ∧
      (walk root (tokenize front)).pendingValue.isNone = true ∧
      ((walk root (tokenize front)).node.positionals[
        (walk root (tokenize front)).positionalsConsumed]?).any isComponent = true := by
  rw [componentPosition, ByteText.getTo_append] at found
  dsimp only at found
  split_ifs at found with unusable foreign
  cases found
  simp only [Bool.and_eq_true, decide_eq_true_eq] at vacant
  obtain ⟨⟨⟨valid, command⟩, ready⟩, slot⟩ := vacant
  refine ⟨?_, valid, command, ready, slot⟩
  rw [Bool.or_eq_true, not_or, Bool.not_eq_true', Bool.not_eq_false] at unusable
  rw [lineWords]
  cases split : Command.splitRawCommand (front ++ back) with
  | ok command => exact ⟨_, rfl⟩
  | error failure =>
      rw [split] at unusable
      cases unusable.2

theorem bareStatus_iff {front back : List Char} :
    Prefill.bareStatus (front ++ back) (ByteText.byteLength front) = true ↔
      back = [] ∧ trimList front = "status".toList := by
  rw [Prefill.bareStatus, Bool.and_eq_true, decide_eq_true_iff, decide_eq_true_iff,
    ByteText.byteLength_append]
  constructor
  · rintro ⟨length, trimmed⟩
    obtain rfl : back = [] := ByteText.eq_nil_of_byteLength (by omega)
    rw [List.append_nil] at trimmed
    exact ⟨rfl, trimmed⟩
  · rintro ⟨rfl, trimmed⟩
    rw [List.append_nil]
    exact ⟨rfl, trimmed⟩

theorem lineWords_inserted {front back inserted token argument : List Char}
    (outside : (scan .start front).quote = none) (spells : Spells token argument)
    (whole : ∃ words, lineWords (front ++ back) = some words)
    (gap : (front.getLast?.any isWhitespace = true ∧ inserted = token ++ [' ']) ∨
      (Prefill.bareStatus (front ++ back) (ByteText.byteLength front) = true ∧
        inserted = ' ' :: token ++ [' '])) :
    lineWords (front ++ back) =
        some ((scan .start front).allWords ++ (scan .start back).allWords) ∧
      lineWords (front ++ (inserted ++ back)) =
        some ((scan .start front).allWords ++ argument :: (scan .start back).allWords) := by
  obtain ⟨words, read⟩ := whole
  obtain ⟨closed, _, rfl⟩ := lineWords_eq_some_iff.mp read
  rcases gap with ⟨last, rfl⟩ | ⟨bare, rfl⟩
  · have plain : front.getLast? ≠ some '\\' := by
      intro same
      rw [same] at last
      exact absurd last (by decide)
    have complete := word_of_blank (fun _ same => by cases same) last outside
    have line : scan .start (front ++ back) =
        (scan .start back).behind (scan .start front).allWords := by
      rw [scan_append plain, ← scan_behind, ← eq_behind outside complete]
    have edited : scan .start (front ++ (token ++ [' '] ++ back)) =
        (scan .start back).behind ((scan .start front).allWords ++ [argument]) := by
      rw [scan_append plain, List.append_assoc]
      exact scan_token spells outside complete back
    rw [line] at closed
    rw [read, line, allWords_behind]
    refine ⟨rfl, lineWords_eq_some_iff.mpr ⟨?_, ?_, ?_⟩⟩
    · rw [edited]
      exact closed
    · exact List.append_ne_nil_of_right_ne_nil _ (List.cons_ne_nil _ _)
    · rw [edited, allWords_behind, List.append_assoc]
      rfl
  · obtain ⟨rfl, trimmed⟩ := bareStatus_iff.mp bare
    have plain : front.getLast? ≠ some '\\' := by
      intro same
      rcases isWhitespace_or_mem_trimList (List.mem_of_getLast? same) with blank | inside
      · exact absurd blank (by decide)
      · rw [trimmed] at inside
        exact absurd inside (by decide)
    have edited : scan .start (front ++ (' ' :: token ++ [' '] ++ [])) =
        ((scan .start []).behind ([] ++ [argument])).behind (scan .start front).allWords := by
      rw [scan_append plain, List.append_nil, List.cons_append, scan_gap outside]
      exact congrArg (Scan.behind _) (scan_token spells rfl rfl [])
    rw [read]
    refine ⟨?_, lineWords_eq_some_iff.mpr ⟨?_, ?_, ?_⟩⟩
    · rw [List.append_nil]
      exact congrArg some (List.append_nil _).symm
    · rw [edited]
      rfl
    · exact List.append_ne_nil_of_right_ne_nil _ (List.cons_ne_nil _ _)
    · rw [edited, allWords_behind, allWords_behind]
      rfl

/-! ## When the slot is filled -/

/-- The place is outside quotations, and no command of the slot is named like the argument. -/
def Clear (prefill : Prefill) (front : List Char) : Prop :=
  (scan .start front).quote = none ∧ ∃ component, prefill.focus = some component ∧
    (prefill.argument component = component ∨
      (walk prefill.root (tokenize front)).noFlags = true ∨
      (walk prefill.root (tokenize front)).node.findSubcommand (prefill.argument component) = none)

theorem edits_iff {prefill : Prefill} {line inserted : List Char} {cursor : Nat}
    (known : prefill.words = ['-', '-'] :: collectWords prefill.root)
    (granted : (prefill.insertion line cursor).1 = some inserted) :
    ∃ front back, line = front ++ back ∧ ByteText.byteLength front = cursor ∧
      ((Cursor.start prefill.root).namedOptions ((tokenize line).map (·.text)) = true →
        (EditsSlot prefill.root prefill.focus front inserted back ↔ Clear prefill front)) := by
  obtain ⟨component, front, back, focused, nonempty, rfl, rfl, taken, gap⟩ :=
    insertion_granted granted
  obtain ⟨position, found, vacant, _⟩ := available_granted taken
  obtain ⟨whole, valid, command, ready, slot⟩ := componentPosition_vacant found vacant
  obtain ⟨first, rest, argument, plain⟩ := @argument_plain prefill component nonempty
  have spells : Spells (Prefill.quote (prefill.argument component)) (prefill.argument component) :=
    spells_quote (argument ▸ List.cons_ne_nil _ _)
  refine ⟨front, back, rfl, rfl, fun named => ?_⟩
  by_cases outside : (scan .start front).quote = none
  · obtain ⟨line, edited⟩ := lineWords_inserted outside spells whole gap
    have words := (lineWords_eq_some_iff.mp line).2.2
    rw [tokenize_texts, ← words] at named
    rw [walk_tokenize, walk_tokenize, ← words] at command
    rw [walk_tokenize] at valid ready slot
    have fills := @fillsSlot_iff _ _ _ _ rest _ rfl named valid ready slot command plain
    rw [← argument, ← walk_tokenize] at fills
    constructor
    · rintro ⟨_, other, after, same, more, _, filled⟩
      obtain rfl := List.append_cancel_left (Option.some_inj.mp (same.symm.trans line))
      obtain ⟨rfl, _⟩ :=
        List.cons.inj (List.append_cancel_left (Option.some_inj.mp (more.symm.trans edited)))
      exact ⟨outside, component, focused, .inr (fills.mp filled)⟩
    · rintro ⟨_, other, same, clear⟩
      obtain rfl : component = other := Option.some_inj.mp (focused.symm.trans same)
      have either : prefill.argument component = component ∨
          prefill.argument component = ['.', '/'] ++ component := by
        rcases argument_cases prefill component with ⟨_, _, bare⟩ | path
        · exact .inl bare
        · exact .inr path
      refine ⟨outside, _, _, line, edited, ⟨component, focused, either⟩, fills.mpr ?_⟩
      rcases clear with bare | clear
      · rcases argument_cases prefill component with ⟨_, foreign, _⟩ | path
        · rw [known] at foreign
          rw [walk_tokenize, bare]
          exact .inr (findSubcommand_none _ fun inside => foreign (List.mem_cons_of_mem _ inside))
        · have length := congrArg List.length (bare.symm.trans path)
          rw [List.length_append, List.length_cons, List.length_singleton] at length
          omega
      · exact clear
  · exact iff_of_false (fun edits => outside edits.1) fun clear => outside clear.1

/-! ## Runs -/

namespace Prefill

def run (prefill : Prefill) (operations : List Operation) : Prefill := operations.foldl step prefill

/-- An operation that does not begin a submission keeps the tree and forgets no command. -/
structure Keeps (before after : Prefill) : Prop where
  root : after.root = before.root
  words : after.words = before.words
  inserted : before.inserted ⊆ after.inserted

theorem Keeps.refl (prefill : Prefill) : Keeps prefill prefill := ⟨rfl, rfl, List.Subset.refl _⟩

theorem keeps_insert (prefill : Prefill) (command : List Word) :
    Keeps prefill { prefill with inserted := prefill.inserted.insert command } :=
  ⟨rfl, rfl, fun _ member => List.mem_insert_of_mem member⟩

theorem available_keeps (prefill : Prefill) (line : List Char) (cursor : Nat) (consume : Bool) :
    Keeps prefill (prefill.available line cursor consume).2 := by
  rw [available]
  split
  · exact .refl prefill
  · split_ifs
    · exact .refl prefill
    · exact keeps_insert prefill _
    · exact .refl prefill
    · exact keeps_insert prefill _
    · exact .refl prefill

theorem step_keeps (prefill : Prefill) {operation : Operation}
    (other : operation ≠ .beginSubmission) : Keeps prefill (prefill.step operation) := by
  cases operation with
  | beginSubmission => exact absurd rfl other
  | setFocus focus => exact ⟨rfl, rfl, List.Subset.refl _⟩
  | insertion line cursor =>
      rw [step, insertion]
      split
      · dsimp only
        split
        · exact available_keeps prefill line cursor false
        · exact available_keeps prefill line cursor true
      · exact .refl prefill
  | highlight line cursor =>
      rw [step, highlight]
      split_ifs with unfocused
      · exact .refl prefill
      · have keeps := available_keeps prefill line cursor false
        dsimp only
        split_ifs
        · exact ⟨keeps.root, keeps.words, keeps.inserted⟩
        · exact keeps
  | shouldExpandAbbr line wordStart =>
      rw [step, shouldExpandAbbr]
      split
      · exact .refl prefill
      · dsimp only
        split_ifs
        · exact available_keeps prefill line _ true
        · exact .refl prefill

/-- The words stay those of the tree. -/
theorem run_new (root : CommandNode) (focus : Option Word) (operations : List Operation) :
    ((new root focus).run operations).root = root ∧
      ((new root focus).run operations).words = ['-', '-'] :: collectWords root := by
  have kept : ∀ (operations : List Operation) (prefill : Prefill),
      (prefill.run operations).root = prefill.root ∧
        (prefill.run operations).words = prefill.words := by
    intro operations
    induction operations with
    | nil => exact fun prefill => ⟨rfl, rfl⟩
    | cons operation rest ih =>
        intro prefill
        obtain ⟨sameRoot, sameWords⟩ := ih (prefill.step operation)
        have step : (prefill.step operation).root = prefill.root ∧
            (prefill.step operation).words = prefill.words := by
          by_cases begins : operation = .beginSubmission
          · rw [begins]
            exact ⟨rfl, rfl⟩
          · have keeps := step_keeps prefill begins
            exact ⟨keeps.root, keeps.words⟩
        exact ⟨sameRoot.trans step.1, sameWords.trans step.2⟩
  exact kept operations (new root focus)

theorem available_remembers {prefill : Prefill} {line : List Char} {cursor : Nat}
    {position : ComponentPosition} (granted : (prefill.available line cursor true).1 = true)
    (found : componentPosition prefill.root line cursor = some position) :
    position.command ∈ (prefill.available line cursor true).2.inserted := by
  rw [available, found] at granted ⊢
  dsimp only at granted ⊢
  split_ifs at granted ⊢ with home supplied taken consumed
  · exact List.mem_insert_self
  · exact absurd rfl consumed

theorem insertion_consumes {prefill : Prefill} {line inserted : List Char} {cursor : Nat}
    (granted : (prefill.insertion line cursor).1 = some inserted) :
    (prefill.insertion line cursor).2 = (prefill.available line cursor true).2 := by
  rw [insertion] at granted ⊢
  split at granted
  · dsimp only at granted ⊢
    split_ifs at granted ⊢ with blocked taken gap
    · rfl
    · rfl
  · cases granted

/-- A command that the component is put in for was not remembered before, and is then. -/
theorem insertedFor_some {prefill : Prefill} {operation : Operation} {command : List Word}
    (granted : prefill.insertedFor operation = some command) :
    command ∉ prefill.inserted ∧ command ∈ (prefill.step operation).inserted := by
  cases operation with
  | beginSubmission => cases granted
  | setFocus focus => cases granted
  | highlight line cursor => cases granted
  | shouldExpandAbbr line wordStart => cases granted
  | insertion line cursor =>
      rw [insertedFor] at granted
      split_ifs at granted with some
      obtain ⟨position, found, rfl⟩ := Option.map_eq_some_iff.mp granted
      obtain ⟨inserted, given⟩ := Option.isSome_iff_exists.mp some
      obtain ⟨component, front, back, _, _, _, _, taken, _⟩ := insertion_granted given
      obtain ⟨same, foundToo, _, absent⟩ := available_granted taken
      obtain rfl : same = position := Option.some_inj.mp (foundToo.symm.trans found)
      refine ⟨absent, ?_⟩
      rw [step, insertion_consumes given]
      exact available_remembers taken found

theorem insertions_spec {operations : List Operation} {prefill : Prefill}
    (within : .beginSubmission ∉ operations) :
    (prefill.insertions operations).Nodup ∧
      ∀ command ∈ prefill.insertions operations, command ∉ prefill.inserted := by
  induction operations generalizing prefill with
  | nil => exact ⟨List.nodup_nil, fun _ member => absurd member List.not_mem_nil⟩
  | cons operation rest ih =>
      rw [List.mem_cons, not_or] at within
      obtain ⟨distinct, fresh⟩ := @ih (prefill.step operation) within.2
      have keeps := step_keeps prefill (Ne.symm within.1)
      rw [insertions]
      cases granted : prefill.insertedFor operation with
      | none =>
          exact ⟨distinct, fun command member inside => fresh command member (keeps.inserted inside)⟩
      | some command =>
          obtain ⟨absent, remembered⟩ := insertedFor_some granted
          refine ⟨List.nodup_cons.mpr ⟨fun again => fresh command again remembered, distinct⟩, ?_⟩
          intro other member inside
          rcases List.mem_cons.mp member with rfl | later
          · exact absent inside
          · exact fresh other later (keeps.inserted inside)

end Prefill

/-- What is put in at any time fills an empty slot exactly where the place is clear, and each command
gets its component once until the next submission. -/
theorem prefill_edits (root : CommandNode) (focus : Option Word) (earlier : List Prefill.Operation) :
    (∀ line cursor inserted,
      (((Prefill.new root focus).run earlier).insertion line cursor).1 = some inserted →
      ∃ front back, line = front ++ back ∧ ByteText.byteLength front = cursor ∧
        ((Cursor.start root).namedOptions ((tokenize line).map (·.text)) = true →
          (EditsSlot root ((Prefill.new root focus).run earlier).focus front inserted back ↔
            Clear ((Prefill.new root focus).run earlier) front))) ∧
    ∀ later, .beginSubmission ∉ later →
      (((Prefill.new root focus).run earlier).insertions later).Nodup := by
  obtain ⟨sameRoot, words⟩ := Prefill.run_new root focus earlier
  constructor
  · intro line cursor inserted granted
    have edits := edits_iff (by rw [words, sameRoot]) granted
    rw [sameRoot] at edits
    exact edits
  · intro later within
    exact (Prefill.insertions_spec within).1

/-! ## Tasks of a component -/

/-- A tree with one command, that has an option with a value and takes a component. -/
def tasksTree : CommandNode :=
  ⟨[], [⟨"tasks".toList, [], [⟨some "status".toList, none, true⟩],
    [⟨some "COMPONENT_DIR".toList⟩]⟩], [], []⟩

def tasksPrefill : Prefill := Prefill.new tasksTree (some "maerg".toList)

/-- A place between two blanks of a quoted value is taken for an empty slot. -/
theorem insertion_inside_quotation :
    (tasksPrefill.insertion ("tasks --status \"a ".toList ++ " b\"".toList) 18).1 =
      some "maerg ".toList ∧
    lineWords ("tasks --status \"a ".toList ++ " b\"".toList) =
      some ["tasks".toList, "--status".toList, "a  b".toList] ∧
    lineWords ("tasks --status \"a ".toList ++ ("maerg ".toList ++ " b\"".toList)) =
      some ["tasks".toList, "--status".toList, "a maerg  b".toList] ∧
    ¬EditsSlot tasksTree tasksPrefill.focus "tasks --status \"a ".toList "maerg ".toList
      " b\"".toList := by
  refine ⟨by decide +kernel, by decide +kernel, by decide +kernel, fun edits => ?_⟩
  exact absurd edits.1 (by decide +kernel)

theorem prefill_edits_tasks :
    EditsSlot tasksTree tasksPrefill.focus "tasks ".toList "maerg ".toList [] := by
  have edits := (prefill_edits tasksTree (some "maerg".toList) []).1 "tasks ".toList 6
    "maerg ".toList (by decide)
  obtain ⟨front, back, line, length, edits⟩ := edits
  have begins := ByteText.getTo_append front back
  rw [length, ← line] at begins
  have cut : ByteText.getTo 6 "tasks ".toList = some "tasks ".toList := by decide
  obtain rfl : front = "tasks ".toList := Option.some_inj.mp (begins.symm.trans cut)
  obtain rfl : back = [] := List.append_cancel_left (line.symm.trans (List.append_nil _).symm)
  exact (edits (by decide)).mpr
    ⟨by decide, "maerg".toList, rfl, .inl (by decide)⟩

end Kvist.Bark
