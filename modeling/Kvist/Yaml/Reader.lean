import Kvist.Text
import Kvist.Yaml.Block

/-!
# A reader of block documents

A reader for the documents of `Kvist.Yaml.Block`: it groups the lines of a block by its
indentation and reads each group on its own. It satisfies the rules assumed of a YAML
library, which are therefore satisfiable.
-/

set_option autoImplicit false

namespace Kvist.Yaml

open Text

def readLine (characters : List Char) : Line :=
  ⟨(characters.takeWhile (· == ' ')).length, characters.dropWhile (· == ' ')⟩

def readLines (text : List Char) : List Line := (lines text).map readLine

def groupStep (indent : Nat) (line : Line) (state : List Line × List (Line × List Line)) :
    List Line × List (Line × List Line) :=
  if line.indent = indent then ([], (line, state.1) :: state.2) else (line :: state.1, state.2)

def groups (indent : Nat) (lines : List Line) : List Line × List (Line × List Line) :=
  lines.foldr (groupStep indent) ([], [])

def readScalar (content : List Char) : Option Value :=
  match content with
  | ['[', ']'] => some (.sequence [])
  | '"' :: rest => do
      let raw ← stripTrailing ['"'] rest
      let value ← unquote raw
      some (.quoted (String.ofList value))
  | word => if isWord word then some (wordValue word) else none

/-- The text behind a dash that opens a block of its own. -/
def opensBlock (content : List Char) : Bool :=
  content.head? != some '"' && (content.contains ':' || ['-', ' '].isPrefixOf content)

/-- The entry of a mapping, given how to read a nested block. -/
def readEntry (readBlock : List Line → Option Value) (group : Line × List Line) :
    Option (Value × Value) := do
  let parts ← splitOnce ':' group.1.content
  if !isKey parts.1 then none
  match parts.2 with
  | [] => do
      let value ← readBlock group.2
      some (wordValue parts.1, value)
  | ' ' :: content => do
      if !group.2.isEmpty then none
      let value ← readScalar content
      some (wordValue parts.1, value)
  | _ => none

def readItem (readBlock : List Line → Option Value) (group : Line × List Line) :
    Option Value := do
  let content ← stripLeading ['-', ' '] group.1.content
  if opensBlock content then readBlock (⟨group.1.indent + 2, content⟩ :: group.2)
  else do
    if !group.2.isEmpty then none
    readScalar content

/-- A block, with a bound on the depth. -/
def readBlock : Nat → List Line → Option Value
  | 0, _ => none
  | _ + 1, [] => none
  | fuel + 1, first :: rest =>
      let found := (groups first.indent (first :: rest)).2
      if ['-', ' '].isPrefixOf first.content then
        (found.mapM (readItem (readBlock fuel))).map .sequence
      else do
        let entries ← found.mapM (readEntry (readBlock fuel))
        some (.mapping entries)

def readDocument (text : String) : Except String Value :=
  if text.toList.all isPrintable then
    match readBlock (text.toList.length + 1) (readLines text.toList) with
    | some value => .ok value
    | none => .error "not a block document"
  else .error "control characters are not allowed"

/-! ## Reading the lines back -/

/-- The shape of every line of a rendered tree. -/
structure Line.Plain (line : Line) : Prop where
  starts : ∃ character rest, line.content = character :: rest ∧ character ≠ ' '
  single : ∀ character ∈ line.content, character ≠ '\n' ∧ character ≠ '\r'

theorem readLine_characters {line : Line} (plain : line.Plain) :
    readLine (List.replicate line.indent ' ' ++ line.content) = line := by
  obtain ⟨character, rest, content, notBlank⟩ := plain.starts
  have spaces : ∀ count, (List.replicate count ' ' ++ character :: rest).takeWhile (· == ' ') =
      List.replicate count ' ' ∧
      (List.replicate count ' ' ++ character :: rest).dropWhile (· == ' ') = character :: rest := by
    intro count
    induction count with
    | zero => simp [notBlank]
    | succ count ih =>
        simp only [List.replicate_succ, List.cons_append, List.takeWhile_cons, beq_self_eq_true,
          if_true, List.dropWhile_cons, ih.1, ih.2, and_self]
  rw [readLine, content, (spaces line.indent).1, (spaces line.indent).2, List.length_replicate,
    ← content]

theorem readLines_flatMap {found : List Line} (plain : ∀ line ∈ found, line.Plain) :
    readLines (found.flatMap Line.characters) = found := by
  have split : found.flatMap Line.characters =
      (found.map fun line => List.replicate line.indent ' ' ++ line.content).flatMap
        (· ++ ['\n']) := by
    rw [List.flatMap_map]
    rfl
  rw [readLines, split, lines_terminated, List.map_map]
  · conv_rhs => rw [← List.map_id found]
    exact List.map_congr_left fun line member => readLine_characters (plain line member)
  · intro piece member character inside
    obtain ⟨line, lineMember, rfl⟩ := List.mem_map.mp member
    rcases List.mem_append.mp inside with inside | inside
    · rw [List.eq_of_mem_replicate inside]
      decide
    · exact (plain line lineMember).single character inside

/-! ## Grouping -/

/-- A group is read back when the lines after its first are further indented. -/
theorem groups_cons {indent : Nat} {first : Line} {deeper rest : List Line}
    (here : first.indent = indent) (further : ∀ line ∈ deeper, indent < line.indent)
    (closed : (groups indent rest).1 = []) :
    groups indent (first :: deeper ++ rest) = ([], (first, deeper) :: (groups indent rest).2) := by
  have gathered : ∀ deeper : List Line, (∀ line ∈ deeper, indent < line.indent) →
      deeper.foldr (groupStep indent) (groups indent rest) = (deeper, (groups indent rest).2) := by
    intro deeper further
    induction deeper with
    | nil => exact Prod.ext closed rfl
    | cons line deeper ih =>
        have different : line.indent ≠ indent := by
          have := further line (by simp)
          omega
        rw [List.foldr_cons, ih fun other member => further other (by simp [member]), groupStep,
          if_neg different]
  have whole : groups indent (first :: deeper ++ rest) =
      groupStep indent first (deeper.foldr (groupStep indent) (groups indent rest)) := by
    simp [groups, List.foldr_append]
  rw [whole, gathered deeper further, groupStep, if_pos here]

/-! ## Rendered trees -/

def entryGroup (indent : Nat) (entry : List Char × Node) : Line × List Line :=
  match entry.2.inline with
  | some text => (⟨indent, entry.1 ++ ':' :: ' ' :: text⟩, [])
  | none => (⟨indent, entry.1 ++ [':']⟩, entry.2.blockLines (indent + 2))

def itemGroup (indent : Nat) (node : Node) : Line × List Line :=
  match node.inline with
  | some text => (⟨indent, '-' :: ' ' :: text⟩, [])
  | none =>
      match node.blockLines (indent + 2) with
      | [] => (⟨indent, ['-', ' ']⟩, [])
      | first :: rest => (⟨first.indent - 2, '-' :: ' ' :: first.content⟩, rest)

private theorem letter_facts {character : Char} (letter : isLowerLetter character = true) :
    character ≠ ' ' ∧ character ≠ '"' ∧ character ≠ ':' ∧ character ≠ '[' ∧ character ≠ '\n' ∧
      character ≠ '\r' := by
  refine ⟨?_, ?_, ?_, ?_, ?_, ?_⟩ <;> rintro rfl <;> revert letter <;> decide

private theorem digit_facts {character : Char} (digit : isDigit character = true) :
    character ≠ ' ' ∧ character ≠ '"' ∧ character ≠ ':' ∧ character ≠ '[' ∧ character ≠ '\n' ∧
      character ≠ '\r' := by
  refine ⟨?_, ?_, ?_, ?_, ?_, ?_⟩ <;> rintro rfl <;> revert digit <;> decide

/-- A word is not empty, and has no character with a meaning of its own. -/
private theorem word_facts {text : List Char} (word : isWord text = true) :
    text ≠ [] ∧ (∀ character ∈ text, character ≠ ' ' ∧ character ≠ '"' ∧ character ≠ ':' ∧
      character ≠ '[' ∧ character ≠ '\n' ∧ character ≠ '\r') ∧ text.head? ≠ some '-' := by
  simp only [isWord, Bool.or_eq_true] at word
  rcases word with number | name
  · simp only [isNumber, Bool.or_eq_true, beq_iff_eq, Bool.and_eq_true, bne_iff_ne,
      List.all_eq_true] at number
    rcases number with rfl | ⟨⟨⟨notEmpty, digits⟩, _⟩, _⟩
    · simp
    · refine ⟨notEmpty, fun character member => digit_facts (digits character member), ?_⟩
      intro dash
      have := digits '-' (List.mem_of_mem_head? dash)
      revert this
      decide
  · simp only [isName, Bool.and_eq_true, List.all_eq_true, Bool.or_eq_true, beq_iff_eq] at name
    obtain ⟨starts, characters⟩ := name
    cases text with
    | nil => simp at starts
    | cons first rest =>
        refine ⟨by simp, fun character member => ?_, ?_⟩
        · rcases characters character member with (letter | rfl) | rfl
          · exact letter_facts letter
          · decide
          · decide
        · rintro dash
          obtain rfl : first = '-' := by simpa using dash
          have letter : isLowerLetter '-' = true := by simpa using starts
          revert letter
          decide

private theorem key_facts {key : List Char} (valid : isKey key = true) :
    (∃ character rest, key = character :: rest ∧ character ≠ ' ' ∧ character ≠ '"') ∧
      ':' ∉ key ∧ (∀ character ∈ key, character ≠ '\n' ∧ character ≠ '\r') ∧
      key.head? ≠ some '-' := by
  simp only [isKey, Bool.and_eq_true] at valid
  have word : isWord key = true := by simp [isWord, valid.1.1]
  obtain ⟨notEmpty, characters, notDash⟩ := word_facts word
  obtain ⟨first, rest, rfl⟩ := List.exists_cons_of_ne_nil notEmpty
  refine ⟨⟨first, rest, rfl, ?_, ?_⟩, ?_, ?_, notDash⟩
  · exact (characters first (by simp)).1
  · exact (characters first (by simp)).2.1
  · exact fun member => (characters ':' member).2.2.1 rfl
  · exact fun character member => (characters character member).2.2.2.2

/-- What stands behind a key or a dash is read back, and opens no block. -/
theorem readScalar_inline {node : Node} {text : List Char} (valid : node.wellFormed = true)
    (inline : node.inline = some text) :
    readScalar text = some node.value ∧ opensBlock text = false ∧
      ∀ character ∈ text, character ≠ '\n' ∧ character ≠ '\r' := by
  cases node with
  | word word =>
      cases inline
      rw [Node.wellFormed] at valid
      obtain ⟨notEmpty, characters, notDash⟩ := word_facts valid
      obtain ⟨first, rest, rfl⟩ := List.exists_cons_of_ne_nil notEmpty
      refine ⟨?_, ?_, fun character member => (characters character member).2.2.2.2⟩
      · rw [readScalar]
        · rw [if_pos valid, Node.value]
        · intro same
          cases same
          exact (characters '[' (by simp)).2.2.2.1 rfl
        · intro other same
          cases same
          exact (characters '"' (by simp)).2.1 rfl
      · have noColon : ':' ∉ first :: rest := fun member => (characters ':' member).2.2.1 rfl
        have noDash : first ≠ '-' := fun same => notDash (by simp [same])
        simp only [opensBlock, List.contains_eq_mem, noColon, decide_false, Bool.false_or,
          List.isPrefixOf, Bool.and_eq_false_iff]
        exact .inr (.inl (by simpa using Ne.symm noDash))
  | emptySequence =>
      cases inline
      refine ⟨by simp [readScalar, Node.value], by decide, by simp⟩
  | quoted raw =>
      cases inline
      rw [Node.wellFormed] at valid
      obtain ⟨value, read⟩ := Option.isSome_iff_exists.mp valid
      refine ⟨?_, by simp [opensBlock], ?_⟩
      · simp [readScalar, read, Node.value]
      · obtain ⟨found, split, _⟩ := Option.map_eq_some_iff.mp read
        intro character member
        simp only [List.mem_cons, List.mem_append, List.not_mem_nil, or_false] at member
        rcases member with rfl | member | rfl
        · decide
        · exact pieces_single split character member
        · decide
  | mapping entries => cases inline
  | sequence items => cases inline

/-- The layout of a collection at an indentation. -/
structure Laid (indent : Nat) (found : List Line) : Prop where
  plain : ∀ line ∈ found, line.Plain ∧ indent ≤ line.indent
  first : ∃ first rest, found = first :: rest ∧ first.indent = indent ∧
    opensBlock first.content = true

private theorem Line.Plain.behindKey {indent : Nat} {key text : List Char} (valid : isKey key = true)
    (single : ∀ character ∈ text, character ≠ '\n' ∧ character ≠ '\r') :
    Line.Plain ⟨indent, key ++ ':' :: text⟩ := by
  obtain ⟨⟨first, rest, same, notBlank, _⟩, _, keySingle, _⟩ := key_facts valid
  refine ⟨⟨first, rest ++ ':' :: text, by simp [same], notBlank⟩, fun character member => ?_⟩
  rcases List.mem_append.mp member with member | member
  · exact keySingle character member
  · rcases List.mem_cons.mp member with rfl | member
    · decide
    · exact single character member

private theorem Line.Plain.behindDash {indent : Nat} {text : List Char}
    (single : ∀ character ∈ text, character ≠ '\n' ∧ character ≠ '\r') :
    Line.Plain ⟨indent, '-' :: ' ' :: text⟩ := by
  refine ⟨⟨'-', ' ' :: text, rfl, by decide⟩, fun character member => ?_⟩
  simp only [List.mem_cons] at member
  rcases member with rfl | rfl | member
  · decide
  · decide
  · exact single character member

private theorem opensBlock_key {key text : List Char} (valid : isKey key = true) :
    opensBlock (key ++ ':' :: text) = true := by
  obtain ⟨⟨first, rest, rfl, _, notQuote⟩, _⟩ := key_facts valid
  simp [opensBlock, notQuote]

private theorem opensBlock_dash (text : List Char) : opensBlock ('-' :: ' ' :: text) = true := by
  simp [opensBlock, List.isPrefixOf]

private theorem spaceSingle {text : List Char}
    (single : ∀ character ∈ text, character ≠ '\n' ∧ character ≠ '\r') :
    ∀ character ∈ ' ' :: text, character ≠ '\n' ∧ character ≠ '\r' := by
  intro character member
  rcases List.mem_cons.mp member with rfl | member
  · decide
  · exact single character member

mutual

theorem Node.laid (node : Node) (indent : Nat) (collection : node.inline = none)
    (valid : node.wellFormed = true) : Laid indent (node.blockLines indent) := by
  cases node with
  | word text => cases collection
  | emptySequence => cases collection
  | quoted raw => cases collection
  | mapping entries =>
      simp only [Node.wellFormed, Bool.and_eq_true, Bool.not_eq_true'] at valid
      exact entries_laid entries indent (by simpa using valid.1.1) valid.2
  | sequence items =>
      simp only [Node.wellFormed, Bool.and_eq_true, Bool.not_eq_true'] at valid
      exact items_laid items indent (by simpa using valid.1) valid.2

theorem entries_laid (entries : List (List Char × Node)) (indent : Nat) (notEmpty : entries ≠ [])
    (valid : entriesWellFormed entries = true) : Laid indent (entryLines indent entries) := by
  match entries with
  | [] => exact absurd rfl notEmpty
  | (key, node) :: rest =>
      simp only [entriesWellFormed, Bool.and_eq_true] at valid
      obtain ⟨⟨keyValid, nodeValid⟩, restValid⟩ := valid
      have plainRest : ∀ line ∈ entryLines indent rest, line.Plain ∧ indent ≤ line.indent := by
        by_cases empty : rest = []
        · simp [empty, entryLines]
        · exact (entries_laid rest indent empty restValid).plain
      rw [entryLines]
      cases inline : node.inline with
      | some text =>
          obtain ⟨_, _, single⟩ := readScalar_inline nodeValid inline
          refine ⟨fun line member => ?_, ⟨_, _, rfl, rfl, opensBlock_key keyValid⟩⟩
          rcases List.mem_append.mp member with member | member
          · rw [List.mem_singleton.mp member]
            exact ⟨.behindKey keyValid (spaceSingle single), Nat.le_refl _⟩
          · exact plainRest line member
      | none =>
          have inner := node.laid (indent + 2) inline nodeValid
          refine ⟨fun line member => ?_, ⟨_, _, rfl, rfl, opensBlock_key keyValid⟩⟩
          rcases List.mem_append.mp member with member | member
          · rcases List.mem_cons.mp member with rfl | member
            · exact ⟨.behindKey keyValid (by simp), Nat.le_refl _⟩
            · have := (inner.plain line member).2
              exact ⟨(inner.plain line member).1, by omega⟩
          · exact plainRest line member

theorem items_laid (items : List Node) (indent : Nat) (notEmpty : items ≠ [])
    (valid : itemsWellFormed items = true) : Laid indent (itemLines indent items) := by
  match items with
  | [] => exact absurd rfl notEmpty
  | node :: rest =>
      simp only [itemsWellFormed, Bool.and_eq_true] at valid
      obtain ⟨nodeValid, restValid⟩ := valid
      have plainRest : ∀ line ∈ itemLines indent rest, line.Plain ∧ indent ≤ line.indent := by
        by_cases empty : rest = []
        · simp [empty, itemLines]
        · exact (items_laid rest indent empty restValid).plain
      rw [itemLines]
      cases inline : node.inline with
      | some text =>
          obtain ⟨_, _, single⟩ := readScalar_inline nodeValid inline
          refine ⟨fun line member => ?_, ⟨_, _, rfl, rfl, opensBlock_dash _⟩⟩
          rcases List.mem_append.mp member with member | member
          · rw [List.mem_singleton.mp member]
            exact ⟨.behindDash single, Nat.le_refl _⟩
          · exact plainRest line member
      | none =>
          have inner := node.laid (indent + 2) inline nodeValid
          obtain ⟨first, others, found, here, _⟩ := inner.first
          rw [found] at inner ⊢
          refine ⟨fun line member => ?_, ⟨_, _, rfl, by simp [here], opensBlock_dash _⟩⟩
          rcases List.mem_append.mp member with member | member
          · rcases List.mem_cons.mp member with rfl | member
            · exact ⟨.behindDash ((inner.plain first (by simp)).1.single), by simp [here]⟩
            · have := inner.plain line (by simp [member])
              exact ⟨this.1, by omega⟩
          · exact plainRest line member

end

/-! ## Reading a rendered tree -/

theorem groups_entries (indent : Nat) {entries : List (List Char × Node)}
    (valid : entriesWellFormed entries = true) :
    groups indent (entryLines indent entries) = ([], entries.map (entryGroup indent)) := by
  induction entries with
  | nil => simp [entryLines, groups]
  | cons entry rest ih =>
      obtain ⟨key, node⟩ := entry
      simp only [entriesWellFormed, Bool.and_eq_true] at valid
      obtain ⟨⟨_, nodeValid⟩, restValid⟩ := valid
      have closed : (groups indent (entryLines indent rest)).1 = [] := by rw [ih restValid]
      rw [entryLines, List.map_cons, entryGroup]
      cases inline : node.inline with
      | some text =>
          exact (groups_cons rfl (by simp) closed).trans (by rw [ih restValid])
      | none =>
          have inner := node.laid (indent + 2) inline nodeValid
          have further : ∀ line ∈ node.blockLines (indent + 2), indent < line.indent := by
            intro line member
            have := (inner.plain line member).2
            omega
          exact (groups_cons rfl further closed).trans (by rw [ih restValid])

theorem groups_items (indent : Nat) {items : List Node} (valid : itemsWellFormed items = true) :
    groups indent (itemLines indent items) = ([], items.map (itemGroup indent)) := by
  induction items with
  | nil => simp [itemLines, groups]
  | cons node rest ih =>
      simp only [itemsWellFormed, Bool.and_eq_true] at valid
      obtain ⟨nodeValid, restValid⟩ := valid
      have closed : (groups indent (itemLines indent rest)).1 = [] := by rw [ih restValid]
      rw [itemLines, List.map_cons, itemGroup]
      cases inline : node.inline with
      | some text =>
          exact (groups_cons rfl (by simp) closed).trans (by rw [ih restValid])
      | none =>
          have inner := node.laid (indent + 2) inline nodeValid
          obtain ⟨first, others, found, here, _⟩ := inner.first
          rw [found] at inner
          have further : ∀ line ∈ others, indent < line.indent := by
            intro line member
            have := (inner.plain line (by simp [member])).2
            omega
          simp only [found, dashFirst]
          exact (groups_cons (by simp [here]) further closed).trans (by rw [ih restValid])

/-- The size of a text, which every step into a block makes smaller. -/
def weight (found : List Line) : Nat :=
  found.foldr (fun line total => line.content.length + total) 0

theorem weight_append (left right : List Line) :
    weight (left ++ right) = weight left + weight right := by
  induction left with
  | nil => simp [weight]
  | cons line rest ih =>
      simp only [weight, List.cons_append, List.foldr_cons] at ih ⊢
      omega

theorem weight_cons (line : Line) (rest : List Line) :
    weight (line :: rest) = line.content.length + weight rest := rfl

private theorem splitOnce_key {key text : List Char} (valid : isKey key = true) :
    splitOnce ':' (key ++ ':' :: text) = some (key, text) :=
  splitOnce_append (key_facts valid).2.1

mutual

theorem Node.read (node : Node) (indent fuel : Nat) (collection : node.inline = none)
    (valid : node.wellFormed = true) (enough : weight (node.blockLines indent) < fuel) :
    readBlock fuel (node.blockLines indent) = some node.value := by
  have layout := node.laid indent collection valid
  obtain ⟨first, rest, found, here, _⟩ := layout.first
  cases fuel with
  | zero => omega
  | succ fuel =>
      cases node with
      | word text => cases collection
      | emptySequence => cases collection
      | quoted raw => cases collection
      | mapping entries =>
          simp only [Node.wellFormed, Bool.and_eq_true, Bool.not_eq_true'] at valid
          have notDash : ['-', ' '].isPrefixOf first.content = false := by
            cases entries with
            | nil => simp at valid
            | cons entry others =>
                obtain ⟨key, inner⟩ := entry
                simp only [entriesWellFormed, Bool.and_eq_true] at valid
                obtain ⟨⟨head, tail, same, _, _⟩, _, _, dash⟩ := key_facts valid.2.1.1
                have content : ∃ text, first.content = key ++ ':' :: text := by
                  rw [Node.blockLines, entryLines] at found
                  cases inline : inner.inline with
                  | some text =>
                      rw [inline] at found
                      exact ⟨' ' :: text, by rw [← (List.cons.inj found).1]⟩
                  | none =>
                      rw [inline] at found
                      exact ⟨[], by rw [← (List.cons.inj found).1]⟩
                obtain ⟨text, content⟩ := content
                have different : head ≠ '-' := fun equal => dash (by simp [same, equal])
                simp [content, same, List.isPrefixOf, Ne.symm different]
          have grouped := groups_entries indent valid.2
          rw [Node.blockLines] at found enough ⊢
          rw [found] at grouped ⊢
          rw [readBlock, here, grouped, notDash]
          simp only [Bool.false_eq_true, if_false]
          rw [entries_read entries indent fuel valid.2 (by omega), Node.value]
          rfl
      | sequence items =>
          simp only [Node.wellFormed, Bool.and_eq_true, Bool.not_eq_true'] at valid
          have dash : ['-', ' '].isPrefixOf first.content = true := by
            cases items with
            | nil => simp at valid
            | cons inner others =>
                simp only [itemsWellFormed, Bool.and_eq_true] at valid
                rw [Node.blockLines, itemLines] at found
                cases inline : inner.inline with
                | some text =>
                    rw [inline] at found
                    rw [← (List.cons.inj found).1]
                    simp [List.isPrefixOf]
                | none =>
                    obtain ⟨start, deeper, shape, _⟩ :=
                      (inner.laid (indent + 2) inline valid.2.1).first
                    rw [inline] at found
                    simp only [shape, dashFirst] at found
                    rw [← (List.cons.inj found).1]
                    simp [List.isPrefixOf]
          have grouped := groups_items indent valid.2
          rw [Node.blockLines] at found enough ⊢
          rw [found] at grouped ⊢
          rw [readBlock, here, grouped, dash]
          simp only [if_true]
          rw [items_read items indent fuel valid.2 (by omega), Node.value]
          rfl

theorem entries_read (entries : List (List Char × Node)) (indent fuel : Nat)
    (valid : entriesWellFormed entries = true)
    (enough : weight (entryLines indent entries) ≤ fuel) :
    (entries.map (entryGroup indent)).mapM (readEntry (readBlock fuel)) =
      some (entryValues entries) := by
  match entries with
  | [] => rfl
  | (key, node) :: rest =>
      simp only [entriesWellFormed, Bool.and_eq_true] at valid
      obtain ⟨⟨keyValid, nodeValid⟩, restValid⟩ := valid
      rw [entryLines, weight_append] at enough
      rw [List.map_cons, List.mapM_cons, entries_read rest indent fuel restValid (by omega)]
      suffices readHead : readEntry (readBlock fuel) (entryGroup indent (key, node)) =
          some (wordValue key, node.value) by
        rw [readHead]
        rfl
      rw [entryGroup]
      cases inline : node.inline with
      | some text =>
          simp [readEntry, splitOnce_key keyValid, keyValid, (readScalar_inline nodeValid inline).1]
      | none =>
          simp only [inline, weight_cons, List.length_append, List.length_singleton] at enough
          simp [readEntry, splitOnce_key keyValid, keyValid,
            node.read (indent + 2) fuel inline nodeValid (by omega)]

theorem items_read (items : List Node) (indent fuel : Nat)
    (valid : itemsWellFormed items = true)
    (enough : weight (itemLines indent items) ≤ fuel) :
    (items.map (itemGroup indent)).mapM (readItem (readBlock fuel)) = some (itemValues items) := by
  match items with
  | [] => rfl
  | node :: rest =>
      simp only [itemsWellFormed, Bool.and_eq_true] at valid
      obtain ⟨nodeValid, restValid⟩ := valid
      rw [itemLines, weight_append] at enough
      rw [List.map_cons, List.mapM_cons, items_read rest indent fuel restValid (by omega)]
      suffices readHead : readItem (readBlock fuel) (itemGroup indent node) = some node.value by
        rw [readHead]
        rfl
      rw [itemGroup]
      cases inline : node.inline with
      | some text =>
          obtain ⟨read, closed, _⟩ := readScalar_inline nodeValid inline
          simp [readItem, stripLeading, List.isPrefixOf, closed, read]
      | none =>
          have layout := node.laid (indent + 2) inline nodeValid
          obtain ⟨first, deeper, found, here, opens⟩ := layout.first
          have smaller : weight (node.blockLines (indent + 2)) < fuel := by
            simp only [inline, found, dashFirst, weight_cons, List.length_cons] at enough ⊢
            omega
          have inner := node.read (indent + 2) fuel inline nodeValid smaller
          have restored : (⟨first.indent - 2 + 2, first.content⟩ : Line) = first := by
            rw [here]
            cases first
            simp_all
          rw [found] at inner
          simp [readItem, found, stripLeading, List.isPrefixOf, opens, restored, inner]

end

private theorem weight_le_length (found : List Line) :
    weight found ≤ (found.flatMap Line.characters).length := by
  induction found with
  | nil => simp [weight]
  | cons line rest ih =>
      rw [weight_cons, List.flatMap_cons, List.length_append]
      have : line.content.length ≤ line.characters.length := by
        simp only [Line.characters, List.length_append]
        omega
      omega

/-- The reader loads block documents and refuses unprintable characters. -/
theorem readDocument_rules : BlockRules readDocument where
  block := fun node collection valid printable => by
    have inline : node.inline = none := by simpa [Node.isCollection] using collection
    have layout := node.laid 0 inline valid
    have enough : weight (node.blockLines 0) < node.render.length + 1 :=
      Nat.lt_succ_of_le (weight_le_length _)
    have split : readLines node.render = node.blockLines 0 :=
      readLines_flatMap fun line member => (layout.plain line member).1
    rw [readDocument, String.toList_ofList, if_pos printable, split,
      node.read 0 _ inline valid enough]
  reader := fun text unprintable => ⟨_, by rw [readDocument, unprintable]; rfl⟩

end Kvist.Yaml
