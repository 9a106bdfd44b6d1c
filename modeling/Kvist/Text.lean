import Mathlib.Data.List.DropRight
import Mathlib.Data.List.Infix

/-!
# Text operations

The string operations of the standard library that the task queue uses, on lists of
characters. `trim` removes Unicode white space at both ends, `lines` splits at line feeds
and drops one carriage return before each, and `splitOnce` splits at the first separator.
-/

set_option autoImplicit false

namespace Kvist.Text

/-- The Unicode `White_Space` property, the one `str::trim` uses. -/
def isWhitespace (character : Char) : Bool :=
  let code := character.toNat
  (9 ≤ code && code ≤ 13) || code == 0x20 || code == 0x85 || code == 0xA0 || code == 0x1680 ||
    (0x2000 ≤ code && code ≤ 0x200A) || code == 0x2028 || code == 0x2029 || code == 0x202F ||
    code == 0x205F || code == 0x3000

/-- `char::is_control`. -/
def isControl (character : Char) : Bool :=
  character.toNat < 0x20 || (0x7f ≤ character.toNat && character.toNat ≤ 0x9f)

def trimStart (characters : List Char) : List Char := characters.dropWhile isWhitespace

def trimEnd (characters : List Char) : List Char :=
  characters.rdropWhile isWhitespace

def trimList (characters : List Char) : List Char := trimEnd (trimStart characters)

def trim (value : String) : String := String.ofList (trimList value.toList)

/-- `value.trim().is_empty()`. -/
def isBlank (value : String) : Bool := (trimList value.toList).isEmpty

def stripLeading (leading characters : List Char) : Option (List Char) :=
  if leading.isPrefixOf characters then some (characters.drop leading.length) else none

def stripTrailing (trailing characters : List Char) : Option (List Char) :=
  (stripLeading trailing.reverse characters.reverse).map List.reverse

/-- The parts before and after the first `separator`. -/
def splitOnce (separator : Char) : List Char → Option (List Char × List Char)
  | [] => none
  | character :: rest =>
      if character = separator then some ([], rest)
      else (splitOnce separator rest).map fun parts => (character :: parts.1, parts.2)

/-- The parts before and behind the first place at which `separator` stands. -/
def splitOnceText (separator : List Char) : List Char → Option (List Char × List Char)
  | [] => if separator = [] then some ([], []) else none
  | character :: rest =>
      match stripLeading separator (character :: rest) with
      | some behind => some ([], behind)
      | none => (splitOnceText separator rest).map fun parts => (character :: parts.1, parts.2)

/-- `str::split_inclusive('\n')`: each line with its line feed. -/
def splitInclusive : List Char → List (List Char)
  | [] => []
  | character :: rest =>
      if character = '\n' then [character] :: splitInclusive rest
      else match splitInclusive rest with
        | [] => [[character]]
        | line :: lines => (character :: line) :: lines

def dropCarriageReturn (line : List Char) : List Char :=
  match line.reverse with
  | '\r' :: rest => rest.reverse
  | _ => line

/-- A line without its line feed and the carriage return in front of it. A carriage return that no
line feed follows is kept. -/
def stripLineEnding (line : List Char) : List Char :=
  match stripTrailing ['\n'] line with
  | some line => dropCarriageReturn line
  | none => line

/-- `str::lines`: a final line feed ends the last line and starts no further one. -/
def lines (characters : List Char) : List (List Char) :=
  (splitInclusive characters).map stripLineEnding

/-- `lines.join("\n")`. -/
def joinLines (pieces : List (List Char)) : List Char := ['\n'].intercalate pieces

/-- `value.contains(needle)` for a text needle. -/
def containsText (needle characters : List Char) : Bool :=
  characters.tails.any fun tail => needle.isPrefixOf tail

@[simp] theorem stripLeading_append (leading rest : List Char) :
    stripLeading leading (leading ++ rest) = some rest := by
  simp [stripLeading]

theorem stripLeading_eq_some_iff {leading characters rest : List Char} :
    stripLeading leading characters = some rest ↔ characters = leading ++ rest := by
  constructor
  · intro stripped
    rw [stripLeading] at stripped
    split at stripped
    · next leads =>
        obtain ⟨tail, rfl⟩ := List.isPrefixOf_iff_prefix.mp leads
        simpa using stripped
    · cases stripped
  · rintro rfl
    exact stripLeading_append leading rest

@[simp] theorem stripTrailing_append (rest trailing : List Char) :
    stripTrailing trailing (rest ++ trailing) = some rest := by
  simp [stripTrailing]

/-- The first separator is the one behind a text without separators. -/
theorem splitOnce_append {separator : Char} {before rest : List Char} (absent : separator ∉ before) :
    splitOnce separator (before ++ separator :: rest) = some (before, rest) := by
  induction before with
  | nil => simp [splitOnce]
  | cons character before ih =>
      simp only [List.mem_cons, not_or] at absent
      simp [splitOnce, Ne.symm absent.1, ih absent.2]

theorem splitOnce_absent {separator : Char} {text : List Char} (absent : separator ∉ text) :
    splitOnce separator text = none := by
  induction text with
  | nil => rfl
  | cons character rest ih =>
      rw [List.mem_cons, not_or] at absent
      rw [splitOnce, if_neg (Ne.symm absent.1), ih absent.2]
      rfl

theorem mem_of_splitOnce {separator character : Char} {characters before rest : List Char}
    (parts : splitOnce separator characters = some (before, rest)) (member : character ∈ before) :
    character ∈ characters := by
  induction characters generalizing before rest with
  | nil => cases parts
  | cons first others ih =>
      rw [splitOnce] at parts
      split at parts
      · rw [Option.some.injEq, Prod.mk.injEq] at parts
        rw [← parts.1] at member
        cases member
      · obtain ⟨⟨inner, after⟩, found, same⟩ := Option.map_eq_some_iff.mp parts
        rw [Prod.mk.injEq] at same
        rw [← same.1] at member
        rcases List.mem_cons.mp member with rfl | inside
        · exact List.mem_cons_self
        · exact List.mem_cons_of_mem _ (ih found inside)

theorem splitOnce_eq_some {separator : Char} {characters before rest : List Char}
    (parts : splitOnce separator characters = some (before, rest)) :
    characters = before ++ separator :: rest := by
  induction characters generalizing before with
  | nil => cases parts
  | cons first others ih =>
      rw [splitOnce] at parts
      split at parts
      · rename_i here
        cases parts
        rw [here, List.nil_append]
      · obtain ⟨⟨inner, behind⟩, found, same⟩ := Option.map_eq_some_iff.mp parts
        cases same
        rw [ih found, List.cons_append]

theorem splitOnceText_eq_some {separator characters before rest : List Char}
    (parts : splitOnceText separator characters = some (before, rest)) :
    characters = before ++ (separator ++ rest) := by
  induction characters generalizing before with
  | nil =>
      rw [splitOnceText] at parts
      split at parts
      · rename_i empty
        cases parts
        rw [empty]
        rfl
      · cases parts
  | cons first others ih =>
      rw [splitOnceText] at parts
      split at parts
      · rename_i behind stripped
        cases parts
        rw [List.nil_append]
        exact stripLeading_eq_some_iff.mp stripped
      · obtain ⟨⟨inner, behind⟩, found, same⟩ := Option.map_eq_some_iff.mp parts
        cases same
        rw [ih found, List.cons_append]

/-- A separator is not found before its place if its second character is not there. -/
theorem splitOnceText_append {first second : Char} (other : first ≠ second)
    {before : List Char} (absent : second ∉ before) (inner rest : List Char) :
    splitOnceText (first :: second :: inner) (before ++ (first :: second :: inner ++ rest)) =
      some (before, rest) := by
  induction before with
  | nil =>
      rw [List.nil_append, List.cons_append, splitOnceText, ← List.cons_append,
        stripLeading_append]
  | cons character before ih =>
      rw [List.mem_cons, not_or] at absent
      have none : stripLeading (first :: second :: inner)
          (character :: (before ++ (first :: second :: inner ++ rest))) = none := by
        cases stripped : stripLeading (first :: second :: inner)
            (character :: (before ++ (first :: second :: inner ++ rest))) with
        | none => rfl
        | some behind =>
            have same := (List.cons.inj (stripLeading_eq_some_iff.mp stripped)).2
            cases before with
            | nil => exact absurd (List.cons.inj same).1 other
            | cons next before =>
                exact absurd (List.cons.inj same).1.symm
                  (fun here => absent.2 (here ▸ List.mem_cons_self))
      rw [List.cons_append, splitOnceText, none, ih absent.2]
      rfl

/-- A separator that has a character at its ends only is found before such a character alike,
whatever follows it. -/
theorem splitOnceText_append_last {separator : List Char} {last : Char}
    (hinged : ∀ front back, separator = front ++ last :: back → front = [] ∨ back = [])
    (long : 2 ≤ separator.length) (before more : List Char) :
    splitOnceText separator (before ++ last :: more) =
      match splitOnceText separator (before ++ [last]) with
      | some (front, back) => some (front, back ++ more)
      | none => (splitOnceText separator (last :: more)).map fun parts =>
          (before ++ parts.1, parts.2) := by
  induction before with
  | nil =>
      have absent : splitOnceText separator [last] = none := by
        cases found : splitOnceText separator [last] with
        | none => rfl
        | some parts =>
            have lengths := congrArg List.length (splitOnceText_eq_some found)
            simp only [List.length_append, List.length_singleton] at lengths
            omega
      rw [List.nil_append, List.nil_append, absent]
      cases splitOnceText separator (last :: more) <;> rfl
  | cons character before ih =>
      have heads : stripLeading separator (character :: (before ++ last :: more)) =
          (stripLeading separator (character :: (before ++ [last]))).map (· ++ more) := by
        cases stripped : stripLeading separator (character :: (before ++ [last])) with
        | some rest =>
            rw [Option.map_some]
            refine stripLeading_eq_some_iff.mpr ?_
            rw [← List.append_assoc, ← stripLeading_eq_some_iff.mp stripped]
            simp
        | none =>
            rw [Option.map_none, Option.eq_none_iff_forall_ne_some]
            intro rest begins
            have whole := stripLeading_eq_some_iff.mp begins
            have whole : (character :: before ++ [last]) ++ more = separator ++ rest := by
              simpa using whole
            rcases List.append_eq_append_iff.mp whole with
              ⟨between, separated, -⟩ | ⟨between, separated, -⟩
            · -- the separator would reach over the last character, which stands inside it
              have inside : separator = character :: before ++ last :: between := by
                simpa using separated
              rcases hinged _ _ inside with empty | rfl
              · cases empty
              · rw [inside, show character :: (before ++ [last]) = character :: before ++ [last] ++ []
                  by simp, stripLeading_append] at stripped
                cases stripped
            · rw [show character :: (before ++ [last]) = separator ++ between by
                simpa using separated, stripLeading_append] at stripped
              cases stripped
      rw [List.cons_append, splitOnceText, heads, List.cons_append, splitOnceText, ih]
      cases stripped : stripLeading separator (character :: (before ++ [last])) with
      | some rest => rfl
      | none =>
          cases found : splitOnceText separator (before ++ [last]) with
          | some parts => simp
          | none => simp [Function.comp_def]

/-- The lines of a part, each with its line feed, stand in front of what follows it. -/
theorem splitInclusive_append (part rest : List Char) :
    splitInclusive (part ++ '\n' :: rest) =
      (part.splitOn '\n').map (· ++ ['\n']) ++ splitInclusive rest := by
  induction part with
  | nil => rw [List.nil_append, splitInclusive, if_pos rfl]; rfl
  | cons character part ih =>
      rw [List.cons_append, splitInclusive, ih, List.splitOn_cons_eq_if_modifyHead]
      by_cases feed : character = '\n'
      · rw [if_pos feed, if_pos (beq_iff_eq.mpr feed)]
        rw [feed]
        rfl
      · rw [if_neg feed, if_neg (fun same => feed (beq_iff_eq.mp same))]
        obtain ⟨first, others, pieces⟩ := List.exists_cons_of_ne_nil
          (List.splitOn_ne_nil '\n' part)
        rw [pieces]
        rfl

@[simp] theorem stripLineEnding_ended (line : List Char) :
    stripLineEnding (line ++ ['\n']) = dropCarriageReturn line := by
  rw [stripLineEnding, stripTrailing_append]

theorem lines_append (part rest : List Char) :
    lines (part ++ '\n' :: rest) = (part.splitOn '\n').map dropCarriageReturn ++ lines rest := by
  rw [lines, splitInclusive_append, List.map_append, List.map_map]
  congr 1
  exact List.map_congr_left fun line _ => stripLineEnding_ended line

/-- What is written with line feeds behind it is read as the lines of each part. -/
theorem lines_flatMap (pieces : List (List Char)) :
    lines (pieces.flatMap (· ++ ['\n'])) =
      pieces.flatMap fun piece => (piece.splitOn '\n').map dropCarriageReturn := by
  induction pieces with
  | nil => rfl
  | cons piece rest ih =>
      rw [List.flatMap_cons, List.append_assoc, List.singleton_append, lines_append, ih,
        List.flatMap_cons]

theorem not_mem_of_mem_splitOn {separator : Char} {text piece : List Char}
    (member : piece ∈ text.splitOn separator) : separator ∉ piece := by
  induction text generalizing piece with
  | nil =>
      rw [List.splitOn_nil, List.mem_singleton] at member
      rw [member]
      exact List.not_mem_nil
  | cons character rest ih =>
      rw [List.splitOn_cons_eq_if_modifyHead] at member
      split at member
      · rcases List.mem_cons.mp member with rfl | later
        · exact List.not_mem_nil
        · exact ih later
      · rename_i other
        obtain ⟨first, others, pieces⟩ := List.exists_cons_of_ne_nil
          (List.splitOn_ne_nil separator rest)
        rw [pieces, List.modifyHead_cons] at member
        rcases List.mem_cons.mp member with rfl | later
        · rw [List.mem_cons, not_or]
          refine ⟨fun same => other (beq_iff_eq.mpr same.symm), ih (pieces ▸ List.mem_cons_self)⟩
        · exact ih (pieces ▸ List.mem_cons_of_mem _ later)

theorem mem_of_mem_splitOn {separator character : Char} {text piece : List Char}
    (member : piece ∈ text.splitOn separator) (inside : character ∈ piece) : character ∈ text := by
  induction text generalizing piece with
  | nil =>
      rw [List.splitOn_nil, List.mem_singleton] at member
      exact absurd (member ▸ inside) List.not_mem_nil
  | cons first rest ih =>
      rw [List.splitOn_cons_eq_if_modifyHead] at member
      split at member
      · rcases List.mem_cons.mp member with rfl | later
        · exact absurd inside List.not_mem_nil
        · exact List.mem_cons_of_mem _ (ih later inside)
      · obtain ⟨front, others, pieces⟩ := List.exists_cons_of_ne_nil
          (List.splitOn_ne_nil separator rest)
        rw [pieces, List.modifyHead_cons] at member
        rcases List.mem_cons.mp member with rfl | later
        · rcases List.mem_cons.mp inside with rfl | behind
          · exact List.mem_cons_self
          · exact List.mem_cons_of_mem _ (ih (pieces ▸ List.mem_cons_self) behind)
        · exact List.mem_cons_of_mem _ (ih (pieces ▸ List.mem_cons_of_mem _ later) inside)

theorem dropCarriageReturn_prefix (line : List Char) : dropCarriageReturn line <+: line := by
  rw [dropCarriageReturn]
  split
  · next rest reversed =>
      rw [← List.reverse_reverse line, reversed, List.reverse_cons]
      exact List.prefix_append _ _
  · exact List.prefix_rfl

theorem dropCarriageReturn_plain {line : List Char} (plain : '\r' ∉ line) :
    dropCarriageReturn line = line := by
  rw [dropCarriageReturn]
  split
  · next rest reversed =>
      have inside : '\r' ∈ line := by
        rw [← List.mem_reverse, reversed]
        exact List.mem_cons_self
      exact absurd inside plain
  · rfl

theorem lines_plain {line : List Char} (unbroken : '\n' ∉ line) (plain : '\r' ∉ line)
    (rest : List Char) : lines (line ++ '\n' :: rest) = line :: lines rest := by
  rw [lines_append, List.splitOn_eq_singleton unbroken, List.map_singleton,
    dropCarriageReturn_plain plain, List.singleton_append]

/-- Lines that each end in a line feed are read back. -/
theorem lines_terminated {pieces : List (List Char)}
    (single : ∀ piece ∈ pieces, ∀ character ∈ piece, character ≠ '\n' ∧ character ≠ '\r') :
    lines (pieces.flatMap (· ++ ['\n'])) = pieces := by
  induction pieces with
  | nil => rfl
  | cons piece rest ih =>
      obtain ⟨here, others⟩ := List.forall_mem_cons.mp single
      rw [List.flatMap_cons, List.append_assoc, List.singleton_append,
        lines_plain (fun present => (here _ present).1 rfl) (fun present => (here _ present).2 rfl),
        ih others]

theorem mem_intercalate {α : Type} {separator character : α} {parts : List (List α)}
    (member : character ∈ [separator].intercalate parts) :
    character = separator ∨ ∃ part ∈ parts, character ∈ part := by
  induction parts with
  | nil => simp at member
  | cons first others ih =>
      cases others with
      | nil =>
          rw [List.intercalate_singleton] at member
          exact .inr ⟨first, List.mem_cons_self, member⟩
      | cons second rest =>
          rw [List.intercalate_cons_cons, List.mem_append, List.mem_append,
            List.mem_singleton] at member
          rcases member with (inside | same) | later
          · exact .inr ⟨first, List.mem_cons_self, inside⟩
          · exact .inl same
          · rcases ih later with same | ⟨part, present, inside⟩
            · exact .inl same
            · exact .inr ⟨part, List.mem_cons_of_mem _ present, inside⟩

theorem mem_intercalate_head {separator character : Char} {first : List Char}
    (rest : List (List Char)) (member : character ∈ first) :
    character ∈ [separator].intercalate (first :: rest) := by
  cases rest with
  | nil => rwa [List.intercalate_singleton]
  | cons second others =>
      rw [List.intercalate_cons_cons]
      exact List.mem_append_left _ (List.mem_append_left _ member)

theorem containsText_iff {needle text : List Char} :
    containsText needle text = true ↔ needle <:+: text := by
  rw [containsText, List.any_eq_true]
  constructor
  · intro ⟨tail, member, begins⟩
    exact (List.isPrefixOf_iff_prefix.mp begins).isInfix.trans ((List.mem_tails _ _).mp member).isInfix
  · intro ⟨before, after, same⟩
    refine ⟨needle ++ after, ?_, ?_⟩
    · rw [List.mem_tails]
      exact ⟨before, by rw [← same, List.append_assoc]⟩
    · rw [List.isPrefixOf_iff_prefix]
      exact List.prefix_append ..

end Kvist.Text
