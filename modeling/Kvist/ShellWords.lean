import Kvist.Text

/-!
# Words of a shell command line

The words that a shell splits a line into where it has nothing to expand. A line that is not one
simple command, or whose words an unquoted character would change, has no words here.
-/

set_option autoImplicit false

namespace Kvist.ShellWords

open Text

inductive Quotation where
  | none
  | single
  | double
  deriving DecidableEq, Repr

/-- Operators, expansions, patterns and what a locale could take as white space. -/
def active (character : Char) : Bool :=
  isWhitespace character ||
    ['|', '&', ';', '<', '>', '(', ')', '$', '\x60', '*', '?', '[', ']', '~', '!', '^', '\x7b',
      '\x7d'].contains character

def push (word : Option (List Char)) (text : List Char) : Option (List Char) :=
  some (word.getD [] ++ text)

/-- The words before this place and the one that it stands in, if there is one. A comment begins
only at the start of a word, and a backslash before a line feed takes both away. -/
def scan (words : List (List Char)) (word : Option (List Char)) :
    Quotation → List Char → Option (List (List Char))
  | .none, [] => some (words ++ word.toList)
  | .single, [] => none
  | .double, [] => none
  | .none, character :: rest =>
      if character = '\x27' then scan words (push word []) .single rest
      else if character = '"' then scan words (push word []) .double rest
      else if character = '\\' then
        match rest with
        | [] => none
        | next :: behind =>
            if next = '\n' then scan words word .none behind
            else scan words (push word [next]) .none behind
      else if character = ' ' ∨ character = '\t' then scan (words ++ word.toList) none .none rest
      else if active character ∨ character = '#' ∧ word = none then none
      else scan words (push word [character]) .none rest
  | .single, character :: rest =>
      if character = '\x27' then scan words word .none rest
      else scan words (push word [character]) .single rest
  | .double, character :: rest =>
      if character = '"' then scan words word .none rest
      else if character = '\\' then
        match rest with
        | [] => none
        | next :: behind =>
            if next = '\n' then scan words word .double behind
            else if next = '$' ∨ next = '\x60' ∨ next = '"' ∨ next = '\\' then
              scan words (push word [next]) .double behind
            else scan words (push word ['\\', next]) .double behind
      else if character = '$' ∨ character = '\x60' then none
      else scan words (push word [character]) .double rest

def splitWords (line : List Char) : Option (List (List Char)) := scan [] none .none line

example : splitWords "a 'b c'\\''d'  \"\\$e\"".toList =
    some ["a".toList, "b c'd".toList, "$e".toList] := by decide +kernel

example : splitWords "a; b".toList = none := by decide

variable {words : List (List Char)} {word : Option (List Char)} {rest : List Char}

@[simp] theorem push_push (word : Option (List Char)) (front back : List Char) :
    push (push word front) back = push word (front ++ back) := by
  simp [push]

theorem scan_mark : scan words word .none ('\x27' :: rest) = scan words (push word []) .single rest := by
  rw [scan.eq_def]
  rfl

theorem scan_none_cons {character : Char} (mark : character ≠ '\x27') (double : character ≠ '"')
    (backslash : character ≠ '\\') (text : List Char) :
    scan words word .none (character :: text) =
      if character = ' ' ∨ character = '\t' then scan (words ++ word.toList) none .none text
      else if active character ∨ character = '#' ∧ word = none then none
      else scan words (push word [character]) .none text := by
  rw [scan.eq_def]
  simp only [mark, double, backslash, if_false]

/-- A text without characters that do anything is taken as it is. -/
theorem scan_plain {text : List Char}
    (inert : ∀ character ∈ text, active character = false ∧
      character ∉ ['\x27', '"', '\\', '#']) (begun : Option (List Char))
    (nonempty : text ≠ []) :
    scan words begun .none (text ++ rest) = scan words (push begun text) .none rest := by
  induction text generalizing begun with
  | nil => exact absurd rfl nonempty
  | cons character text ih =>
      obtain ⟨quiet, other⟩ := inert character List.mem_cons_self
      simp only [List.mem_cons, List.not_mem_nil, or_false, not_or] at other
      obtain ⟨mark, double, backslash, comment⟩ := other
      have blank : ¬(character = ' ' ∨ character = '\t') := by
        rintro (rfl | rfl) <;> exact absurd quiet (by decide)
      rw [List.cons_append, scan_none_cons mark double backslash, if_neg blank]
      rw [if_neg (by simp [quiet, comment])]
      cases text with
      | nil => rfl
      | cons next text =>
          rw [ih (fun other member => inert other (List.mem_cons_of_mem _ member)) _ (by simp)]
          rw [push_push, List.singleton_append]

/-- The token stands for the word where a word begins. -/
def Spells (token word : List Char) : Prop :=
  ∀ words rest, scan words none .none (token ++ rest) = scan words (some word) .none rest

/-- A text without characters that do anything is its own token. -/
theorem spells_self {text : List Char} (nonempty : text ≠ [])
    (inert : ∀ character ∈ text, active character = false ∧
      character ∉ ['\x27', '"', '\\', '#']) : Spells text text := by
  intro words rest
  rw [scan_plain inert none nonempty]
  rfl

/-- Tokens with blanks between them are the words that they stand for. -/
theorem splitWords_intercalate {tokens words : List (List Char)}
    (spelled : List.Forall₂ Spells tokens words) :
    splitWords ([' '].intercalate tokens) = some words := by
  suffices general : ∀ before, scan before none .none ([' '].intercalate tokens) =
      some (before ++ words) from general []
  induction spelled with
  | nil => exact fun before => rfl
  | @cons token word tokens words spells others ih =>
      intro before
      cases others with
      | nil =>
          have last := spells before []
          rw [List.append_nil] at last
          rw [List.intercalate_singleton, last]
          rfl
      | @cons next other tokens words first remaining =>
          rw [List.intercalate_cons_cons, List.append_assoc, spells, List.singleton_append]
          rw [scan_none_cons (by decide) (by decide) (by decide), if_pos (.inl rfl)]
          rw [Option.toList_some, ih (before ++ [word])]
          simp

end Kvist.ShellWords
