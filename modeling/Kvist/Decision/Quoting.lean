import Kvist.ShellWords
import Kvist.Utf8

/-!
# Arguments of printed commands

A value is printed as a word of a shell command line: as it is where that is safe, else between
quotation marks.
-/

set_option autoImplicit false

namespace Kvist.Decision

open ShellWords Text

/-- A quotation mark ends the quoted part, stands behind a backslash, and begins the next one. -/
def splice (character : Char) : List Char :=
  if character = '\x27' then ['\x27', '\\', '\x27', '\x27'] else [character]

def quote (value : List Char) : List Char := '\x27' :: (value.flatMap splice ++ ['\x27'])

/-- The characters that a token never holds outside of quotation marks, besides white space. -/
def metacharacters : List Char :=
  ['\x27', '"', '\\', '$', '\x60', ';', '|', '&', '<', '>', '(', ')', '\x7b', '\x7d', '*', '?', '[',
    ']', '~', '!', '#', '^']

def shellToken (value : List Char) : List Char :=
  let safe := !value.isEmpty && !(['-'].isPrefixOf value) &&
    value.all fun character => !isWhitespace character && !metacharacters.contains character
  if safe then value else quote value

/-- The subcommands of a decision, with the one that the argument parser adds. -/
def subcommands : List (List Char) :=
  ["actions", "do", "show", "options", "discuss", "plan", "apply", "help"].map String.toList

/-- A component is its path's bytes. -/
def componentArgument (component : List UInt8) : List Char :=
  let text := Utf8.fromUtf8Lossy component
  if ['-'].isPrefixOf text || subcommands.contains text then shellToken ('.' :: '/' :: text)
  else shellToken text

variable {value : List Char}

theorem scan_splice (words : List (List Char)) (begun : List Char) (character : Char)
    (rest : List Char) :
    scan words (some begun) .single (splice character ++ rest) =
      scan words (some (begun ++ [character])) .single rest := by
  rw [splice]
  split
  · rename_i mark
    subst mark
    have reopened := @scan_mark words (some (begun ++ ['\x27'])) rest
    rw [push, Option.getD_some, List.append_nil] at reopened
    rw [← reopened]
    simp [scan, push]
  · rename_i other
    rw [List.singleton_append, scan, if_neg other]
    rfl

theorem scan_quoted (words : List (List Char)) (begun : List Char) (rest : List Char) :
    scan words (some begun) .single (value.flatMap splice ++ '\x27' :: rest) =
      scan words (some (begun ++ value)) .none rest := by
  induction value generalizing begun with
  | nil => simp [scan]
  | cons character value ih =>
      rw [List.flatMap_cons, List.append_assoc, scan_splice, ih, List.append_assoc]
      rfl

theorem quote_spells (value : List Char) : Spells (quote value) value := by
  intro words rest
  rw [quote, List.cons_append, List.append_assoc, scan_mark]
  exact scan_quoted words [] rest

theorem active_metacharacters {character : Char}
    (inert : isWhitespace character = false) (plain : character ∉ metacharacters) :
    active character = false ∧ character ∉ ['\x27', '"', '\\', '#'] := by
  simp only [metacharacters, List.mem_cons, List.not_mem_nil, or_false, not_or] at plain
  simp [active, inert, plain]

theorem shellToken_spells (value : List Char) : Spells (shellToken value) value := by
  rw [shellToken]
  split
  · rename_i safe
    simp only [Bool.and_eq_true, Bool.not_eq_true', List.isEmpty_eq_false_iff, List.all_eq_true,
      List.contains_eq_mem, decide_eq_false_iff_not] at safe
    obtain ⟨⟨nonempty, -⟩, characters⟩ := safe
    exact spells_self nonempty fun character member =>
      active_metacharacters (characters character member).1 (characters character member).2
  · exact quote_spells value

end Kvist.Decision
