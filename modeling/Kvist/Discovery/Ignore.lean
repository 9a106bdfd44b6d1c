import Kvist.FileSystem.Tree
import Kvist.Json.Bytes
import Kvist.Text
import Kvist.Wildcards

/-!
# Ignore rules

A rule of an ignore file is a pattern with wildcards. It is matched byte by byte, by a loop that
keeps the place behind the last star and goes back there, one byte further on in the text.
-/

set_option autoImplicit false

namespace Kvist.Discovery

open FileSystem Text
open Json (utf8)
open Wildcards (Symbol Matches IsSingle)

def starByte : UInt8 := 42
def questionByte : UInt8 := 63

/-- The loop's place in the pattern and in the text. With a star behind it, also the pattern behind
that star, and the text that is left from `match_idx` on. -/
structure Cursor where
  pattern : List UInt8
  text : List UInt8
  star : Option (List UInt8)
  mark : List UInt8
  ahead : text.length ≤ mark.length

namespace Cursor

def backtrack (cursor : Cursor) : Cursor ⊕ Bool :=
  match cursor.star with
  | some behind => .inl ⟨behind, cursor.mark.tail, some behind, cursor.mark.tail, Nat.le_refl _⟩
  | none => .inr false

/-- One turn of the loop, or the answer behind it. -/
def turn (cursor : Cursor) : Cursor ⊕ Bool :=
  match cursor with
  | ⟨pattern, [], _, _, _⟩ => .inr (pattern.dropWhile (· == starByte)).isEmpty
  | ⟨symbol :: behind, byte :: rest, star, mark, ahead⟩ =>
      if symbol = questionByte ∨ symbol = byte then
        .inl ⟨behind, rest, star, mark, Nat.le_of_succ_le ahead⟩
      else if symbol = starByte then
        .inl ⟨behind, byte :: rest, some behind, byte :: rest, Nat.le_refl _⟩
      else cursor.backtrack
  | ⟨[], _ :: _, _, _, _⟩ => cursor.backtrack

/-- The places that a star can still be tried at. Before the first star there is one more. -/
def room (cursor : Cursor) : Nat :=
  cursor.mark.length + if cursor.star.isNone then 1 else 0

theorem backtrack_room {cursor next : Cursor} (left : cursor.text ≠ [])
    (turned : cursor.backtrack = .inl next) : next.room < cursor.room := by
  obtain ⟨pattern, text, star, mark, ahead⟩ := cursor
  have pos := List.length_pos_iff.mpr left
  rw [backtrack] at turned
  cases star with
  | none => cases turned
  | some behind =>
      cases turned
      simp only [room, List.length_tail, Option.isNone_some, Bool.false_eq_true, if_false]
      simp only at pos
      omega

theorem turn_decreases {cursor next : Cursor} (turned : cursor.turn = .inl next) :
    next.room < cursor.room ∨
      next.room ≤ cursor.room ∧ next.pattern.length < cursor.pattern.length := by
  obtain ⟨pattern, text, star, mark, ahead⟩ := cursor
  cases text with
  | nil => cases turned
  | cons byte rest =>
      cases pattern with
      | nil => exact .inl (backtrack_room (List.cons_ne_nil _ _) turned)
      | cons symbol behind =>
          simp only [turn] at turned
          split at turned
          · cases turned
            exact .inr ⟨Nat.le_refl _, Nat.lt_succ_self _⟩
          · split at turned
            · cases turned
              refine .inr ⟨?_, Nat.lt_succ_self _⟩
              simp only [room, Option.isNone_some, Bool.false_eq_true, if_false]
              omega
            · exact .inl (backtrack_room (List.cons_ne_nil _ _) turned)

end Cursor

def globLoop (cursor : Cursor) : Bool :=
  match _turned : cursor.turn with
  | .inl next => globLoop next
  | .inr answer => answer
termination_by (cursor.room, cursor.pattern.length)
decreasing_by
  rcases Cursor.turn_decreases _turned with less | ⟨same, less⟩
  · exact Prod.Lex.left _ _ less
  · rcases Nat.lt_or_eq_of_le same with lower | equal
    · exact Prod.Lex.left _ _ lower
    · rw [equal]
      exact Prod.Lex.right _ less

theorem globLoop_next {cursor next : Cursor} (turned : cursor.turn = .inl next) :
    globLoop cursor = globLoop next := by
  rw [globLoop]
  split
  · next other same =>
      rw [turned] at same
      cases same
      rfl
  · next answer same =>
      rw [turned] at same
      cases same

theorem globLoop_answer {cursor : Cursor} {answer : Bool} (turned : cursor.turn = .inr answer) :
    globLoop cursor = answer := by
  rw [globLoop]
  split
  · next next same =>
      rw [turned] at same
      cases same
  · next other same =>
      rw [turned] at same
      cases same
      rfl

def startOf (pattern text : List Char) : Cursor :=
  ⟨utf8 pattern, utf8 text, none, utf8 text, Nat.le_refl _⟩

def globMatch (pattern text : List Char) : Bool := globLoop (startOf pattern text)

structure GitIgnoreRule where
  pattern : List Char
  anchored : Bool
  dirOnly : Bool
  negated : Bool
  deriving DecidableEq, Repr

namespace GitIgnoreRule

/-- What stands behind a leading part, and whether it is there. -/
private def without (part : Option (List Char)) (line : List Char) : Bool × List Char :=
  match part with
  | some rest => (true, rest)
  | none => (false, line)

def parse (line : List Char) : Option GitIgnoreRule :=
  let trimmed := trimList line
  if trimmed.isEmpty ∨ ['#'].isPrefixOf trimmed then none
  else
    let negation := without (stripLeading ['!'] trimmed) trimmed
    let directory := without (stripTrailing ['/'] negation.2) negation.2
    let anchor := without (stripLeading ['/'] directory.2) directory.2
    some ⟨anchor.2, anchor.1, directory.1, negation.1⟩

/-- `Path::file_name`: the last component, where it is a name. -/
def fileName (path : List Char) : List Char :=
  match (components path).getLast? with
  | some (.normal part) => part.toList
  | _ => []

def matchesPath (rule : GitIgnoreRule) (relPath : List Char) (isDir : Bool) : Bool :=
  if rule.dirOnly && !isDir then false
  else if rule.anchored then globMatch rule.pattern relPath
  else globMatch rule.pattern (fileName relPath) || globMatch rule.pattern relPath

end GitIgnoreRule

/-! ## What the wildcards stand for -/

def symbolOf (character : Char) : Symbol Char :=
  if character = '*' then .many else if character = '?' then .one else .literal character

/-- The text is the pattern with each star replaced by some text, and each question mark by one
character. -/
def Spells (pattern text : List Char) : Prop := Matches IsSingle (pattern.map symbolOf) text

end Kvist.Discovery
