import Mathlib.Data.List.Infix
import Mathlib.Data.List.TakeWhile

/-!
# Wildcard patterns

A pattern is a list of symbols. A symbol stands for one value of the text, for one piece of it, or
for any part of it, also an empty one. What a piece is, is a parameter: a single value, or several
values that belong together.
-/

set_option autoImplicit false

namespace Kvist.Wildcards

variable {Value : Type}

inductive Symbol (Value : Type) where
  | literal (value : Value)
  | one
  | many
  deriving DecidableEq

/-- The text is the pattern with each symbol replaced by a part that it stands for. -/
inductive Matches (Piece : List Value → Prop) : List (Symbol Value) → List Value → Prop where
  | nil : Matches Piece [] []
  | literal {value : Value} {pattern : List (Symbol Value)} {text : List Value} :
      Matches Piece pattern text → Matches Piece (.literal value :: pattern) (value :: text)
  | one {piece : List Value} {pattern : List (Symbol Value)} {text : List Value} :
      Piece piece → Matches Piece pattern text → Matches Piece (.one :: pattern) (piece ++ text)
  | many (part : List Value) {pattern : List (Symbol Value)} {text : List Value} :
      Matches Piece pattern text → Matches Piece (.many :: pattern) (part ++ text)

def IsSingle (piece : List Value) : Prop := ∃ value, piece = [value]

variable {Piece : List Value → Prop}

@[simp] theorem matches_nil_iff {text : List Value} : Matches Piece [] text ↔ text = [] := by
  constructor
  · rintro ⟨⟩
    rfl
  · rintro rfl
    exact .nil

theorem matches_literal_iff {value : Value} {pattern : List (Symbol Value)} {text : List Value} :
    Matches Piece (.literal value :: pattern) text ↔
      ∃ rest, text = value :: rest ∧ Matches Piece pattern rest := by
  constructor
  · rintro ⟨⟩
    exact ⟨_, rfl, by assumption⟩
  · rintro ⟨rest, rfl, matched⟩
    exact .literal matched

theorem matches_literals_iff {values : List Value} {pattern : List (Symbol Value)}
    {text : List Value} :
    Matches Piece (values.map .literal ++ pattern) text ↔
      ∃ rest, text = values ++ rest ∧ Matches Piece pattern rest := by
  induction values generalizing text with
  | nil => simp
  | cons value values ih =>
      rw [List.map_cons, List.cons_append, matches_literal_iff]
      constructor
      · rintro ⟨behind, rfl, matched⟩
        obtain ⟨rest, rfl, remaining⟩ := ih.mp matched
        exact ⟨rest, rfl, remaining⟩
      · rintro ⟨rest, rfl, matched⟩
        exact ⟨values ++ rest, rfl, ih.mpr ⟨rest, rfl, matched⟩⟩

theorem matches_one_iff {pattern : List (Symbol Value)} {text : List Value} :
    Matches Piece (.one :: pattern) text ↔
      ∃ piece rest, text = piece ++ rest ∧ Piece piece ∧ Matches Piece pattern rest := by
  constructor
  · rintro ⟨⟩
    exact ⟨_, _, rfl, by assumption, by assumption⟩
  · rintro ⟨piece, rest, rfl, isPiece, matched⟩
    exact .one isPiece matched

theorem matches_many_iff {pattern : List (Symbol Value)} {text : List Value} :
    Matches Piece (.many :: pattern) text ↔ ∃ rest, rest <:+ text ∧ Matches Piece pattern rest := by
  constructor
  · rintro ⟨⟩
    exact ⟨_, List.suffix_append _ _, by assumption⟩
  · rintro ⟨rest, ⟨part, rfl⟩, matched⟩
    exact .many part matched

theorem matches_many_cons {value : Value} {pattern : List (Symbol Value)} {text : List Value} :
    Matches Piece (.many :: pattern) (value :: text) ↔
      Matches Piece pattern (value :: text) ∨ Matches Piece (.many :: pattern) text := by
  simp only [matches_many_iff, List.suffix_cons_iff]
  constructor
  · rintro ⟨rest, rfl | behind, matched⟩
    · exact .inl matched
    · exact .inr ⟨rest, behind, matched⟩
  · rintro (matched | ⟨rest, behind, matched⟩)
    · exact ⟨_, .inl rfl, matched⟩
    · exact ⟨rest, .inr behind, matched⟩

/-- A longer text in front is no harm to a pattern that begins with any part. -/
theorem Matches.extend {pattern : List (Symbol Value)} {text rest : List Value}
    (matched : Matches Piece (.many :: pattern) rest) (behind : rest <:+ text) :
    Matches Piece (.many :: pattern) text := by
  obtain ⟨inner, innermost, matched⟩ := matches_many_iff.mp matched
  exact matches_many_iff.mpr ⟨inner, innermost.trans behind, matched⟩

theorem Matches.append {front back : List (Symbol Value)} {before behind : List Value}
    (frontMatched : Matches Piece front before) (backMatched : Matches Piece back behind) :
    Matches Piece (front ++ back) (before ++ behind) := by
  induction frontMatched with
  | nil => exact backMatched
  | literal _ ih => exact .literal ih
  | one isPiece _ ih =>
      rw [List.append_assoc]
      exact .one isPiece ih
  | many part _ ih =>
      rw [List.append_assoc]
      exact .many part ih

theorem Matches.split {front back : List (Symbol Value)} {text : List Value}
    (matched : Matches Piece (front ++ back) text) :
    ∃ before behind, text = before ++ behind ∧ Matches Piece front before ∧
      Matches Piece back behind := by
  induction front generalizing text with
  | nil => exact ⟨[], text, rfl, .nil, matched⟩
  | cons symbol front ih =>
      rw [List.cons_append] at matched
      cases symbol with
      | literal value =>
          obtain ⟨rest, rfl, remaining⟩ := matches_literal_iff.mp matched
          obtain ⟨before, behind, rfl, frontMatched, backMatched⟩ := ih remaining
          exact ⟨value :: before, behind, rfl, .literal frontMatched, backMatched⟩
      | one =>
          obtain ⟨piece, rest, rfl, isPiece, matched⟩ := matches_one_iff.mp matched
          obtain ⟨before, behind, rfl, frontMatched, backMatched⟩ := ih matched
          exact ⟨piece ++ before, behind, (List.append_assoc ..).symm, .one isPiece frontMatched,
            backMatched⟩
      | many =>
          obtain ⟨rest, ⟨part, rfl⟩, remaining⟩ := matches_many_iff.mp matched
          obtain ⟨before, behind, rfl, frontMatched, backMatched⟩ := ih remaining
          exact ⟨part ++ before, behind, (List.append_assoc ..).symm, .many part frontMatched,
            backMatched⟩

/-! ## Lengths -/

/-- Each symbol but those for any part takes at least one value. -/
theorem Matches.length_le (nonempty : ∀ piece, Piece piece → piece ≠ [])
    {pattern : List (Symbol Value)} {text : List Value} (matched : Matches Piece pattern text)
    (narrow : .many ∉ pattern) : pattern.length ≤ text.length := by
  induction matched with
  | nil => exact Nat.le_refl 0
  | literal _ ih =>
      have shorter := ih fun member => narrow (List.mem_cons_of_mem _ member)
      simpa using shorter
  | @one piece _ _ isPiece _ ih =>
      have shorter := ih fun member => narrow (List.mem_cons_of_mem _ member)
      have some := List.length_pos_iff.mpr (nonempty piece isPiece)
      simp only [List.length_cons, List.length_append]
      omega
  | many _ _ _ => exact absurd List.mem_cons_self narrow

theorem matches_empty_iff (nonempty : ∀ piece, Piece piece → piece ≠ [])
    {pattern : List (Symbol Value)} :
    Matches Piece pattern [] ↔ ∀ symbol ∈ pattern, symbol = .many := by
  induction pattern with
  | nil => simp
  | cons symbol pattern ih =>
      cases symbol with
      | literal value => simp [matches_literal_iff]
      | one =>
          simp only [matches_one_iff, List.nil_eq_append_iff, List.mem_cons, forall_eq_or_imp,
            reduceCtorEq, false_and, iff_false]
          rintro ⟨piece, rest, ⟨rfl, -⟩, isPiece, -⟩
          exact nonempty [] isPiece rfl
      | many => simp [matches_many_iff, ih]

/-- The exchange: where the symbols `front` were read off the text once, a match of them further on
leaves no more of the text to what follows than is left here. -/
theorem Matches.exchange (nonempty : ∀ piece, Piece piece → piece ≠ [])
    {front pattern : List (Symbol Value)} {before text later : List Value}
    (narrow : .many ∉ front) (read : front.length = before.length)
    (behind : later <:+ before ++ text)
    (matched : Matches Piece (front ++ .many :: pattern) later) :
    Matches Piece (.many :: pattern) text := by
  obtain ⟨taken, rest, rfl, frontMatched, matched⟩ := matched.split
  have long := frontMatched.length_le nonempty narrow
  have within : rest <:+ before ++ text := (List.suffix_append taken rest).trans behind
  have short : rest.length ≤ text.length := by
    have total := behind.length_le
    simp only [List.length_append] at total
    omega
  exact matched.extend (List.suffix_of_suffix_length_le within (List.suffix_append _ _) short)

end Kvist.Wildcards
