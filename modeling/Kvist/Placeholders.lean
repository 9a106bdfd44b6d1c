import Mathlib.Logic.Function.Basic
import Kvist.Occurrences

/-!
# Placeholders

A template is read once, into symbols and placeholders. Each placeholder has a value. A placeholder
begins with a symbol that stands nowhere else in it, and none is the beginning of another one.
Replacing one placeholder after the other gives the same text, as long as no value brings in a
placeholder that is replaced later.
-/

set_option autoImplicit false

namespace Kvist.Placeholders

open Occurrences

variable {Symbol Name : Type}

/-- The texts of the placeholders. -/
structure Bracketed (names : List Name) (text : Name → List Symbol) (opening : Symbol) : Prop where
  complete : ∀ name, name ∈ names
  opens : ∀ name, ∃ rest, text name = opening :: rest ∧ opening ∉ rest
  apart : ∀ first second, text first <+: text second → first = second

inductive Piece (Symbol Name : Type) where
  | literal (symbol : Symbol)
  | placeholder (name : Name)

def Piece.render (value : Name → List Symbol) : Piece Symbol Name → List Symbol
  | .literal symbol => [symbol]
  | .placeholder name => value name

section Reading

variable [DecidableEq Symbol]

/-- The pieces of a template, where some symbols are skipped first. -/
def pieces (names : List Name) (text : Name → List Symbol) :
    Nat → List Symbol → List (Piece Symbol Name)
  | _, [] => []
  | skip + 1, _ :: rest => pieces names text skip rest
  | 0, symbol :: rest =>
      match names.find? fun name => (text name).isPrefixOf (symbol :: rest) with
      | some name => .placeholder name :: pieces names text ((text name).length - 1) rest
      | none => .literal symbol :: pieces names text 0 rest

def fill (names : List Name) (text : Name → List Symbol) (value : Name → List Symbol)
    (template : List Symbol) : List Symbol :=
  (pieces names text 0 template).flatMap (Piece.render value)

end Reading

def Piece.isPlaceholder [DecidableEq Name] (name : Name) : Piece Symbol Name → Bool
  | .literal _ => false
  | .placeholder other => other == name

/-- How often a placeholder stands among the pieces. -/
def placeholders [DecidableEq Name] (name : Name) (parts : List (Piece Symbol Name)) : Nat :=
  parts.countP (Piece.isPlaceholder name)

variable {names : List Name} {text value : Name → List Symbol} {opening : Symbol}

namespace Bracketed

variable (bracketed : Bracketed names text opening)
include bracketed

theorem nonempty (name : Name) : text name ≠ [] := by
  obtain ⟨rest, begins, -⟩ := bracketed.opens name
  rw [begins]
  exact List.cons_ne_nil _ _

section Reading

variable [DecidableEq Symbol]

theorem not_standing {name : Name} {symbol : Symbol} {rest : List Symbol}
    (other : symbol ≠ opening) : (text name).isPrefixOf (symbol :: rest) = false := by
  obtain ⟨inner, begins, -⟩ := bracketed.opens name
  rw [begins, List.isPrefixOf_cons_cons, beq_false_of_ne (Ne.symm other), Bool.false_and]

theorem pieces_self (skip : Nat) (template : List Symbol) :
    (pieces names text skip template).flatMap (Piece.render text) = template.drop skip := by
  induction template generalizing skip with
  | nil => cases skip <;> rfl
  | cons symbol rest ih =>
      cases skip with
      | succ skip =>
          rw [pieces, List.drop_succ_cons]
          exact ih skip
      | zero =>
          rw [pieces, List.drop_zero]
          cases found : names.find? fun name => (text name).isPrefixOf (symbol :: rest) with
          | none =>
            rw [List.flatMap_cons, Piece.render, ih, List.drop_zero]
            rfl
          | some name =>
            have stands := List.find?_some found
            rw [List.isPrefixOf_iff_prefix] at stands
            obtain ⟨behind, whole⟩ := stands
            obtain ⟨inner, begins, -⟩ := bracketed.opens name
            rw [begins, List.cons_append, List.cons.injEq] at whole
            rw [List.flatMap_cons, Piece.render, ih, begins, ← whole.1, ← whole.2,
              List.length_cons, Nat.add_sub_cancel, List.drop_left, List.cons_append]

theorem fill_self (template : List Symbol) : fill names text text template = template :=
  bracketed.pieces_self 0 template

/-- A placeholder stands in a template as often as it is read from it. -/
theorem countOf_pieces [DecidableEq Name] (name : Name) {skip : Nat} {template : List Symbol}
    (closed : opening ∉ template.take skip) :
    countOf (text name) template = placeholders name (pieces names text skip template) := by
  induction template generalizing skip with
  | nil => cases skip <;> exact countOf_nil (bracketed.nonempty name)
  | cons symbol rest ih =>
      rw [countOf_cons]
      cases skip with
      | succ skip =>
          rw [List.take_succ_cons, List.mem_cons, not_or] at closed
          rw [bracketed.not_standing (Ne.symm closed.1), if_neg Bool.false_ne_true, Nat.zero_add,
            pieces]
          exact ih closed.2
      | zero =>
          rw [pieces]
          cases found : names.find? fun name => (text name).isPrefixOf (symbol :: rest) with
          | none =>
            have absent := List.find?_eq_none.mp found name (bracketed.complete name)
            rw [if_neg absent, Nat.zero_add, @ih 0 List.not_mem_nil, placeholders, placeholders,
              List.countP_cons_of_neg Bool.false_ne_true]
          | some other =>
            have stands := List.find?_some found
            obtain ⟨inner, begins, closed⟩ := bracketed.opens other
            have inside : opening ∉ rest.take ((text other).length - 1) := by
              rw [List.isPrefixOf_iff_prefix] at stands
              obtain ⟨behind, whole⟩ := stands
              rw [begins, List.cons_append, List.cons.injEq] at whole
              rw [begins, ← whole.2, List.length_cons, Nat.add_sub_cancel, List.take_left]
              exact closed
            rw [ih inside, placeholders, placeholders, List.countP_cons, Nat.add_comm]
            have same : (text name).isPrefixOf (symbol :: rest) = (other == name) := by
              rw [Bool.eq_iff_iff, beq_iff_eq]
              constructor
              · intro also
                rw [List.isPrefixOf_iff_prefix] at also stands
                rcases List.prefix_or_prefix_of_prefix stands also with less | less
                · exact bracketed.apart _ _ less
                · exact (bracketed.apart _ _ less).symm
              · rintro rfl
                exact stands
            rw [same]
            rfl

theorem countOf_here (name : Name) (back : List Symbol) :
    countOf (text name) (text name ++ back) = 1 + countOf (text name) back := by
  have stands : (text name).isPrefixOf (text name ++ back) = true :=
    List.isPrefixOf_iff_prefix.mpr (List.prefix_append _ back)
  have inside : ∀ front, opening ∉ front →
      countOf (text name) (front ++ back) = countOf (text name) back := by
    intro front closed
    induction front with
    | nil => rfl
    | cons symbol front ih =>
        rw [List.mem_cons, not_or] at closed
        rw [List.cons_append, countOf_cons, bracketed.not_standing (Ne.symm closed.1),
          if_neg Bool.false_ne_true, Nat.zero_add, ih closed.2]
  obtain ⟨inner, begins, closed⟩ := bracketed.opens name
  have whole : text name ++ back = opening :: (inner ++ back) := by
    rw [begins, List.cons_append]
  rw [whole] at stands ⊢
  rw [countOf_cons, if_pos stands, inside inner closed]

/-! ## One placeholder after the other -/

/-- Each placeholder that is not filled yet stands in the text, and its value takes its place if it
stands nowhere else. -/
theorem replace_parts [DecidableEq Name] {name : Name} {replacement : List Symbol}
    (kept : value name = text name) {parts : List (Piece Symbol Name)} :
    placeholders name parts ≤ countOf (text name) (parts.flatMap (Piece.render value)) ∧
      (countOf (text name) (parts.flatMap (Piece.render value)) = placeholders name parts →
        replace (text name) replacement (parts.flatMap (Piece.render value)) =
          parts.flatMap (Piece.render (Function.update value name replacement))) := by
  induction parts with
  | nil => exact ⟨Nat.zero_le _, fun _ => rfl⟩
  | cons part parts ih =>
      obtain ⟨enough, replaced⟩ := ih
      have behind := countOf_append_le (text name) (part.render value)
        (parts.flatMap (Piece.render value))
      rw [List.flatMap_cons, List.flatMap_cons]
      by_cases here : part = .placeholder name
      · have count : placeholders name (part :: parts) = placeholders name parts + 1 := by
          have counted : Piece.isPlaceholder name part = true := by
            rw [here]
            exact beq_self_eq_true name
          rw [placeholders, List.countP_cons_of_pos counted]
          rfl
        rw [count, here, Piece.render, Piece.render, kept, Function.update_self,
          bracketed.countOf_here]
        refine ⟨by omega, fun exactly => ?_⟩
        rw [replace_here (bracketed.nonempty name), replaced (by omega)]
      · have other : ∀ found, part = .placeholder found → found ≠ name := by
          rintro found rfl same
          exact here (congrArg Piece.placeholder same)
        have count : placeholders name (part :: parts) = placeholders name parts := by
          rw [placeholders, List.countP_cons_of_neg]
          · rfl
          · cases part with
            | literal symbol => exact Bool.false_ne_true
            | placeholder found =>
              rw [Piece.isPlaceholder, beq_iff_eq]
              exact other found rfl
        have same : part.render (Function.update value name replacement) = part.render value := by
          cases part with
          | literal symbol => rfl
          | placeholder found => exact Function.update_of_ne (other found rfl) _ _
        rw [count, same]
        refine ⟨by omega, fun exactly => ?_⟩
        rw [replace_append (by omega), replaced (by omega)]

/-- A placeholder that no value brings in can be replaced afterwards. -/
theorem replace_fill [DecidableEq Name] {name : Name} {template : List Symbol}
    (kept : value name = text name)
    (undisturbed : countOf (text name) (fill names text value template) =
      countOf (text name) template) (replacement : List Symbol) :
    replace (text name) replacement (fill names text value template) =
      fill names text (Function.update value name replacement) template := by
  have closed : opening ∉ template.take 0 := List.not_mem_nil
  have read := bracketed.countOf_pieces name closed
  exact (bracketed.replace_parts kept).2 (undisturbed.trans read)

/-- Replacing a placeholder leaves every other one in its place. -/
theorem countOf_replace [DecidableEq Name] {name other : Name} (different : other ≠ name)
    (replacement template : List Symbol) :
    countOf (text other) template ≤
      countOf (text other) (replace (text name) replacement template) := by
  have closed : opening ∉ template.take 0 := List.not_mem_nil
  have whole := bracketed.fill_self template
  have replaced := bracketed.replace_fill (rfl : text name = text name)
    (congrArg (countOf (text name)) whole) replacement
  rw [whole] at replaced
  have kept : Function.update text name replacement other = text other :=
    Function.update_of_ne different _ _
  rw [replaced, bracketed.countOf_pieces other closed]
  exact (@replace_parts _ _ _ _ _ _ bracketed _ _ other [] kept _).1

/-- Only the values of the placeholders that stand in the template matter. -/
theorem fill_congr [DecidableEq Name] {other : Name → List Symbol} {template : List Symbol}
    (same : ∀ name, countOf (text name) template ≠ 0 → value name = other name) :
    fill names text value template = fill names text other template := by
  refine List.flatMap_congr fun part member => ?_
  cases part with
  | literal symbol => rfl
  | placeholder name =>
      have closed : opening ∉ template.take 0 := List.not_mem_nil
      refine same name ?_
      rw [bracketed.countOf_pieces name closed, placeholders, Ne,
        List.countP_eq_zero]
      intro absent
      exact absent _ member (beq_self_eq_true name)

end Reading

end Bracketed

end Kvist.Placeholders
