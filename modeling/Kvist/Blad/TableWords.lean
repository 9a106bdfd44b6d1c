import Kvist.Blad.Display
import Kvist.Blad.Table

/-!
# The words of table cells

Wrapping keeps the words of a cell in their order and puts one space between two of them on a line.
-/

set_option autoImplicit false

namespace Kvist.Blad.Tables

/-! ## Cutting words -/

section Cuts

variable {Item : Type} {white : Item → Bool}

/-- A word behind white space, and what follows it. -/
structure Cut (white : Item → Bool) (blank word rest : List Item) : Prop where
  blank : ∀ item ∈ blank, white item = true
  nonempty : word ≠ []
  word : ∀ item ∈ word, white item = false
  rest : ∀ item ∈ rest.head?, white item = true

theorem exists_cut (white : Item → Bool) (items : List Item) :
    (∀ item ∈ items, white item = true) ∨
      ∃ blank word rest, items = blank ++ (word ++ rest) ∧ Cut white blank word rest := by
  induction items with
  | nil => exact .inl nofun
  | cons item others ih =>
      cases here : white item with
      | true =>
          rcases ih with every | ⟨blank, word, rest, rfl, cut⟩
          · exact .inl (List.forall_mem_cons.mpr ⟨here, every⟩)
          · refine .inr ⟨item :: blank, word, rest, rfl, ?_, cut.nonempty, cut.word, cut.rest⟩
            exact List.forall_mem_cons.mpr ⟨here, cut.blank⟩
      | false =>
          have single : ∀ other ∈ [item], white other = false := by simpa using here
          rcases ih with every | ⟨blank, word, rest, rfl, cut⟩
          · refine .inr ⟨[], [item], others, rfl, nofun, List.cons_ne_nil _ _, single, ?_⟩
            exact fun other found => every other (List.mem_of_mem_head? found)
          · cases blank with
            | nil =>
                refine .inr ⟨[], item :: word, rest, rfl, nofun, List.cons_ne_nil _ _, ?_, cut.rest⟩
                exact List.forall_mem_cons.mpr ⟨here, cut.word⟩
            | cons space blank =>
                refine .inr ⟨[], [item], _, rfl, nofun, List.cons_ne_nil _ _, single, ?_⟩
                rintro other ⟨⟩
                exact cut.blank space List.mem_cons_self

/-- Words are cut off one after the other until only white space is left. -/
theorem cut_induction {motive : List Item → Prop}
    (blanks : ∀ items, (∀ item ∈ items, white item = true) → motive items)
    (cut : ∀ blank word rest, Cut white blank word rest → motive rest →
      motive (blank ++ (word ++ rest))) (items : List Item) : motive items := by
  generalize size : items.length = count
  induction count using Nat.strong_induction_on generalizing items with
  | h count ih =>
      rcases exists_cut white items with every | ⟨blank, word, rest, rfl, apart⟩
      · exact blanks items every
      · refine cut blank word rest apart (ih rest.length ?_ rest rfl)
        have some := List.length_pos_of_ne_nil apart.nonempty
        simp only [List.length_append] at size
        omega

end Cuts

/-- A text without white space that is not empty. -/
structure IsWord (text : List Char) : Prop where
  nonempty : text ≠ []
  solid : ∀ character ∈ text, Text.isWhitespace character = false

theorem splitWhitespace_append (front : List Char) {space : Char}
    (white : Text.isWhitespace space = true) (back : List Char) :
    splitWhitespace (front ++ space :: back) = splitWhitespace front ++ splitWhitespace back := by
  rw [splitWhitespace, List.splitOnP_append_cons _ _ white, List.filter_append]
  rfl

theorem splitWhitespace_word {word : List Char} (isWord : IsWord word) :
    splitWhitespace word = [word] := by
  rw [splitWhitespace, List.splitOnP_eq_singleton isWord.solid]
  exact List.filter_cons_of_pos (by simpa using isWord.nonempty)

theorem splitWhitespace_blank {blank : List Char}
    (white : ∀ character ∈ blank, Text.isWhitespace character = true) (text : List Char) :
    splitWhitespace (blank ++ text) = splitWhitespace text := by
  induction blank with
  | nil => rfl
  | cons space rest ih =>
      rw [List.forall_mem_cons] at white
      exact (splitWhitespace_append [] white.1 _).trans (ih white.2)

theorem splitWhitespace_cut {blank word rest : List Char}
    (cut : Cut Text.isWhitespace blank word rest) :
    splitWhitespace (blank ++ (word ++ rest)) = word :: splitWhitespace rest := by
  rw [splitWhitespace_blank cut.blank]
  cases rest with
  | nil =>
      rw [List.append_nil, splitWhitespace_word ⟨cut.nonempty, cut.word⟩]
      rfl
  | cons space rest =>
      have white := cut.rest space rfl
      rw [splitWhitespace_append word white, splitWhitespace_word ⟨cut.nonempty, cut.word⟩]
      exact congrArg (word :: ·) (splitWhitespace_append [] white rest).symm

theorem splitWhitespace_white {blank : List Char}
    (white : ∀ character ∈ blank, Text.isWhitespace character = true) :
    splitWhitespace blank = [] := by
  rw [← List.append_nil blank, splitWhitespace_blank white]
  rfl

theorem isWord_of_mem {text word : List Char} (member : word ∈ splitWhitespace text) :
    IsWord word := by
  induction text using @cut_induction _ Text.isWhitespace with
  | blanks text white =>
      rw [splitWhitespace_white white] at member
      exact absurd member List.not_mem_nil
  | cut blank front rest cut ih =>
      rw [splitWhitespace_cut cut] at member
      rcases List.mem_cons.mp member with rfl | later
      · exact ⟨cut.nonempty, cut.word⟩
      · exact ih later

/-- The lines of a text have its words. -/
theorem flatMap_splitOn (text : List Char) :
    (text.splitOn '\n').flatMap splitWhitespace = splitWhitespace text := by
  have joined : ['\n'].intercalate (text.splitOn '\n') = text := List.intercalate_splitOn '\n'
  have some := List.splitOn_ne_nil '\n' text
  generalize text.splitOn '\n' = lines at joined some ⊢
  subst joined
  induction lines with
  | nil => exact absurd rfl some
  | cons line rest ih =>
      cases rest with
      | nil => simp
      | cons other others =>
          rw [List.flatMap_cons, ih (List.cons_ne_nil _ _), List.intercalate_cons_cons,
            List.append_assoc, List.singleton_append, splitWhitespace_append _ (by decide)]

/-- The words of a line with a space between two of them. -/
theorem splitWhitespace_joined {words : List (List Char)} (each : ∀ word ∈ words, IsWord word) :
    splitWhitespace ([' '].intercalate words) = words := by
  induction words with
  | nil => rfl
  | cons word rest ih =>
      rw [List.forall_mem_cons] at each
      cases rest with
      | nil =>
          rw [List.intercalate_singleton]
          exact splitWhitespace_word each.1
      | cons other others =>
          rw [List.intercalate_cons_cons, List.append_assoc, List.singleton_append,
            splitWhitespace_append _ (by decide), ih each.2, splitWhitespace_word each.1]
          rfl

/-! ## Inert text -/

/-- The only control characters are line feeds and tabs. -/
def Inert (text : List Char) : Prop :=
  ∀ character ∈ text, isControl character = true → character = '\n' ∨ character = '\t'

theorem pieces_unstyled {text : List Char} (plain : '\x1b' ∉ text) :
    pieces text = text.map .character := by
  induction text with
  | nil => rfl
  | cons character rest ih =>
      rw [List.mem_cons, not_or] at plain
      rw [pieces_plain (Ne.symm plain.1), ih plain.2, List.map_cons]

variable {rules : TextRules}

theorem splitWhitespace_foldl {line : List Char}
    (inert : ∀ character ∈ line, isControl character = true → character = '\t')
    (reader : LineReader) :
    splitWhitespace ((line.map Piece.character).foldl (readPiece rules) reader).text =
      splitWhitespace (reader.text ++ line) := by
  induction line generalizing reader with
  | nil =>
      rw [List.append_nil]
      rfl
  | cons character rest ih =>
      rw [List.forall_mem_cons] at inert
      rw [List.map_cons, List.foldl_cons, ih inert.2, readPiece]
      split
      · rename_i tab
        subst tab
        have some : List.replicate (tabSpaces (reader.column +
            rules.width (reader.text.drop reader.measuredUntil))) ' ' ≠ [] := by
          rw [Ne, List.replicate_eq_nil_iff, tabSpaces]
          omega
        have white : ∀ space ∈ List.replicate (tabSpaces (reader.column +
            rules.width (reader.text.drop reader.measuredUntil))) ' ',
            Text.isWhitespace space = true := by
          intro space member
          rw [List.eq_of_mem_replicate member]
          decide
        obtain ⟨first, others, same⟩ := List.exists_cons_of_ne_nil some
        dsimp only
        rw [same] at white ⊢
        rw [List.forall_mem_cons] at white
        rw [List.append_assoc, List.cons_append, splitWhitespace_append _ white.1,
          splitWhitespace_blank white.2, splitWhitespace_append _ (by decide)]
      · rename_i shown
        rw [if_neg fun control => shown (inert.1 control), List.append_assoc]
        rfl

/-- A line is shown with its words. -/
theorem splitWhitespace_new {line : List Char}
    (inert : ∀ character ∈ line, isControl character = true → character = '\t') :
    splitWhitespace (TerminalLine.new rules line).text = splitWhitespace line := by
  have plain : '\x1b' ∉ line := fun member => absurd (inert _ member (by decide)) (by decide)
  rw [TerminalLine.new, pieces_unstyled plain]
  exact splitWhitespace_foldl inert _

theorem text_new {text : List Char} (inert : ∀ character ∈ text, isControl character = false) :
    (TerminalLine.new rules text).text = text := by
  have plain : '\x1b' ∉ text := fun member => absurd (inert _ member) (by decide)
  rw [TerminalLine.new, pieces_unstyled plain]
  have every : ∀ reader : LineReader,
      ((text.map Piece.character).foldl (readPiece rules) reader).text = reader.text ++ text := by
    clear plain
    induction text with
    | nil => exact fun reader => (List.append_nil _).symm
    | cons character rest ih =>
        intro reader
        rw [List.forall_mem_cons] at inert
        have other : character ≠ '\t' := by
          rintro rfl
          exact absurd inert.1 (by decide)
        rw [List.map_cons, List.foldl_cons, ih inert.2, readPiece, if_neg other, inert.1,
          if_neg Bool.false_ne_true, List.append_assoc]
        rfl
  exact every _

/-! ## The words of the wrapped lines -/

theorem flatten_fragmentsFrom (width : Nat) (fragment : List Word) (used : Nat)
    (words : List Word) :
    (fragmentsFrom width fragment used words).flatten = fragment ++ words := by
  induction words generalizing fragment used with
  | nil => simp [fragmentsFrom]
  | cons word rest ih =>
      rw [fragmentsFrom]
      split
      · rw [List.flatten_cons, ih]
        rfl
      · rw [ih, List.append_assoc]
        rfl

theorem flatten_fragments (cell : Cell) (width : Nat) :
    (cell.fragments width).flatten = cell.lines.flatten := by
  have each : ∀ words : List Word, (lineFragments width words).flatten = words := by
    intro words
    cases words with
    | nil => rfl
    | cons word rest => exact flatten_fragmentsFrom width [word] word.width rest
  rw [Cell.fragments]
  induction cell.lines with
  | nil => rfl
  | cons words rest ih => rw [List.flatMap_cons, List.flatten_append, ih, each, List.flatten_cons]

theorem words_new {text : List Char} (inert : Inert text) :
    (Cell.new rules text).lines.flatten.map (·.text) = splitWhitespace text := by
  have lines : (Cell.new rules text).lines = (text.splitOn '\n').map (lineWords rules) := rfl
  rw [lines, List.map_flatten, List.map_map, ← flatMap_splitOn text, List.flatMap_def]
  congr 1
  refine List.map_congr_left fun line member => ?_
  have inertLine : ∀ character ∈ line, isControl character = true → character = '\t' := by
    intro character inside control
    refine (inert character (Text.mem_of_mem_splitOn member inside) control).resolve_left ?_
    rintro rfl
    exact Text.not_mem_of_mem_splitOn member inside
  rw [Function.comp_apply, lineWords, List.map_map, splitWhitespace_new inertLine]
  exact List.map_id _

/-- Each wrapped line is some words of the text with a space between two of them, and all of them
are on one line. -/
theorem wrap_groups {text : List Char} (inert : Inert text) (width : Nat) :
    ∃ groups : List (List (List Char)), groups.flatten = splitWhitespace text ∧
      (Cell.new rules text).wrap width = groups.map [' '].intercalate := by
  refine ⟨((Cell.new rules text).fragments width).map (List.map (·.text)), ?_, ?_⟩
  · rw [← List.map_flatten, flatten_fragments, words_new inert]
  · rw [Cell.wrap, List.map_map]
    rfl

end Kvist.Blad.Tables
