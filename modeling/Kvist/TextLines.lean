import Kvist.Text

/-!
# Lines with their line feeds

A text is the sequence of its lines, each with its line feed. The last line can be without one.
-/

set_option autoImplicit false

namespace Kvist.Text

/-- Each line has a line feed at its end and nowhere else, or is the last one without. -/
inductive IsLines : List (List Char) → Prop
  | nil : IsLines []
  | last {line : List Char} (nonempty : line ≠ []) (unbroken : '\n' ∉ line) : IsLines [line]
  | ended {line : List Char} {rest : List (List Char)} (unbroken : '\n' ∉ line)
      (others : IsLines rest) : IsLines ((line ++ ['\n']) :: rest)

def Ended (line : List Char) : Prop := ∃ inner, '\n' ∉ inner ∧ line = inner ++ ['\n']

theorem splitInclusive_ended {line : List Char} (unbroken : '\n' ∉ line) (rest : List Char) :
    splitInclusive (line ++ '\n' :: rest) = (line ++ ['\n']) :: splitInclusive rest := by
  induction line with
  | nil => rw [List.nil_append, splitInclusive, if_pos rfl, List.nil_append]
  | cons character line ih =>
      rw [List.mem_cons, not_or] at unbroken
      rw [List.cons_append, splitInclusive, if_neg (Ne.symm unbroken.1), ih unbroken.2]
      rfl

theorem splitInclusive_last {line : List Char} (nonempty : line ≠ []) (unbroken : '\n' ∉ line) :
    splitInclusive line = [line] := by
  induction line with
  | nil => exact absurd rfl nonempty
  | cons character line ih =>
      rw [List.mem_cons, not_or] at unbroken
      rw [splitInclusive, if_neg (Ne.symm unbroken.1)]
      cases line with
      | nil => rfl
      | cons second line => rw [ih (List.cons_ne_nil _ _) unbroken.2]

theorem IsLines.splitInclusive_flatten {lines : List (List Char)} (whole : IsLines lines) :
    splitInclusive lines.flatten = lines := by
  induction whole with
  | nil => rfl
  | last nonempty unbroken =>
      rw [List.flatten_cons, List.flatten_nil, List.append_nil]
      exact splitInclusive_last nonempty unbroken
  | ended unbroken _ ih =>
      rw [List.flatten_cons, List.append_assoc, List.singleton_append,
        splitInclusive_ended unbroken, ih]

theorem flatten_splitInclusive (text : List Char) : (splitInclusive text).flatten = text := by
  induction text with
  | nil => rfl
  | cons character rest ih =>
      rw [splitInclusive]
      split
      · rw [List.flatten_cons, ih, List.singleton_append]
      · cases found : splitInclusive rest with
        | nil =>
            rw [found, List.flatten_nil] at ih
            rw [← ih]
            rfl
        | cons line lines =>
            rw [found, List.flatten_cons] at ih
            rw [List.flatten_cons, List.cons_append, ih]

theorem isLines_splitInclusive (text : List Char) : IsLines (splitInclusive text) := by
  induction text with
  | nil => exact .nil
  | cons character rest ih =>
      rw [splitInclusive]
      split
      · rename_i feed
        rw [feed]
        exact .ended List.not_mem_nil ih
      · rename_i other
        cases found : splitInclusive rest with
        | nil => exact .last (List.cons_ne_nil _ _) (by simpa using Ne.symm other)
        | cons line lines =>
            rw [found] at ih
            cases ih with
            | last nonempty unbroken =>
                refine .last (List.cons_ne_nil _ _) ?_
                rw [List.mem_cons, not_or]
                exact ⟨Ne.symm other, unbroken⟩
            | @ended inner _ unbroken others =>
                have longer : '\n' ∉ character :: inner := by
                  rw [List.mem_cons, not_or]
                  exact ⟨Ne.symm other, unbroken⟩
                exact .ended longer others

theorem IsLines.nonempty {lines : List (List Char)} (whole : IsLines lines) :
    ∀ line ∈ lines, line ≠ [] := by
  induction whole with
  | nil => exact fun _ member => (List.not_mem_nil member).elim
  | last nonempty _ => exact List.forall_mem_singleton.mpr nonempty
  | ended _ _ ih => exact List.forall_mem_cons.mpr ⟨by simp, ih⟩

/-- What follows a line begins behind its line feed. -/
theorem isLines_append_iff {lines later : List (List Char)} (nonempty : later ≠ []) :
    IsLines (lines ++ later) ↔ (∀ line ∈ lines, Ended line) ∧ IsLines later := by
  induction lines with
  | nil => simp
  | cons line lines ih =>
      rw [List.cons_append, List.forall_mem_cons]
      constructor
      · intro whole
        generalize same : lines ++ later = rest at whole
        cases whole with
        | last _ _ => exact absurd (List.append_eq_nil_iff.mp same).2 nonempty
        | ended unbroken others =>
            obtain ⟨ended, rest⟩ := ih.mp (same ▸ others)
            exact ⟨⟨⟨_, unbroken, rfl⟩, ended⟩, rest⟩
      · rintro ⟨⟨⟨inner, unbroken, rfl⟩, ended⟩, rest⟩
        exact .ended unbroken (ih.mpr ⟨ended, rest⟩)

theorem isLines_of_ended {lines : List (List Char)} (ended : ∀ line ∈ lines, Ended line) :
    IsLines lines := by
  induction lines with
  | nil => exact .nil
  | cons line lines ih =>
      obtain ⟨⟨inner, unbroken, rfl⟩, others⟩ := List.forall_mem_cons.mp ended
      exact .ended unbroken (ih others)

theorem IsLines.left {lines later : List (List Char)} (whole : IsLines (lines ++ later)) :
    IsLines lines := by
  cases later with
  | nil => rwa [List.append_nil] at whole
  | cons line later =>
      exact isLines_of_ended ((isLines_append_iff (List.cons_ne_nil _ _)).mp whole).1

theorem IsLines.right {lines later : List (List Char)} (whole : IsLines (lines ++ later)) :
    IsLines later := by
  cases later with
  | nil => exact .nil
  | cons line later => exact ((isLines_append_iff (List.cons_ne_nil _ _)).mp whole).2

theorem IsLines.single {lines : List (List Char)} (whole : IsLines lines) {line : List Char}
    (member : line ∈ lines) : IsLines [line] := by
  obtain ⟨front, back, rfl⟩ := List.append_of_mem member
  exact (show IsLines ([line] ++ back) from whole.right).left

/-- More can follow where nothing stands yet, or behind a line feed. -/
theorem IsLines.all_ended_iff {lines : List (List Char)} (whole : IsLines lines) :
    (∀ line ∈ lines, Ended line) ↔
      (lines.flatten.isEmpty || lines.flatten.getLast? == some '\n') = true := by
  induction whole with
  | nil => simp
  | @last line nonempty unbroken =>
      rw [List.flatten_cons, List.flatten_nil, List.append_nil, List.forall_mem_singleton,
        List.isEmpty_eq_false_iff.mpr nonempty, Bool.false_or, beq_iff_eq]
      constructor
      · rintro ⟨inner, _, rfl⟩
        exact absurd (List.mem_append_right inner List.mem_cons_self) unbroken
      · intro ends
        exact absurd (List.mem_of_getLast? ends) unbroken
  | @ended inner rest unbroken others ih =>
      have here : Ended (inner ++ ['\n']) := ⟨inner, unbroken, rfl⟩
      have notEmpty : (inner ++ ['\n'] ++ rest.flatten).isEmpty = false := by simp
      rw [List.forall_mem_cons, and_iff_right here, ih, List.flatten_cons, notEmpty,
        Bool.false_or, List.getLast?_append]
      cases found : rest.flatten with
      | nil => simp
      | cons character others =>
          rw [List.isEmpty_cons, Bool.false_or]
          cases last : (character :: others).getLast? with
          | none => cases List.getLast?_eq_none_iff.mp last
          | some final => simp

/-! ## Lines without their line feeds -/

theorem lines_nil : lines [] = [] := rfl

theorem stripLineEnding_last {line : List Char} (unbroken : '\n' ∉ line) :
    stripLineEnding line = line := by
  rw [stripLineEnding]
  split
  · next inner stripped =>
      obtain ⟨rest, reversed, _⟩ := Option.map_eq_some_iff.mp stripped
      have feed : line.reverse = '\n' :: rest := stripLeading_eq_some_iff.mp reversed
      exact absurd (List.mem_reverse.mp (feed ▸ List.mem_cons_self)) unbroken
  · rfl

/-- What stands behind the last line feed is kept as it is. -/
theorem lines_last {line : List Char} (nonempty : line ≠ []) (unbroken : '\n' ∉ line) :
    lines line = [line] := by
  rw [lines, splitInclusive_last nonempty unbroken, List.map_singleton,
    stripLineEnding_last unbroken]

/-- Whole lines are read back, and what stands behind the last line feed is a line if it is
anything. -/
theorem lines_flatMap_append {pieces : List (List Char)} {tail : List Char}
    (single : ∀ piece ∈ pieces, '\n' ∉ piece ∧ '\r' ∉ piece) (unbroken : '\n' ∉ tail) :
    lines (pieces.flatMap (· ++ ['\n']) ++ tail) = pieces ++ if tail = [] then [] else [tail] := by
  induction pieces with
  | nil =>
      rw [List.flatMap_nil, List.nil_append, List.nil_append]
      split_ifs with empty
      · rw [empty, lines_nil]
      · exact lines_last empty unbroken
  | cons piece rest ih =>
      obtain ⟨⟨whole, plain⟩, others⟩ := List.forall_mem_cons.mp single
      rw [List.flatMap_cons, List.append_assoc, List.append_assoc, List.singleton_append,
        lines_plain whole plain, ih others, List.cons_append]

/-! ## Lines without carriage returns -/

theorem newline_notMem_lines {text line : List Char} (member : line ∈ lines text) : '\n' ∉ line := by
  rw [lines] at member
  obtain ⟨piece, inside, rfl⟩ := List.mem_map.mp member
  cases (isLines_splitInclusive text).single inside with
  | last _ unbroken => rwa [stripLineEnding_last unbroken]
  | @ended inner _ unbroken _ =>
      rw [stripLineEnding_ended]
      exact fun feed => unbroken (( dropCarriageReturn_prefix inner).subset feed)

theorem dropCarriageReturn_of_last {line : List Char} (plain : line.getLast? ≠ some '\r') :
    dropCarriageReturn line = line := by
  rw [dropCarriageReturn]
  split
  · next rest reversed =>
      refine absurd ?_ plain
      rw [← List.head?_reverse, reversed, List.head?_cons]
  · rfl

/-- Lines are read back from their line feeds, each without a carriage return at its end. -/
theorem lines_unbroken {pieces : List (List Char)} (unbroken : ∀ piece ∈ pieces, '\n' ∉ piece) :
    lines (pieces.flatMap (· ++ ['\n'])) = pieces.map dropCarriageReturn := by
  rw [lines_flatMap]
  induction pieces with
  | nil => rfl
  | cons piece rest ih =>
      rw [List.flatMap_cons, ih fun other member => unbroken other (List.mem_cons_of_mem _ member),
        List.splitOn_eq_singleton (unbroken piece List.mem_cons_self)]
      rfl

theorem lines_cons {line : List Char} (unbroken : '\n' ∉ line) (kept : line.getLast? ≠ some '\r')
    (text : List Char) : lines (line ++ '\n' :: text) = line :: lines text := by
  rw [lines_append, List.splitOn_eq_singleton unbroken, List.map_singleton,
    dropCarriageReturn_of_last kept, List.singleton_append]

/-- What is joined is read back, but for an empty line at the end. The last line keeps its carriage
return. -/
theorem lines_joinLines {front : List (List Char)} {last : List Char}
    (unbroken : ∀ piece ∈ front ++ [last], '\n' ∉ piece) :
    lines (joinLines (front ++ [last])) =
      front.map dropCarriageReturn ++ if last = [] then [] else [last] := by
  induction front with
  | nil =>
      have whole := unbroken last List.mem_cons_self
      rw [List.nil_append, joinLines, List.intercalate_singleton, List.map_nil, List.nil_append]
      split_ifs with empty
      · rw [empty, lines_nil]
      · exact lines_last empty whole
  | cons piece front ih =>
      obtain ⟨here, others⟩ := List.forall_mem_cons.mp unbroken
      have more : front ++ [last] ≠ [] := List.append_ne_nil_of_right_ne_nil _ (List.cons_ne_nil _ _)
      have joined : joinLines (piece :: (front ++ [last])) =
          piece ++ '\n' :: joinLines (front ++ [last]) := by
        rw [joinLines, List.intercalate_cons_of_ne_nil more, List.append_assoc]
        rfl
      rw [List.cons_append, joined, lines_append, List.splitOn_eq_singleton here, ih others,
        List.map_singleton, List.map_cons]
      rfl

/-! ## Trimming -/

theorem isWhitespace_or_mem_dropWhile {character : Char} {text : List Char}
    (member : character ∈ text) :
    isWhitespace character = true ∨ character ∈ text.dropWhile isWhitespace := by
  induction text with
  | nil => cases member
  | cons first rest ih =>
      rw [List.dropWhile_cons]
      split_ifs with blank
      · rcases List.mem_cons.mp member with rfl | later
        · exact .inl blank
        · exact ih later
      · exact .inr member

/-- Trimming takes away white space only. -/
theorem isWhitespace_or_mem_trimList {character : Char} {text : List Char}
    (member : character ∈ text) : isWhitespace character = true ∨ character ∈ trimList text := by
  rcases isWhitespace_or_mem_dropWhile member with blank | inside
  · exact .inl blank
  · rcases isWhitespace_or_mem_dropWhile (List.mem_reverse.mpr inside) with blank | kept
    · exact .inl blank
    · exact .inr (List.mem_reverse.mpr kept)

end Kvist.Text
