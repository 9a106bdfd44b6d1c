import Kvist.Blad.TableMarks
import Kvist.Blad.TableWords

/-!
# The styles of wrapped cells

The spans of the wrapped lines give each character of a word the style of the cell at its place, and
a space the style of the white space that follows the word in front of it.
-/

set_option autoImplicit false

namespace Kvist.Blad.Tables

open ByteText (byteLength Boundary)

/-! ## The words of the source -/

/-- A word with its styles, and the style of the character that follows it. -/
structure Token where
  word : List (Char × Style)
  behind : Style

def headStyle (styled : List (Char × Style)) : Style := (styled.head?.map (·.2)).getD {}

abbrev isBlank (styled : Char × Style) : Bool := Text.isWhitespace styled.1

/-- The words of a text with styles. -/
def tokens : List (Char × Style) → List Token
  | [] => []
  | styled :: rest =>
      if isBlank styled then tokens rest
      else
        match rest.head?.filter fun next => !isBlank next with
        | none => ⟨[styled], headStyle rest⟩ :: tokens rest
        | some _ =>
            match tokens rest with
            | [] => []
            | token :: others => { token with word := styled :: token.word } :: others

/-- The words on one line, with a space in front of each but the first one. -/
def joinTokens : List Token → List (Char × Style)
  | [] => []
  | [token] => token.word
  | token :: next :: rest => token.word ++ (' ', token.behind) :: joinTokens (next :: rest)

theorem tokens_blank {blank : List (Char × Style)} (white : ∀ styled ∈ blank, isBlank styled = true)
    (styled : List (Char × Style)) : tokens (blank ++ styled) = tokens styled := by
  induction blank with
  | nil => rfl
  | cons space rest ih =>
      rw [List.forall_mem_cons] at white
      rw [List.cons_append, tokens, if_pos white.1, ih white.2]

theorem tokens_cut {blank word rest : List (Char × Style)} (cut : Cut isBlank blank word rest) :
    tokens (blank ++ (word ++ rest)) = ⟨word, headStyle rest⟩ :: tokens rest := by
  rw [tokens_blank cut.blank]
  obtain ⟨-, some, solid, apart⟩ := cut
  induction word with
  | nil => exact absurd rfl some
  | cons first others ih =>
      rw [List.forall_mem_cons] at solid
      rw [List.cons_append, tokens, if_neg (by rw [solid.1]; exact Bool.false_ne_true)]
      cases others with
      | nil =>
          have none : (rest.head?.filter fun next => !isBlank next) = none := by
            rw [Option.filter_eq_none_iff]
            intro next found
            rw [apart next found]
            exact Bool.false_ne_true
          rw [List.nil_append, none]
      | cons next others =>
          have inside := (List.forall_mem_cons.mp solid.2).1
          rw [ih (List.cons_ne_nil _ _) solid.2, List.cons_append, List.head?_cons,
            Option.filter_some, if_pos (by rw [inside]; rfl)]

theorem tokens_white {blank : List (Char × Style)}
    (white : ∀ styled ∈ blank, isBlank styled = true) : tokens blank = [] := by
  rw [← List.append_nil blank, tokens_blank white]
  rfl

def Token.text (token : Token) : List Char := token.word.map (·.1)

theorem Cut.text {blank word rest : List (Char × Style)} (cut : Cut isBlank blank word rest) :
    Cut Text.isWhitespace (blank.map (·.1)) (word.map (·.1)) (rest.map (·.1)) := by
  refine ⟨List.forall_mem_map.mpr cut.blank, ?_, List.forall_mem_map.mpr cut.word, ?_⟩
  · exact fun none => cut.nonempty (List.map_eq_nil_iff.mp none)
  · intro character found
    rw [List.head?_map] at found
    obtain ⟨styled, head, rfl⟩ := Option.map_eq_some_iff.mp found
    exact cut.rest styled head

theorem map_tokens (styled : List (Char × Style)) :
    (tokens styled).map Token.text = splitWhitespace (styled.map (·.1)) := by
  induction styled using @cut_induction _ isBlank with
  | blanks blank white =>
      rw [tokens_white white, splitWhitespace_white (List.forall_mem_map.mpr white)]
      rfl
  | cut blank word rest cut ih =>
      rw [tokens_cut cut, List.map_append, List.map_append, splitWhitespace_cut cut.text,
        List.map_cons, ih]
      rfl

theorem joinTokens_cons (token : Token) {rest : List Token} (some : rest ≠ []) :
    joinTokens (token :: rest) = token.word ++ (' ', token.behind) :: joinTokens rest := by
  cases rest with
  | nil => exact absurd rfl some
  | cons next others => rfl

theorem joinTokens_concat (front : List Token) (last token : Token) :
    joinTokens (front ++ [last] ++ [token]) =
      joinTokens (front ++ [last]) ++ (' ', last.behind) :: token.word := by
  induction front with
  | nil => rfl
  | cons first rest ih =>
      rw [List.cons_append, List.cons_append, joinTokens_cons first (by simp),
        joinTokens_cons first (by simp), ih, List.append_assoc]
      rfl

theorem map_joinTokens (group : List Token) :
    (joinTokens group).map (·.1) = [' '].intercalate (group.map Token.text) := by
  induction group with
  | nil => rfl
  | cons token rest ih =>
      cases rest with
      | nil => rw [List.map_singleton, List.intercalate_singleton, joinTokens, Token.text]
      | cons next others =>
          have step : [' '].intercalate ((token :: next :: others).map Token.text) =
              token.text ++ [' '] ++ [' '].intercalate ((next :: others).map Token.text) :=
            List.intercalate_cons_cons
          rw [joinTokens_cons token (List.cons_ne_nil _ _), List.map_append, List.map_cons, ih,
            step, List.append_assoc]
          rfl

/-! ## Passing the words -/

variable {rules : TextRules} {styled : List (Char × Style)}

theorem styledFrom_cut {marks : List CellSpan} {place : Nat} {front back : List (Char × Style)}
    (same : styledFrom marks place ((front ++ back).map (·.1)) = front ++ back) :
    styledFrom marks place (front.map (·.1)) = front ∧
      styledFrom marks (place + byteLength (front.map (·.1))) (back.map (·.1)) = back := by
  rw [List.map_append, styledFrom_append] at same
  refine List.append_inj same ?_
  have length := congrArg List.length (map_styledFrom marks place (front.map (·.1)))
  rwa [List.length_map, List.length_map] at length

theorem styledFrom_marksBehind {marks : List CellSpan} {bound place : Nat} (behind : bound ≤ place)
    (text : List Char) :
    styledFrom (marksBehind bound marks) place text = styledFrom marks place text :=
  styledFrom_congr fun _ _ => styleAt_marksBehind (behind.trans (Nat.le_add_right _ _))

/-- The cursor stands in front of what is left of a text with styles. -/
structure ReachedSource (styled : List (Char × Style)) (cursor : SpanCursor)
    (rest : List (Char × Style)) : Prop where
  cut : ∃ front, styled = front ++ rest ∧ byteLength (front.map (·.1)) = cursor.source
  placed : Placed cursor.marks
  boundaries : ∀ mark ∈ cursor.marks, Boundary (styled.map (·.1)) mark.bytes.start ∧
    Boundary (styled.map (·.1)) mark.bytes.stop
  same : styledFrom cursor.marks cursor.source (rest.map (·.1)) = rest

/-- The line has these words, and the text is left behind the last of them. -/
structure ReachedLine (line : WrappedLine) (done : List Token) (rest : List (Char × Style)) :
    Prop where
  marked : Marked (line.output.map WrappedSpan.inLine) (joinTokens done)
  byte : line.byte = if done = [] then 0 else byteLength ((joinTokens done).map (·.1)) + 1
  behind : ∀ last ∈ done.getLast?, last.behind = headStyle rest

theorem styleAt_source {cursor : SpanCursor} {rest : List (Char × Style)}
    (reached : ReachedSource styled cursor rest) (some : rest ≠ []) :
    styleAt cursor.marks cursor.source = headStyle rest := by
  have same := reached.same
  cases rest with
  | nil => exact absurd rfl some
  | cons first others =>
      rw [List.map_cons, styledFrom] at same
      rw [headStyle, ← (List.cons.inj same).1]
      rfl

theorem ReachedLine.joined {cursor : SpanCursor} {line : WrappedLine} {done : List Token}
    {rest : List (Char × Style)} (reached : ReachedSource styled cursor rest) (some : rest ≠ [])
    (projected : ReachedLine line done rest) (token : Token) :
    ∃ soFar, joinTokens (done ++ [token]) = soFar ++ token.word ∧
      Marked ((joinSpace ⟨marksBehind cursor.source cursor.marks, cursor.source⟩ line).map
        WrappedSpan.inLine) soFar ∧ line.byte = byteLength (soFar.map (·.1)) := by
  rcases List.eq_nil_or_concat done with rfl | ⟨front, last, rfl⟩
  · have none : line.byte = 0 := projected.byte
    refine ⟨[], rfl, ?_, none⟩
    rw [joinSpace, none, if_neg (Nat.lt_irrefl 0)]
    exact projected.marked
  · rw [List.concat_eq_append] at projected ⊢
    have byte := projected.byte
    rw [if_neg (by simp)] at byte
    have spaced : Marked ((joinSpace ⟨marksBehind cursor.source cursor.marks, cursor.source⟩
        line).map WrappedSpan.inLine) (joinTokens (front ++ [last]) ++
          [(' ', styleAt (marksBehind cursor.source cursor.marks) cursor.source)]) :=
      marked_joinSpace (placed_marksBehind reached.placed cursor.source)
        (lt_of_mem_marksBehind reached.placed) projected.marked byte
    have style : styleAt (marksBehind cursor.source cursor.marks) cursor.source = last.behind := by
      rw [styleAt_marksBehind le_rfl, styleAt_source reached some]
      exact (projected.behind last List.getLast?_concat).symm
    rw [style] at spaced
    refine ⟨_, ?_, spaced, ?_⟩
    · rw [joinTokens_concat, List.append_assoc]
      rfl
    · rw [byte, List.map_append, ByteText.byteLength_append]
      rfl

theorem ReachedSource.forward {cursor : SpanCursor} {front back : List (Char × Style)}
    (reached : ReachedSource styled cursor (front ++ back)) :
    ReachedSource styled ⟨cursor.marks, cursor.source + byteLength (front.map (·.1))⟩ back := by
  obtain ⟨before, whole, source⟩ := reached.cut
  refine ⟨⟨before ++ front, ?_, ?_⟩, reached.placed, reached.boundaries, ?_⟩
  · rw [whole, List.append_assoc]
  · rw [List.map_append, ByteText.byteLength_append, source]
  · exact (styledFrom_cut reached.same).2

theorem ReachedSource.drop {cursor : SpanCursor} {rest : List (Char × Style)}
    (reached : ReachedSource styled cursor rest) :
    ReachedSource styled ⟨marksBehind cursor.source cursor.marks, cursor.source⟩ rest := by
  refine ⟨reached.cut, placed_marksBehind reached.placed _, fun mark member => ?_, ?_⟩
  · exact reached.boundaries mark (mem_of_mem_marksBehind member)
  · exact (styledFrom_marksBehind le_rfl _).trans reached.same

theorem ReachedSource.pushed {marks : List CellSpan} {start byte : Nat}
    {word rest soFar : List (Char × Style)} {output : List CellSpan}
    (reached : ReachedSource styled ⟨marks, start⟩ (word ++ rest)) (some : word ≠ [])
    (behind : ∀ mark ∈ marks, start < mark.bytes.stop) (marked : Marked output soFar)
    (written : byte = byteLength (soFar.map (·.1))) :
    Marked (pushRanges byte output
      (overlapsIn start (start + byteLength (word.map (·.1))) marks)) (soFar ++ word) := by
  obtain ⟨front, whole, source⟩ := reached.cut
  have size : 0 < byteLength (word.map (·.1)) :=
    ByteText.byteLength_pos fun none => some (List.map_eq_nil_iff.mp none)
  have cut : styled.map (·.1) = front.map (·.1) ++ (word.map (·.1) ++ rest.map (·.1)) := by
    rw [whole, List.map_append, List.map_append]
  have same : byteLength (soFar.map (·.1)) = byte + (start - start) := by
    rw [written, Nat.sub_self, Nat.add_zero]
  have pushed := marked_overlaps reached.placed reached.boundaries cut source rfl behind le_rfl
    (.inl ⟨rfl, Nat.lt_add_of_pos_right size⟩) marked same
  rwa [(styledFrom_cut reached.same).1] at pushed

/-- The next word is found behind the white space in front of it. -/
theorem find_word {cursor : SpanCursor} {blank word rest : List (Char × Style)}
    (reached : ReachedSource styled cursor (blank ++ (word ++ rest)))
    (cut : Cut isBlank blank word rest) :
    (ByteText.getFrom cursor.source (styled.map (·.1))).bind (ByteText.find (word.map (·.1))) =
      some (byteLength (blank.map (·.1))) := by
  obtain ⟨front, rfl, source⟩ := reached.cut
  have apart := cut.text
  rw [List.map_append, ← source, ByteText.getFrom_append, Option.bind_some, List.map_append,
    List.map_append]
  cases first : word.map (·.1) with
  | nil => exact absurd first apart.nonempty
  | cons character others =>
      rw [first] at apart
      refine ByteText.find_behind (fun member => ?_) _ _
      have white := apart.blank character member
      rw [apart.word character List.mem_cons_self] at white
      exact Bool.false_ne_true white

theorem Inert.word {text word : List Char} (inert : Inert text)
    (part : ∀ character ∈ word, character ∈ text)
    (solid : ∀ character ∈ word, Text.isWhitespace character = false) :
    ∀ character ∈ word, isControl character = false := by
  intro character member
  have visible := solid character member
  by_contra control
  rw [Bool.not_eq_false] at control
  rcases inert character (part character member) control with rfl | rfl
  · exact absurd visible (by decide)
  · exact absurd visible (by decide)

theorem length_columns {marks : List CellSpan} {start : Nat} {word : List Char}
    (controls : ∀ character ∈ word, isControl character = false) :
    ((TerminalLine.new rules word).columnRanges rules
        ((overlapsIn start (start + byteLength word) marks).map (·.2))).length =
      (overlapsIn start (start + byteLength word) marks).length := by
  rw [length_columnRanges, List.length_map]
  intro range member
  obtain ⟨overlap, inside, rfl⟩ := List.mem_map.mp member
  obtain ⟨order, less⟩ := overlapsIn_inside inside
  rw [text_new controls]
  exact ⟨order, by omega⟩

theorem projectWord_next {cursor : SpanCursor} {line : WrappedLine} {done others : List Token}
    {token : Token} {rest : List (Char × Style)} (inert : Inert (styled.map (·.1)))
    (reached : ReachedSource styled cursor rest) (projected : ReachedLine line done rest)
    (next : tokens rest = token :: others) :
    ∃ cursor' line' rest', projectWord rules (styled.map (·.1)) (cursor, line) token.text =
        .ok (cursor', line') ∧
      ReachedSource styled cursor' rest' ∧ ReachedLine line' (done ++ [token]) rest' ∧
      tokens rest' = others := by
  rcases exists_cut isBlank rest with white | ⟨blank, word, rest, rfl, cut⟩
  · rw [tokens_white white] at next
    exact nomatch next
  · rw [tokens_cut cut] at next
    obtain ⟨rfl, rfl⟩ := List.cons.inj next
    have found := find_word reached cut
    obtain ⟨soFar, joins, marked, byte⟩ := projected.joined reached (by simp [cut.nonempty])
      ⟨word, headStyle rest⟩
    have controls : ∀ character ∈ word.map (·.1), isControl character = false := by
      refine inert.word (fun character member => ?_) cut.text.word
      obtain ⟨front, whole, -⟩ := reached.cut
      rw [whole]
      simp only [List.map_append, List.mem_append]
      exact .inr (.inr (.inl member))
    have atWord := reached.drop.forward.drop
    have pushed := atWord.pushed cut.nonempty (lt_of_mem_marksBehind reached.drop.forward.placed)
      marked byte
    have lengths := @length_columns rules
      (marksBehind (cursor.source + byteLength (blank.map (·.1)))
        (marksBehind cursor.source cursor.marks))
      (cursor.source + byteLength (blank.map (·.1))) _ controls
    refine ⟨_, ?line, rest, ?_, atWord.forward, ⟨?_, ?_, ?_⟩, rfl⟩
    rotate_left
    · rw [projectWord]
      dsimp only
      rw [Token.text, found]
      simp only [okOr_some, ok_bind]
      rw [lengths, beq_self_eq_true, ensure_true, ok_bind]
      rfl
    · rw [joins, map_pushOverlaps lengths]
      exact pushed
    · rw [if_neg (by simp), joins, List.map_append, ByteText.byteLength_append, ← byte]
    · intro last found
      rw [List.getLast?_concat] at found
      rw [← Option.some.inj found]

theorem foldlM_projectWord {cursor : SpanCursor} {line : WrappedLine}
    {done group others : List Token} {rest : List (Char × Style)} (inert : Inert (styled.map (·.1)))
    (reached : ReachedSource styled cursor rest) (projected : ReachedLine line done rest)
    (next : tokens rest = group ++ others) :
    ∃ cursor' line' rest',
      (group.map Token.text).foldlM (projectWord rules (styled.map (·.1))) (cursor, line) =
        .ok (cursor', line') ∧
      ReachedSource styled cursor' rest' ∧ ReachedLine line' (done ++ group) rest' ∧
      tokens rest' = others := by
  induction group generalizing cursor line done rest with
  | nil =>
      refine ⟨cursor, line, rest, rfl, reached, ?_, next⟩
      rwa [List.append_nil]
  | cons token group ih =>
      obtain ⟨_, _, _, passed, reached, projected, left⟩ :=
        projectWord_next inert reached projected next
      obtain ⟨cursor', line', rest', all, reached, projected, left⟩ := ih reached projected left
      refine ⟨cursor', line', rest', ?_, reached, ?_, left⟩
      · rw [List.map_cons, List.foldlM_cons, passed, ok_bind, all]
      · rwa [List.append_assoc] at projected

theorem projectLines_groups {cursor : SpanCursor} {groups : List (List Token)}
    {rest : List (Char × Style)} (inert : Inert (styled.map (·.1)))
    (reached : ReachedSource styled cursor rest)
    (words : ∀ token ∈ groups.flatten, IsWord token.text)
    (next : tokens rest = groups.flatten) :
    ∃ projected, projectLines rules (styled.map (·.1)) cursor
        (groups.map fun group => [' '].intercalate (group.map Token.text)) = .ok projected ∧
      List.Forall₂ (fun group spans => Marked (spans.map WrappedSpan.inLine) (joinTokens group))
        groups projected := by
  induction groups generalizing cursor rest with
  | nil => exact ⟨[], rfl, .nil⟩
  | cons group others ih =>
      rw [List.flatten_cons] at words next
      rw [List.forall_mem_append] at words
      have split : splitWhitespace ([' '].intercalate (group.map Token.text)) =
          group.map Token.text :=
        splitWhitespace_joined (List.forall_mem_map.mpr words.1)
      have start : ReachedLine ⟨0, 0, []⟩ [] rest := ⟨marked_nil, rfl, nofun⟩
      obtain ⟨_, line, _, passed, reached, finished, left⟩ :=
        foldlM_projectWord inert reached start next
      obtain ⟨projected, all, each⟩ := ih reached words.2 left
      refine ⟨line.output :: projected, ?_, .cons finished.marked each⟩
      rw [List.map_cons, projectLines, split, passed, ok_bind]
      dsimp only
      rw [all]
      rfl

theorem exists_groups {words : List Token} {groups : List (List (List Char))}
    (same : groups.flatten = words.map Token.text) :
    ∃ parts : List (List Token), parts.flatten = words ∧ parts.map (·.map Token.text) = groups := by
  induction groups generalizing words with
  | nil =>
      rw [List.flatten_nil] at same
      exact ⟨[], (List.map_eq_nil_iff.mp same.symm).symm, rfl⟩
  | cons group rest ih =>
      rw [List.flatten_cons] at same
      obtain ⟨front, back, rfl, rfl, others⟩ := List.map_eq_append_iff.mp same.symm
      obtain ⟨parts, rfl, rfl⟩ := ih others.symm
      exact ⟨front :: parts, rfl, rfl⟩

/-! ## A cell that has no spans -/

theorem projectWord_unmarked {original word : List Char} {source : Nat} {line line' : WrappedLine}
    {cursor' : SpanCursor}
    (passed : projectWord rules original (⟨[], source⟩, line) word = .ok (cursor', line')) :
    cursor'.marks = [] ∧ line'.output = line.output := by
  rw [projectWord] at passed
  obtain ⟨offset, -, passed⟩ := bind_ok_iff.mp passed
  obtain ⟨⟨⟩, -, passed⟩ := bind_ok_iff.mp passed
  obtain ⟨rfl, rfl⟩ := Prod.mk.inj (Except.ok.inj passed)
  refine ⟨rfl, ?_⟩
  change joinSpace ⟨[], source⟩ line = line.output
  rw [joinSpace]
  split
  · rfl
  · rfl

theorem projectLines_unmarked {original : List Char} {source : Nat} {lines : List (List Char)}
    {projected : List (List WrappedSpan)}
    (passed : projectLines rules original ⟨[], source⟩ lines = .ok projected) :
    projected = lines.map fun _ => [] := by
  have words : ∀ {items : List (List Char)} {source : Nat} {line line' : WrappedLine}
      {cursor' : SpanCursor},
      items.foldlM (projectWord rules original) (⟨[], source⟩, line) = .ok (cursor', line') →
      cursor'.marks = [] ∧ line'.output = line.output := by
    intro items
    induction items with
    | nil =>
        intro source line line' cursor' all
        obtain ⟨rfl, rfl⟩ := Prod.mk.inj (Except.ok.inj all)
        exact ⟨rfl, rfl⟩
    | cons word rest ih =>
        intro source line line' cursor' all
        rw [List.foldlM_cons] at all
        obtain ⟨⟨⟨marks, source⟩, middle⟩, first, others⟩ := bind_ok_iff.mp all
        obtain ⟨rfl, same⟩ := projectWord_unmarked first
        obtain ⟨none, last⟩ := ih others
        exact ⟨none, last.trans same⟩
  induction lines generalizing source projected with
  | nil => exact (Except.ok.inj passed).symm
  | cons line rest ih =>
      rw [projectLines] at passed
      obtain ⟨⟨⟨marks, source⟩, last⟩, first, behind⟩ := bind_ok_iff.mp passed
      obtain ⟨rfl, same⟩ := words first
      obtain ⟨others, later, whole⟩ := bind_ok_iff.mp behind
      rw [← Except.ok.inj whole, ih later, same]
      rfl

theorem wrapped_groups {spans : TableSpans} {row column : Nat} (inert : Inert (styled.map (·.1)))
    (marked : Marked ((spans.cells.get (toLex (row, column))).getD []) styled)
    {groups : List (List Token)} (next : tokens styled = groups.flatten) :
    ∃ projected, spans.wrapped rules row column (styled.map (·.1))
        (groups.map fun group => [' '].intercalate (group.map Token.text)) = .ok projected ∧
      List.Forall₂ (fun group spans => Marked (spans.map WrappedSpan.inLine) (joinTokens group))
        groups projected := by
  have words : ∀ token ∈ groups.flatten, IsWord token.text := by
    intro token member
    rw [← next] at member
    refine @isWord_of_mem (styled.map (·.1)) _ ?_
    rw [← map_tokens]
    exact List.mem_map_of_mem member
  have reached : ReachedSource styled
      ⟨(spans.cells.get (toLex (row, column))).getD [], 0⟩ styled :=
    ⟨⟨[], rfl, rfl⟩, marked.placed, marked.boundaries, marked.same⟩
  obtain ⟨projected, all, each⟩ := @projectLines_groups rules _ _ _ _ inert reached words next
  refine ⟨projected, ?_, each⟩
  rw [TableSpans.wrapped]
  cases found : spans.cells.get (toLex (row, column)) with
  | none =>
      rw [found] at all
      rw [projectLines_unmarked all]
  | some marks =>
      rw [found] at all
      exact all

end Kvist.Blad.Tables
