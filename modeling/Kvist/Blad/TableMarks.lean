import Kvist.Blad.TableSpans

/-!
# Spans of a text

Spans that stand behind one another give each place of a text one style. They are put behind one
another without a change of the styles in front of them.
-/

set_option autoImplicit false

namespace Kvist.Blad

open ByteText (byteLength Boundary)

/-! ## The columns of ranges -/

theorem partitionPoint_le {Item : Type} (test : Item → Bool) (items : List Item) :
    partitionPoint test items ≤ items.length := (List.takeWhile_prefix test).length_le

/-- The first grapheme cluster that reaches into a range stands in front of the first one behind
it. -/
theorem partitionPoint_lt {rules : TextRules} {offset column start stop : Nat}
    {graphemes : List (List Char)} (above : offset ≤ start)
    (inside : start < offset + byteLength graphemes.flatten) (order : start < stop) :
    partitionPoint (fun grapheme => grapheme.bytes.stop ≤ start)
        (graphemeSpans rules offset column graphemes) <
      partitionPoint (fun grapheme => grapheme.bytes.start < stop)
        (graphemeSpans rules offset column graphemes) := by
  induction graphemes generalizing offset column with
  | nil =>
      rw [List.flatten_nil, ByteText.byteLength_nil] at inside
      omega
  | cons grapheme rest ih =>
      rw [List.flatten_cons, ByteText.byteLength_append] at inside
      rw [graphemeSpans, partitionPoint, partitionPoint, List.takeWhile_cons, List.takeWhile_cons]
      have reaches : offset < stop := by omega
      rw [if_pos (decide_eq_true reaches)]
      split
      · rename_i passed
        rw [decide_eq_true_eq] at passed
        exact Nat.succ_lt_succ (ih passed (by omega))
      · exact Nat.succ_pos _

theorem length_columnRanges {rules : TextRules} {line : TerminalLine} {ranges : List Range}
    (each : ∀ range ∈ ranges, range.start < range.stop ∧ range.stop ≤ byteLength line.text) :
    (line.columnRanges rules ranges).length = ranges.length := by
  rw [TerminalLine.columnRanges, List.length_filterMap_eq_countP, List.countP_eq_length]
  intro range member
  obtain ⟨order, inside⟩ := each range member
  have less := @partitionPoint_lt rules 0 0 range.start range.stop (rules.graphemes line.text)
    (Nat.zero_le _) (by rw [rules.flatten_graphemes]; omega) order
  have short := partitionPoint_le (fun grapheme : GraphemeSpan => grapheme.bytes.start < range.stop)
    (graphemeSpans rules 0 0 (rules.graphemes line.text))
  dsimp only
  rw [if_pos less, List.getElem?_eq_getElem (by omega), List.getElem?_eq_getElem (by omega)]
  rfl

namespace Tables

/-! ## The style of a place -/

def styleAt (marks : List CellSpan) (place : Nat) : Style :=
  ((marks.find? fun mark => mark.bytes.start ≤ place && place < mark.bytes.stop).map
    (·.style)).getD {}

def styledFrom (marks : List CellSpan) : Nat → List Char → List (Char × Style)
  | _, [] => []
  | place, character :: rest =>
      (character, styleAt marks place) ::
        styledFrom marks (place + character.utf8Size) rest

def withStyle (style : Style) (text : List Char) : List (Char × Style) := text.map (·, style)

/-- The spans are not empty and stand behind one another. -/
structure Placed (marks : List CellSpan) : Prop where
  each : ∀ mark ∈ marks, mark.bytes.start < mark.bytes.stop
  ordered : marks.Pairwise fun early late => early.bytes.stop ≤ late.bytes.start

variable {marks rest : List CellSpan} {mark : CellSpan} {style : Style} {start stop place : Nat}
  {text front back : List Char}

theorem styleAt_cons : styleAt (mark :: marks) place =
    if mark.bytes.start ≤ place ∧ place < mark.bytes.stop then mark.style
    else styleAt marks place := by
  rw [styleAt, List.find?_cons]
  split
  · rename_i covers
    rw [if_pos (by simpa using covers)]
    rfl
  · rename_i apart
    rw [if_neg (by simpa using apart)]
    rfl

theorem styleAt_eq_default (apart : ∀ mark ∈ marks, mark.bytes.stop ≤ place ∨
    place < mark.bytes.start) : styleAt marks place = {} := by
  induction marks with
  | nil => rfl
  | cons mark rest ih =>
      rw [List.forall_mem_cons] at apart
      rw [styleAt_cons, if_neg (by omega), ih apart.2]

theorem styleAt_append (apart : ∀ mark ∈ marks, mark.bytes.stop ≤ place)
    (others : List CellSpan) : styleAt (marks ++ others) place = styleAt others place := by
  induction marks with
  | nil => rfl
  | cons mark rest ih =>
      rw [List.forall_mem_cons] at apart
      rw [List.cons_append, styleAt_cons, if_neg (by omega), ih apart.2]

theorem styleAt_concat (apart : place < mark.bytes.start ∨ mark.bytes.stop ≤ place) :
    styleAt (marks ++ [mark]) place = styleAt marks place := by
  induction marks with
  | nil => exact styleAt_eq_default (by simpa using apart.symm)
  | cons first rest ih => rw [List.cons_append, styleAt_cons, styleAt_cons, ih]

theorem styleAt_marksBehind {bound : Nat} (behind : bound ≤ place) :
    styleAt (marksBehind bound marks) place = styleAt marks place := by
  induction marks with
  | nil => rfl
  | cons mark rest ih =>
      rw [marksBehind, List.dropWhile_cons]
      split
      · rename_i ends
        rw [decide_eq_true_eq] at ends
        rw [styleAt_cons, if_neg (by omega)]
        exact ih
      · rfl

theorem styledFrom_append (marks : List CellSpan) (place : Nat) (front back : List Char) :
    styledFrom marks place (front ++ back) =
      styledFrom marks place front ++ styledFrom marks (place + byteLength front) back := by
  induction front generalizing place with
  | nil => rfl
  | cons character rest ih =>
      rw [List.cons_append, styledFrom, ih, styledFrom, ByteText.byteLength_cons, Nat.add_assoc]
      rfl

theorem map_styledFrom (marks : List CellSpan) (place : Nat) (text : List Char) :
    (styledFrom marks place text).map (·.1) = text := by
  induction text generalizing place with
  | nil => rfl
  | cons character rest ih => rw [styledFrom, List.map_cons, ih]

theorem map_withStyle (style : Style) (text : List Char) :
    (withStyle style text).map (·.1) = text := by
  rw [withStyle, List.map_map]
  exact List.map_id _

theorem styledFrom_congr {others : List CellSpan} {other : Nat}
    (same : ∀ distance < byteLength text,
      styleAt marks (place + distance) = styleAt others (other + distance)) :
    styledFrom marks place text = styledFrom others other text := by
  induction text generalizing place other with
  | nil => rfl
  | cons character rest ih =>
      rw [ByteText.byteLength_cons] at same
      have here := same 0 (Nat.lt_of_lt_of_le character.utf8Size_pos (Nat.le_add_right _ _))
      rw [Nat.add_zero, Nat.add_zero] at here
      rw [styledFrom, styledFrom, here, ih]
      intro distance less
      rw [Nat.add_assoc, Nat.add_assoc]
      exact same _ (by omega)

theorem styledFrom_one (same : ∀ distance < byteLength text,
    styleAt marks (place + distance) = style) :
    styledFrom marks place text = withStyle style text := by
  induction text generalizing place with
  | nil => rfl
  | cons character rest ih =>
      rw [ByteText.byteLength_cons] at same
      have here := same 0 (Nat.lt_of_lt_of_le character.utf8Size_pos (Nat.le_add_right _ _))
      rw [Nat.add_zero] at here
      rw [styledFrom, here, ih, withStyle, withStyle, List.map_cons]
      intro distance less
      rw [Nat.add_assoc]
      exact same _ (by omega)

/-! ## Spans that are put behind others -/

/-- The spans give the characters of a text their styles, and are cut between characters. -/
structure Marked (marks : List CellSpan) (styled : List (Char × Style)) : Prop where
  placed : Placed marks
  boundaries : ∀ mark ∈ marks, Boundary (styled.map (·.1)) mark.bytes.start ∧
    Boundary (styled.map (·.1)) mark.bytes.stop
  same : styledFrom marks 0 (styled.map (·.1)) = styled

variable {styled : List (Char × Style)}

theorem marked_nil : Marked [] [] := ⟨⟨nofun, List.Pairwise.nil⟩, nofun, rfl⟩

theorem Marked.inside (marked : Marked marks styled) :
    ∀ mark ∈ marks, mark.bytes.stop ≤ byteLength (styled.map (·.1)) :=
  fun mark member => (marked.boundaries mark member).2.le

theorem Marked.plain (marked : Marked marks styled) (text : List Char) :
    Marked marks (styled ++ withStyle {} text) := by
  have whole : (styled ++ withStyle {} text).map (·.1) = styled.map (·.1) ++ text := by
    rw [List.map_append, map_withStyle]
  refine ⟨marked.placed, fun mark member => ?_, ?_⟩
  · rw [whole]
    exact ⟨(marked.boundaries mark member).1.append _, (marked.boundaries mark member).2.append _⟩
  · rw [whole, styledFrom_append, marked.same, styledFrom_one]
    intro distance less
    refine styleAt_eq_default fun mark member => .inl ?_
    have inside := marked.inside mark member
    omega

theorem pushMark_cases (marks : List CellSpan) (style : Style) (start stop : Nat) :
    pushMark marks style start stop = marks ++ [⟨style, ⟨start, stop⟩⟩] ∨
      ∃ front mark, marks = front ++ [mark] ∧ mark.style = style ∧ mark.bytes.stop = start ∧
        pushMark marks style start stop = front ++ [⟨style, ⟨mark.bytes.start, stop⟩⟩] := by
  rw [pushMark]
  split
  · rename_i mark found
    obtain ⟨last, same⟩ := Option.filter_eq_some_iff.mp found
    rw [Bool.and_eq_true, decide_eq_true_eq, decide_eq_true_eq] at same
    obtain ⟨front, rfl⟩ := List.getLast?_eq_some_iff.mp last
    refine .inr ⟨front, mark, rfl, same.1, same.2, ?_⟩
    rw [List.dropLast_concat, ← same.1]
  · exact .inl rfl

/-- A span behind the others gives its text its style and changes no other style. -/
theorem styleAt_pushMark (placed : Placed marks) (ends : ∀ mark ∈ marks, mark.bytes.stop ≤ start)
    (order : start < stop) (place : Nat) : styleAt (pushMark marks style start stop) place =
      if start ≤ place ∧ place < stop then style else styleAt marks place := by
  rcases pushMark_cases marks style start stop with same | ⟨front, mark, rfl, rfl, rfl, same⟩
  · rw [same]
    split
    · rename_i covers
      rw [styleAt_append fun mark member => (ends mark member).trans covers.1, styleAt_cons,
        if_pos covers]
    · rename_i outside
      exact styleAt_concat (by dsimp only; omega)
  · have positive := placed.each mark (List.mem_append_right _ (List.mem_singleton.mpr rfl))
    have before : ∀ early ∈ front, early.bytes.stop ≤ mark.bytes.start := fun early member =>
      (List.pairwise_append.mp placed.ordered).2.2 early member mark (List.mem_singleton.mpr rfl)
    rw [same]
    rcases Nat.lt_or_ge place mark.bytes.start with low | high
    · rw [if_neg (by omega), styleAt_concat (.inl low)]
      exact styleAt_concat (.inl low)
    · have apart : ∀ early ∈ front, early.bytes.stop ≤ place :=
        fun early member => (before early member).trans high
      rw [styleAt_append apart, styleAt_append apart, styleAt_cons, styleAt_cons]
      dsimp only
      split
      · split
        · rfl
        · rw [if_pos (by omega)]
      · rw [if_neg (by omega), if_neg (by omega)]

theorem placed_pushMark (placed : Placed marks) (ends : ∀ mark ∈ marks, mark.bytes.stop ≤ start)
    (order : start < stop) : Placed (pushMark marks style start stop) := by
  rcases pushMark_cases marks style start stop with same | ⟨front, mark, rfl, rfl, rfl, same⟩
  · rw [same]
    constructor
    · intro mark member
      rcases List.mem_append.mp member with early | last
      · exact placed.each mark early
      · rw [List.mem_singleton.mp last]
        exact order
    · refine List.pairwise_append.mpr ⟨placed.ordered, List.pairwise_singleton _ _, ?_⟩
      intro mark member last final
      rw [List.mem_singleton.mp final]
      exact ends mark member
  · obtain ⟨early, -, before⟩ := List.pairwise_append.mp placed.ordered
    have positive := placed.each mark (List.mem_append_right _ (List.mem_singleton.mpr rfl))
    rw [same]
    constructor
    · intro other member
      rcases List.mem_append.mp member with inside | last
      · exact placed.each other (List.mem_append_left _ inside)
      · rw [List.mem_singleton.mp last]
        exact positive.trans order
    · refine List.pairwise_append.mpr ⟨early, List.pairwise_singleton _ _, ?_⟩
      intro other member last final
      rw [List.mem_singleton.mp final]
      exact before other member mark (List.mem_singleton.mpr rfl)

/-- The places of a span behind the others are the old ones and its own. -/
theorem forall_mem_pushMark {valid : Nat → Prop} (old : ∀ mark ∈ marks,
    valid mark.bytes.start ∧ valid mark.bytes.stop) (first : valid start) (last : valid stop) :
    ∀ mark ∈ pushMark marks style start stop, valid mark.bytes.start ∧ valid mark.bytes.stop := by
  rcases pushMark_cases marks style start stop with same | ⟨front, mark, rfl, rfl, rfl, same⟩
  · rw [same, List.forall_mem_append]
    exact ⟨old, by simpa using ⟨first, last⟩⟩
  · rw [List.forall_mem_append] at old
    rw [same, List.forall_mem_append]
    exact ⟨old.1, by simpa using ⟨(old.2 mark (List.mem_singleton.mpr rfl)).1, last⟩⟩

/-- Text with a span behind the others has its style. -/
theorem Marked.push (marked : Marked marks styled) {text : List Char} (some : text ≠ [])
    (begins : byteLength (styled.map (·.1)) = start) (ends : start + byteLength text = stop) :
    Marked (pushMark marks style start stop) (styled ++ withStyle style text) := by
  have whole : (styled ++ withStyle style text).map (·.1) = styled.map (·.1) ++ text := by
    rw [List.map_append, map_withStyle]
  have positive := ByteText.byteLength_pos some
  subst begins ends
  refine ⟨placed_pushMark marked.placed marked.inside (by omega), ?_, ?_⟩
  · rw [whole]
    refine forall_mem_pushMark (fun mark member => ?_) ?_ ?_
    · obtain ⟨first, last⟩ := marked.boundaries mark member
      exact ⟨first.append _, last.append _⟩
    · exact (ByteText.boundary_end _).append _
    · rw [← ByteText.byteLength_append]
      exact ByteText.boundary_end _
  · rw [whole, styledFrom_append, Nat.zero_add]
    congr 1
    · refine Eq.trans (styledFrom_congr fun distance less => ?_) marked.same
      rw [styleAt_pushMark marked.placed marked.inside (by omega), if_neg (by omega)]
    · refine styledFrom_one fun distance less => ?_
      rw [styleAt_pushMark marked.placed marked.inside (by omega), if_pos (by omega)]

/-! ## The parts of spans in a word -/

/-- The parts of spans are put behind other spans in a line in which the word begins at a byte. -/
def pushRanges (byte : Nat) (marks : List CellSpan) (overlaps : List (Style × Range)) :
    List CellSpan :=
  overlaps.foldl (fun marks overlap =>
    pushMark marks overlap.1 (byte + overlap.2.start) (byte + overlap.2.stop)) marks

theorem overlapsIn_late (late : ∀ mark ∈ marks, stop ≤ mark.bytes.start) :
    overlapsIn start stop marks = [] := by
  cases marks with
  | nil => rfl
  | cons mark rest =>
      have first := late mark List.mem_cons_self
      rw [overlapsIn, List.takeWhile_cons_of_neg (by simpa using first)]
      rfl

theorem overlapsIn_cons {low high : Nat} (first : max start mark.bytes.start = low)
    (last : min stop mark.bytes.stop = high) (order : low < high) :
    overlapsIn start stop (mark :: rest) =
      (mark.style, ⟨low - start, high - start⟩) :: overlapsIn start stop rest := by
  subst first last
  have early : mark.bytes.start < stop := by omega
  rw [overlapsIn, List.takeWhile_cons_of_pos (by simpa using early), List.filterMap_cons]
  dsimp only
  rw [if_pos order]
  rfl

/-- A span in front of the others gives its part of a text its style. -/
theorem styledFrom_cons {low high : Nat} {gap middle tail : List Char}
    (placed : Placed (mark :: rest)) (bottom : place + byteLength gap = low)
    (top : low + byteLength middle = high) (outside : low ≤ max place mark.bytes.start)
    (inside : mark.bytes.start ≤ low) (within : high ≤ mark.bytes.stop)
    (behind : mark.bytes.stop ≤ high ∨ tail = []) :
    styledFrom (mark :: rest) place (gap ++ (middle ++ tail)) =
      withStyle {} gap ++ withStyle mark.style middle ++ styledFrom rest high tail := by
  obtain ⟨above, -⟩ := List.pairwise_cons.mp placed.ordered
  have positive := placed.each mark List.mem_cons_self
  rw [styledFrom_append, styledFrom_append, bottom, top, List.append_assoc]
  congr 1
  · refine styledFrom_one fun distance less => styleAt_eq_default fun other member => .inr ?_
    rcases List.mem_cons.mp member with rfl | later
    · omega
    · have order := above other later
      omega
  · congr 1
    · refine styledFrom_one fun distance less => ?_
      rw [styleAt_cons, if_pos (by omega)]
    · rcases behind with passed | rfl
      · refine styledFrom_congr fun distance less => ?_
        rw [styleAt_cons, if_neg (by omega)]
      · rfl

theorem marked_overlaps {whole before word after : List Char} {byte : Nat}
    {output : List CellSpan} {soFar : List (Char × Style)} (placed : Placed marks)
    (boundaries : ∀ mark ∈ marks, Boundary whole mark.bytes.start ∧ Boundary whole mark.bytes.stop)
    (cut : whole = before ++ (word ++ after)) (begins : byteLength before = place)
    (ends : place + byteLength word = stop) (behind : ∀ mark ∈ marks, place < mark.bytes.stop)
    (inside : start ≤ place)
    (fresh : (place = start ∧ place < stop) ∨ ∀ mark ∈ marks, place ≤ mark.bytes.start)
    (marked : Marked output soFar)
    (written : byteLength (soFar.map (·.1)) = byte + (place - start)) :
    Marked (pushRanges byte output (overlapsIn start stop marks))
      (soFar ++ styledFrom marks place word) := by
  induction marks generalizing before word place output soFar with
  | nil =>
      rw [styledFrom_one fun _ _ => rfl]
      exact marked.plain word
  | cons mark rest ih =>
      obtain ⟨above, ordered⟩ := List.pairwise_cons.mp placed.ordered
      rw [List.forall_mem_cons] at boundaries behind
      have positive := placed.each mark List.mem_cons_self
      have each : ∀ later ∈ rest, later.bytes.start < later.bytes.stop :=
        fun later member => placed.each later (List.mem_cons_of_mem _ member)
      rcases Nat.lt_or_ge mark.bytes.start stop with early | late
      · have opened : place < stop ∧ max start mark.bytes.start = max place mark.bytes.start := by
          rcases fresh with ⟨rfl, less⟩ | further
          · exact ⟨less, rfl⟩
          · have first := further mark List.mem_cons_self
            omega
        generalize first : max place mark.bytes.start = low at opened
        generalize last : min stop mark.bytes.stop = high
        have order : low < high := by omega
        have wordEnd : Boundary whole stop := by
          rw [cut, ← List.append_assoc, ← ends, ← begins, ← ByteText.byteLength_append]
          exact (ByteText.boundary_end _).append _
        have wordStart : Boundary whole place := by
          rw [cut, ← begins]
          exact (ByteText.boundary_end _).append _
        have lowBoundary : Boundary whole low := by
          rcases Nat.le_total place mark.bytes.start with less | more
          · rw [← first, max_eq_right less]
            exact boundaries.1.1
          · rwa [← first, max_eq_left more]
        have highBoundary : Boundary whole high := by
          rcases Nat.le_total stop mark.bytes.stop with less | more
          · rwa [← last, min_eq_left less]
          · rw [← last, min_eq_right more]
            exact boundaries.1.2
        have wordLow : Boundary word (low - place) := by
          rw [cut] at lowBoundary
          have inner := lowBoundary.within (by omega) (by omega)
          rwa [begins] at inner
        have wordHigh : Boundary word (high - place) := by
          rw [cut] at highBoundary
          have inner := highBoundary.within (by omega) (by omega)
          rwa [begins] at inner
        obtain ⟨gap, middle, tail, rfl, gapSize, middleSize⟩ := wordLow.split wordHigh (by omega)
        rw [ByteText.byteLength_append, ByteText.byteLength_append] at ends
        have styles := @styledFrom_cons rest mark place low high gap middle tail placed
          (by omega) (by omega) (by omega) (by omega) (by omega) (by
            rcases Nat.lt_or_ge mark.bytes.stop stop with less | more
            · exact .inl (by omega)
            · exact .inr (ByteText.eq_nil_of_byteLength (by omega)))
        have pushed : Marked (pushMark output mark.style (byte + (low - start))
            (byte + (high - start)))
            (soFar ++ withStyle {} gap ++ withStyle mark.style middle) := by
          refine (marked.plain gap).push ?_ ?_ (by omega)
          · rintro rfl
            rw [ByteText.byteLength_nil] at middleSize
            omega
          · rw [List.map_append, map_withStyle, ByteText.byteLength_append, written]
            omega
        have wholeCut : whole = (before ++ (gap ++ middle)) ++ (tail ++ after) := by
          rw [cut]
          simp only [List.append_assoc]
        rw [overlapsIn_cons opened.2 last order, styles, ← List.append_assoc, ← List.append_assoc]
        refine ih ⟨each, ordered⟩ boundaries.2 wholeCut ?_ (by omega) ?_ (by omega) (.inr ?_)
          pushed ?_
        · rw [ByteText.byteLength_append, ByteText.byteLength_append]
          omega
        · intro later member
          have order := above later member
          have some := each later member
          omega
        · intro later member
          have order := above later member
          omega
        · rw [List.map_append, List.map_append, map_withStyle, map_withStyle,
            ByteText.byteLength_append, ByteText.byteLength_append, written]
          omega
      · have every : ∀ other ∈ mark :: rest, stop ≤ other.bytes.start := by
          refine List.forall_mem_cons.mpr ⟨late, fun other member => ?_⟩
          have order := above other member
          omega
        rw [overlapsIn_late every, styledFrom_one fun distance less =>
          styleAt_eq_default fun other member => .inr ?_]
        · exact marked.plain word
        · have order := every other member
          omega

theorem overlapsIn_inside {overlap : Style × Range}
    (member : overlap ∈ overlapsIn start stop marks) :
    overlap.2.start < overlap.2.stop ∧ overlap.2.stop ≤ stop - start := by
  obtain ⟨mark, -, made⟩ := List.mem_filterMap.mp member
  dsimp only at made
  split at made
  · obtain rfl := Option.some.inj made
    dsimp only
    omega
  · exact absurd made nofun

def WrappedSpan.inLine (span : WrappedSpan) : CellSpan := ⟨span.style, span.bytes⟩

theorem map_pushSpan (output : List WrappedSpan) (style : Style) (bytes columns : Range) :
    (pushSpan output style bytes columns).map WrappedSpan.inLine =
      pushMark (output.map WrappedSpan.inLine) style bytes.start bytes.stop := by
  rcases List.eq_nil_or_concat output with rfl | ⟨front, last, rfl⟩
  · rfl
  · rw [List.concat_eq_append, pushSpan, pushMark, List.map_append, List.map_singleton,
      List.getLast?_concat, List.getLast?_concat, Option.filter_some, Option.filter_some]
    by_cases joins : (decide (last.style = style) && decide (last.bytes.stop = bytes.start)) = true
    · rw [if_pos joins, WrappedSpan.inLine, if_pos joins]
      simp [WrappedSpan.inLine]
    · rw [if_neg joins, WrappedSpan.inLine, if_neg joins]
      simp [WrappedSpan.inLine]

theorem map_pushOverlaps {byte column : Nat} {output : List WrappedSpan}
    {overlaps : List (Style × Range)} {columns : List Range}
    (length : columns.length = overlaps.length) :
    (pushOverlaps byte column output (overlaps.zip columns)).map WrappedSpan.inLine =
      pushRanges byte (output.map WrappedSpan.inLine) overlaps := by
  induction overlaps generalizing output columns with
  | nil => rfl
  | cons overlap rest ih =>
      cases columns with
      | nil => exact nomatch length
      | cons range others =>
          rw [List.zip_cons_cons, pushOverlaps, List.foldl_cons, ← pushOverlaps,
            ih (Nat.succ.inj length), map_pushSpan]
          rfl

theorem placed_marksBehind (placed : Placed marks) (bound : Nat) :
    Placed (marksBehind bound marks) := by
  have suffix : marksBehind bound marks <:+ marks := List.dropWhile_suffix _
  refine ⟨fun mark member => placed.each mark (suffix.subset member), ?_⟩
  exact placed.ordered.sublist suffix.sublist

theorem mem_of_mem_marksBehind {bound : Nat} (member : mark ∈ marksBehind bound marks) :
    mark ∈ marks := (List.dropWhile_suffix _).subset member

/-- All spans that are left end behind the place. -/
theorem lt_of_mem_marksBehind (placed : Placed marks) {bound : Nat} :
    ∀ mark ∈ marksBehind bound marks, bound < mark.bytes.stop := by
  induction marks with
  | nil => exact nofun
  | cons mark rest ih =>
      obtain ⟨above, ordered⟩ := List.pairwise_cons.mp placed.ordered
      have each : ∀ later ∈ rest, later.bytes.start < later.bytes.stop :=
        fun later member => placed.each later (List.mem_cons_of_mem _ member)
      rw [marksBehind, List.dropWhile_cons]
      split
      · exact ih ⟨each, ordered⟩
      · rename_i ends
        rw [decide_eq_true_eq] at ends
        refine List.forall_mem_cons.mpr ⟨Nat.lt_of_not_le ends, fun later member => ?_⟩
        have behind := above later member
        have some := each later member
        omega

theorem marked_joinSpace {cursor : SpanCursor} {line : WrappedLine}
    (placed : Placed cursor.marks)
    (behind : ∀ mark ∈ cursor.marks, cursor.source < mark.bytes.stop)
    (marked : Marked (line.output.map WrappedSpan.inLine) styled)
    (written : line.byte = byteLength (styled.map (·.1)) + 1) :
    Marked ((joinSpace cursor line).map WrappedSpan.inLine)
      (styled ++ [(' ', styleAt cursor.marks cursor.source)]) := by
  have size : byteLength [' '] = 1 := by decide
  have blank : Marked (line.output.map WrappedSpan.inLine) (styled ++ withStyle {} [' ']) :=
    marked.plain [' ']
  rw [joinSpace, if_pos (by omega)]
  cases first : cursor.marks with
  | nil => exact blank
  | cons mark rest =>
      rw [first] at placed behind
      rw [List.head?_cons, Option.filter_some, styleAt_cons]
      by_cases covers : mark.bytes.start ≤ cursor.source
      · rw [if_pos (decide_eq_true covers),
          if_pos ⟨covers, behind mark List.mem_cons_self⟩, map_pushSpan]
        have pushed : Marked (pushMark (line.output.map WrappedSpan.inLine) mark.style
            (line.byte - 1) line.byte) (styled ++ withStyle mark.style [' ']) :=
          marked.push (List.cons_ne_nil _ _) (by omega) (by omega)
        exact pushed
      · rw [if_neg (by simpa using covers), if_neg fun both => covers both.1,
          styleAt_eq_default]
        · exact blank
        · intro later member
          have order := (List.pairwise_cons.mp placed.ordered).1 later member
          have some := placed.each mark List.mem_cons_self
          omega

end Tables

end Kvist.Blad
