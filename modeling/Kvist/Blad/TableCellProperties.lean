import Kvist.Blad.ClipProperties
import Kvist.Blad.TableSpanProperties

/-!
# Written cells

The spans of a line are written with their emphasis, and each character of the line is shown once.
The styles that a document gives the parts of a cell reach the lines that the cell is wrapped to.
-/

set_option autoImplicit false

namespace Kvist.Blad.Tables

open ByteText (byteLength Boundary)
open Assignments

variable {rules : TextRules}

/-! ## The writer -/

theorem write_line {text : List Char} (single : '\n' ∉ text) (writer : RenderWriter) :
    writer.write rules text = { writer with line := writer.line ++ text } := by
  induction text generalizing writer with
  | nil => rw [RenderWriter.write, List.append_nil]
  | cons character rest ih =>
      rw [List.mem_cons, not_or] at single
      rw [RenderWriter.write, if_neg (Ne.symm single.1), ih single.2, List.append_assoc]
      rfl

/-- The columns of links change nothing else. -/
theorem markSpans_links (spans : List WrappedSpan) (writer : RenderWriter) :
    ∃ links, markSpans rules writer spans = { writer with links := links } := by
  induction spans generalizing writer with
  | nil => exact ⟨writer.links, rfl⟩
  | cons span rest ih =>
      rw [markSpans, List.foldl_cons, ← markSpans]
      cases span.style.link with
      | none => exact ih writer
      | some source =>
          obtain ⟨links, same⟩ :=
            ih (writer.markLinkColumns rules source span.columns.start span.columns.stop)
          exact ⟨links, same⟩

/-! ## Emphasis -/

def setWhen (active : Bool) (number : Nat) (attributes : Attributes) : Attributes := fun key =>
  if active = true ∧ key = number then (toString number).toList else attributes key

def clearWhen (active : Bool) (numbers : List Nat) (attributes : Attributes) : Attributes :=
  fun key => if active = true ∧ key ∈ numbers then [] else attributes key

def emphasized (style : Style) (attributes : Attributes) : Attributes :=
  setWhen style.strike 9 (setWhen style.italic 3 (setWhen style.bold 1 attributes))

/-- None of the attributes that an emphasis sets or takes back is set. -/
def Unemphasized (attributes : Attributes) : Prop := ∀ key ∈ [1, 2, 3, 9], attributes key = []

/-- A sequence that is written for an emphasis. -/
structure EmphasisCode (number : Nat) (change : Nat → Option (List Char)) : Prop where
  formed : IsSgr (sgrOf [number])
  groups : sequenceGroups (sgrOf [number]) = [(number, (toString number).toList)]
  changes : ∀ key, groupChanges (number, (toString number).toList) key = change key

theorem EmphasisCode.draws {number : Nat} {change : Nat → Option (List Char)}
    (code : EmphasisCode number change) (active : Bool) (attributes : Attributes) :
    Draws (if active then sgrOf [number] else []) attributes []
      (assign (fun key => if active = true then change key else none) attributes) := by
  cases active with
  | false => exact draws_nil attributes
  | true =>
      have applied : applySgr attributes (sgrOf [number]) =
          assign (fun key => if true = true then change key else none) attributes := by
        rw [applySgr, code.groups]
        funext key
        exact congrArg (fun found => found.getD (attributes key)) (code.changes key)
      rw [if_pos rfl, ← applied]
      exact draws_sgr code.formed attributes

theorem setWhen_eq (active : Bool) (number : Nat) (attributes : Attributes) :
    assign (fun key => if active = true then
      if key = number then some (toString number).toList else none else none) attributes =
      setWhen active number attributes := by
  funext key
  rw [assign, setWhen]
  by_cases on : active = true
  · by_cases same : key = number
    · rw [if_pos on, if_pos same, if_pos ⟨on, same⟩]
      rfl
    · rw [if_pos on, if_neg same, if_neg fun both => same both.2]
      rfl
  · rw [if_neg on, if_neg fun both => on both.1]
    rfl

theorem clearWhen_eq (active : Bool) (numbers : List Nat) (attributes : Attributes) :
    assign (fun key => if active = true then
      if numbers.contains key then some [] else none else none) attributes =
      clearWhen active numbers attributes := by
  funext key
  rw [assign, clearWhen]
  by_cases on : active = true
  · by_cases same : key ∈ numbers
    · rw [if_pos on, if_pos (List.contains_iff_mem.mpr same), if_pos ⟨on, same⟩]
      rfl
    · rw [if_pos on, if_neg fun found => same (List.contains_iff_mem.mp found),
        if_neg fun both => same both.2]
      rfl
  · rw [if_neg on, if_neg fun both => on both.1]
    rfl

theorem emphasisText_eq (style : Style) (enabled : Bool) :
    emphasisText style enabled =
      (if style.bold then sgrOf [if enabled then 1 else 22] else []) ++
        ((if style.italic then sgrOf [if enabled then 3 else 23] else []) ++
          (if style.strike then sgrOf [if enabled then 9 else 29] else [])) := by
  rw [emphasisText, emphases, List.flatMap_cons, List.flatMap_cons, List.flatMap_singleton]

theorem draws_emphasis_on (style : Style) (attributes : Attributes) :
    Draws (emphasisText style true) attributes [] (emphasized style attributes) := by
  have bold : EmphasisCode 1 fun key => if key = 1 then some (toString 1).toList else none :=
    ⟨⟨['1'], rfl, rfl⟩, by decide, fun _ => rfl⟩
  have italic : EmphasisCode 3 fun key => if key = 3 then some (toString 3).toList else none :=
    ⟨⟨['3'], rfl, rfl⟩, by decide, fun _ => rfl⟩
  have strike : EmphasisCode 9 fun key => if key = 9 then some (toString 9).toList else none :=
    ⟨⟨['9'], rfl, rfl⟩, by decide, fun _ => rfl⟩
  have draws := (bold.draws style.bold attributes).append
    ((italic.draws style.italic _).append (strike.draws style.strike _))
  rw [setWhen_eq, setWhen_eq, setWhen_eq] at draws
  rw [emphasisText_eq]
  exact draws

theorem draws_emphasis_off (style : Style) {attributes : Attributes}
    (unemphasized : Unemphasized attributes) :
    Draws (emphasisText style false) (emphasized style attributes) [] attributes := by
  have bold : EmphasisCode 22 fun key => if [1, 2].contains key then some [] else none :=
    ⟨⟨['2', '2'], rfl, rfl⟩, by decide, fun _ => rfl⟩
  have italic : EmphasisCode 23 fun key => if [3].contains key then some [] else none :=
    ⟨⟨['2', '3'], rfl, rfl⟩, by decide, fun _ => rfl⟩
  have strike : EmphasisCode 29 fun key => if [9].contains key then some [] else none :=
    ⟨⟨['2', '9'], rfl, rfl⟩, by decide, fun _ => rfl⟩
  have draws := (bold.draws style.bold (emphasized style attributes)).append
    ((italic.draws style.italic _).append (strike.draws style.strike _))
  rw [clearWhen_eq, clearWhen_eq, clearWhen_eq] at draws
  have restored : clearWhen style.strike [9] (clearWhen style.italic [3]
      (clearWhen style.bold [1, 2] (emphasized style attributes))) = attributes := by
    funext key
    have unset := unemphasized key
    simp only [clearWhen, emphasized, setWhen, List.mem_cons, List.not_mem_nil, or_false]
    grind
  rw [restored] at draws
  rw [emphasisText_eq]
  exact draws

theorem single_emphasisText (style : Style) (enabled : Bool) :
    '\n' ∉ emphasisText style enabled := by
  have every : ∀ bold italic strike enabled : Bool, '\n' ∉
      (if bold then sgrOf [if enabled then 1 else 22] else []) ++
        ((if italic then sgrOf [if enabled then 3 else 23] else []) ++
          (if strike then sgrOf [if enabled then 9 else 29] else [])) := by decide
  rw [emphasisText_eq]
  exact every _ _ _ _

/-! ## Writing a line -/

def shownWith (attributes : Attributes) (styled : List (Char × Style)) : List Blad.Cell :=
  styled.map fun styled => (styled.1, emphasized styled.2 attributes)

theorem shownWith_withStyle (attributes : Attributes) (style : Style) (text : List Char) :
    shownWith attributes (withStyle style text) =
      text.map fun character => (character, emphasized style attributes) := by
  rw [shownWith, withStyle, List.map_map]
  rfl

/-- What is written from a place of the line on. -/
def writeFrom (rules : TextRules) (text : List Char) (state : Nat × RenderWriter)
    (spans : List WrappedSpan) : Except String RenderWriter := do
  let (cursor, writer) ← spans.foldlM (writeSpan rules text) state
  let rest ← okOr (ByteText.getFrom cursor text) invalidSpan
  return writer.write rules rest

theorem writeSpan_next {text before gap middle after : List Char} {span : WrappedSpan}
    (whole : text = before ++ (gap ++ (middle ++ after)))
    (start : byteLength before + byteLength gap = span.bytes.start)
    (stop : span.bytes.start + byteLength middle = span.bytes.stop) (single : '\n' ∉ text)
    (writer : RenderWriter) :
    writeSpan rules text (byteLength before, writer) span = .ok (span.bytes.stop,
      { writer with line := writer.line ++ (gap ++ (emphasisText span.style true ++
        (middle ++ emphasisText span.style false))) }) := by
  have first : ByteText.get (byteLength before) span.bytes.start text = some gap := by
    rw [whole, ← start]
    exact ByteText.get_append _ _ _
  have second : ByteText.get span.bytes.start span.bytes.stop text = some middle := by
    rw [← stop, ← start, whole, ← List.append_assoc, ← ByteText.byteLength_append]
    exact ByteText.get_append _ _ _
  have apart : '\n' ∉ gap ∧ '\n' ∉ middle := by
    rw [whole] at single
    simp only [List.mem_append, not_or] at single
    exact ⟨single.2.1, single.2.2.1⟩
  rw [writeSpan]
  dsimp only
  rw [first, second]
  simp only [okOr_some, ok_bind, writeEmphasis, write_line apart.1, write_line apart.2,
    write_line (single_emphasisText _ _), List.append_assoc]
  rfl

/-- What is written behind a place shows what is left of the line with its styles. -/
theorem writeFrom_draws {spans : List WrappedSpan} {text before tail : List Char}
    (whole : text = before ++ tail) (placed : Placed (spans.map WrappedSpan.inLine))
    (boundaries : ∀ mark ∈ spans.map WrappedSpan.inLine, Boundary text mark.bytes.start ∧
      Boundary text mark.bytes.stop)
    (ahead : ∀ mark ∈ spans.map WrappedSpan.inLine, byteLength before ≤ mark.bytes.start)
    (plain : '\x1b' ∉ text) (single : '\n' ∉ text) (writer : RenderWriter) :
    ∃ emitted, writeFrom rules text (byteLength before, writer) spans =
        .ok { writer with line := writer.line ++ emitted } ∧
      ∀ attributes, Unemphasized attributes → Draws emitted attributes
        (shownWith attributes
          (styledFrom (spans.map WrappedSpan.inLine) (byteLength before) tail)) attributes := by
  induction spans generalizing before tail writer with
  | nil =>
      refine ⟨tail, ?_, fun attributes _ => ?_⟩
      · have left : '\n' ∉ tail := fun member => single (by rw [whole]; simp [member])
        rw [writeFrom, List.foldlM_nil, pure_eq_ok, ok_bind]
        dsimp only
        rw [whole, ByteText.getFrom_append, okOr_some, ok_bind, write_line left]
        rfl
      · have left : '\x1b' ∉ tail := fun member => plain (by rw [whole]; simp [member])
        rw [List.map_nil, styledFrom_one fun _ _ => rfl, shownWith_withStyle]
        exact draws_plain left attributes
  | cons span rest ih =>
      rw [List.map_cons] at placed boundaries ahead ⊢
      rw [List.forall_mem_cons] at boundaries ahead
      obtain ⟨above, ordered⟩ := List.pairwise_cons.mp placed.ordered
      have positive : span.bytes.start < span.bytes.stop := placed.each _ List.mem_cons_self
      obtain ⟨⟨first, second⟩, others⟩ := boundaries
      have order : byteLength before ≤ span.bytes.start := ahead.1
      have inside := second.le
      rw [whole, ByteText.byteLength_append] at inside
      rw [whole, ← List.append_nil tail] at first second
      have firstIn := first.within ahead.1 (first.le.trans (by simp))
      have secondIn := second.within (order.trans positive.le) inside
      obtain ⟨gap, middle, after, rfl, gapSize, middleSize⟩ :=
        firstIn.split secondIn (Nat.sub_le_sub_right positive.le _)
      have start : byteLength before + byteLength gap = span.bytes.start := by
        rw [gapSize]
        exact Nat.add_sub_of_le order
      have stop : span.bytes.start + byteLength middle = span.bytes.stop := by
        rw [middleSize]
        change _ + ((span.bytes.stop - _) - (span.bytes.start - _)) = _
        omega
      have passed : byteLength (before ++ (gap ++ middle)) = span.bytes.stop := by
        rw [ByteText.byteLength_append, ByteText.byteLength_append, ← stop, ← start, Nat.add_assoc]
      have wholeNext : text = (before ++ (gap ++ middle)) ++ after := by
        rw [whole]
        simp only [List.append_assoc]
      have aheadNext : ∀ mark ∈ rest.map WrappedSpan.inLine,
          byteLength (before ++ (gap ++ middle)) ≤ mark.bytes.start := by
        rw [passed]
        exact above
      obtain ⟨emitted, written, draws⟩ := ih wholeNext
        ⟨fun mark member => placed.each mark (List.mem_cons_of_mem _ member), ordered⟩ others
        aheadNext { writer with line := writer.line ++ (gap ++ (emphasisText span.style true ++
          (middle ++ emphasisText span.style false))) }
      have plainParts : '\x1b' ∉ gap ∧ '\x1b' ∉ middle := by
        rw [whole] at plain
        simp only [List.mem_append, not_or] at plain
        exact ⟨plain.2.1, plain.2.2.1⟩
      refine ⟨(gap ++ (emphasisText span.style true ++ (middle ++
        emphasisText span.style false))) ++ emitted, ?_, fun attributes unemphasized => ?_⟩
      · rw [writeFrom, List.foldlM_cons, writeSpan_next whole start stop single, ok_bind]
        rw [passed, writeFrom] at written
        rw [written, List.append_assoc]
      · have styles := @styledFrom_cons (rest.map WrappedSpan.inLine) span.inLine
          (byteLength before) span.bytes.start span.bytes.stop gap middle after placed start stop
          (le_max_right _ _) le_rfl le_rfl (.inl le_rfl)
        have drawn := ((draws_plain plainParts.1 attributes).append
          ((draws_emphasis_on span.style attributes).append
            ((draws_plain plainParts.2 _).append
              (draws_emphasis_off span.style unemphasized)))).append
          (draws attributes unemphasized)
        have cells : shownWith attributes (styledFrom (span.inLine :: rest.map WrappedSpan.inLine)
            (byteLength before) (gap ++ (middle ++ after))) =
            (gap.map fun character => (character, attributes)) ++
              ([] ++ ((middle.map fun character =>
                (character, emphasized span.style attributes)) ++ [])) ++
              shownWith attributes (styledFrom (rest.map WrappedSpan.inLine)
                (byteLength (before ++ (gap ++ middle))) after) := by
          rw [styles, passed, shownWith, List.map_append, List.map_append, ← shownWith, ← shownWith,
            ← shownWith, shownWith_withStyle, shownWith_withStyle, List.nil_append, List.append_nil]
          rfl
        rw [cells]
        exact drawn

theorem writeCell_draws {spans : List WrappedSpan} {styled : List (Char × Style)}
    (marked : Marked (spans.map WrappedSpan.inLine) styled) (plain : '\x1b' ∉ styled.map (·.1))
    (single : '\n' ∉ styled.map (·.1)) (writer : RenderWriter) :
    ∃ emitted links, writeCell rules writer (styled.map (·.1)) spans =
        .ok { writer with line := writer.line ++ emitted, links := links } ∧
      ∀ attributes, Unemphasized attributes →
        Draws emitted attributes (shownWith attributes styled) attributes := by
  obtain ⟨links, same⟩ := @markSpans_links rules spans writer
  obtain ⟨emitted, written, draws⟩ := @writeFrom_draws rules spans (styled.map (·.1)) []
    (styled.map (·.1)) rfl
    marked.placed marked.boundaries (fun _ _ => Nat.zero_le _) plain single
    { writer with links := links }
  refine ⟨emitted, links, ?_, ?_⟩
  · rw [writeCell, same]
    exact written
  · intro attributes unemphasized
    have shown := draws attributes unemphasized
    rwa [ByteText.byteLength_nil, marked.same] at shown

/-! ## The cells of a document -/

def CellPart.text : CellPart → List Char
  | .styled _ text => text
  | .plain text => text

def partsText (parts : List CellPart) : List Char := parts.flatMap CellPart.text

def CellPart.styles (kept : Style → Style) : CellPart → List (Char × Style)
  | .styled style text => withStyle (kept style) text
  | .plain text => withStyle {} text

def partsStyles (kept : Style → Style) (parts : List CellPart) : List (Char × Style) :=
  parts.flatMap (CellPart.styles kept)

theorem map_partsStyles (kept : Style → Style) (parts : List CellPart) :
    (partsStyles kept parts).map (·.1) = partsText parts := by
  rw [partsStyles, partsText, List.map_flatMap]
  congr 1
  funext part
  cases part with
  | styled style text => exact map_withStyle _ text
  | plain text => exact map_withStyle _ text

def Follows (spans : TableSpans) (done : Nat → Nat → List CellPart) : Prop :=
  ∀ row column, Marked ((spans.cells.get (toLex (row, column))).getD [])
    (partsStyles cellStyle (done row column))

def withParts (done : Nat → Nat → List CellPart) (row column : Nat) (parts : List CellPart) :
    Nat → Nat → List CellPart := fun otherRow other =>
  if otherRow = row ∧ other = column then done row column ++ parts else done otherRow other

variable {spans : TableSpans} {done : Nat → Nat → List CellPart} {row : Nat}

theorem follows_withParts {spans' : TableSpans} {column : Nat} {parts : List CellPart}
    (follows : Follows spans done)
    (others : ∀ key, key ≠ toLex (row, column) → spans'.cells.get key = spans.cells.get key)
    (here : Marked ((spans'.cells.get (toLex (row, column))).getD [])
      (partsStyles cellStyle (done row column ++ parts))) :
    Follows spans' (withParts done row column parts) := by
  intro otherRow other
  rw [withParts]
  by_cases same : otherRow = row ∧ other = column
  · rw [if_pos same, same.1, same.2]
    exact here
  · rw [if_neg same, others]
    · exact follows otherRow other
    · intro equal
      exact same (Prod.mk.inj (toLex.injective equal))

theorem writePart_follows (follows : Follows spans done) (front : List (List Char))
    (part : CellPart) :
    ∃ spans', writePart row (spans, front ++ [partsText (done row front.length)]) part =
        (spans', front ++ [partsText (done row front.length ++ [part])]) ∧
      Follows spans' (withParts done row front.length [part]) := by
  have old := follows row front.length
  have whole : partsStyles cellStyle (done row front.length ++ [part]) =
      partsStyles cellStyle (done row front.length) ++ part.styles cellStyle := by
    rw [partsStyles, List.flatMap_append, List.flatMap_singleton]
    rfl
  have text : partsText (done row front.length ++ [part]) =
      partsText (done row front.length) ++ part.text := by
    rw [partsText, List.flatMap_append, List.flatMap_singleton]
    rfl
  have size := congrArg byteLength (map_partsStyles cellStyle (done row front.length))
  cases part with
  | plain added =>
      refine ⟨spans, ?_, follows_withParts follows (fun _ _ => rfl) ?_⟩
      · rw [writePart, List.getLast?_concat, List.dropLast_concat, text]
        rfl
      · rw [whole]
        exact old.plain added
  | styled style added =>
      rw [writePart, TableSpans.append, List.getLast?_concat]
      dsimp only
      rw [List.dropLast_concat, List.length_append, List.length_singleton, Nat.add_sub_cancel, text]
      split
      · rename_i unmarked
        refine ⟨spans, rfl, follows_withParts follows (fun _ _ => rfl) ?_⟩
        rw [whole]
        rcases (Bool.or_eq_true _ _).mp unmarked with empty | plain
        · rw [List.isEmpty_iff.mp empty]
          exact old.plain []
        · rw [CellPart.styles, of_decide_eq_true plain]
          exact old.plain added
      · rename_i marked
        rw [Bool.or_eq_true, not_or] at marked
        refine ⟨_, rfl, follows_withParts follows (fun key different => ?_) ?_⟩
        · exact OrderedMap.get_insert_other different
        · rw [OrderedMap.get_insert_same, whole]
          exact old.push (fun none => marked.1 (List.isEmpty_iff.mpr none)) size rfl

theorem withParts_append (column : Nat) (parts more : List CellPart) :
    withParts (withParts done row column parts) row column more =
      withParts done row column (parts ++ more) := by
  funext otherRow other
  simp only [withParts, and_self, if_true]
  by_cases same : otherRow = row ∧ other = column
  · rw [if_pos same, if_pos same, List.append_assoc]
  · rw [if_neg same, if_neg same, if_neg same]

theorem foldl_writePart (follows : Follows spans done) (front : List (List Char))
    (parts : List CellPart) :
    ∃ spans', parts.foldl (writePart row) (spans, front ++ [partsText (done row front.length)]) =
        (spans', front ++ [partsText (done row front.length ++ parts)]) ∧
      Follows spans' (withParts done row front.length parts) := by
  induction parts generalizing spans done with
  | nil =>
      refine ⟨spans, by rw [List.append_nil, List.foldl_nil], ?_⟩
      exact follows_withParts follows (fun _ _ => rfl) (by
        rw [List.append_nil]
        exact follows row front.length)
  | cons part rest ih =>
      obtain ⟨middle, first, follows⟩ := @writePart_follows spans done row follows front part
      have here : withParts done row front.length [part] row front.length =
          done row front.length ++ [part] := if_pos ⟨rfl, rfl⟩
      obtain ⟨spans', others, follows⟩ := ih follows
      rw [here] at others
      refine ⟨spans', ?_, ?_⟩
      · rw [List.foldl_cons, first, others, List.append_assoc]
        rfl
      · rwa [withParts_append] at follows

def withRow (done : Nat → Nat → List CellPart) (row : Nat) (cells : List (List CellPart)) :
    Nat → Nat → List CellPart := fun otherRow other =>
  if otherRow = row then (cells[other]?).getD [] else done otherRow other

theorem withRow_concat (cells : List (List CellPart)) (parts : List CellPart) :
    withParts (withRow done row cells) row cells.length parts =
      withRow done row (cells ++ [parts]) := by
  funext otherRow other
  simp only [withParts, withRow, if_true]
  by_cases same : otherRow = row
  · by_cases last : other = cells.length
    · rw [if_pos ⟨same, last⟩, if_pos same, last, List.getElem?_eq_none le_rfl,
        List.getElem?_concat_length]
      rfl
    · rw [if_neg fun both => last both.2, if_pos same, if_pos same]
      rcases Nat.lt_or_ge other cells.length with inside | outside
      · rw [List.getElem?_append_left inside]
      · rw [List.getElem?_eq_none outside, List.getElem?_eq_none]
        rw [List.length_append, List.length_singleton]
        omega
  · rw [if_neg fun both => same both.1, if_neg same, if_neg same]

theorem foldl_writeParts {cells : List (List CellPart)} (front : List (List CellPart))
    (follows : Follows spans (withRow done row front)) :
    ∃ spans', cells.foldl (writeParts row) (spans, front.map partsText) =
        (spans', (front ++ cells).map partsText) ∧
      Follows spans' (withRow done row (front ++ cells)) := by
  induction cells generalizing spans front with
  | nil =>
      rw [List.append_nil]
      exact ⟨spans, rfl, follows⟩
  | cons parts rest ih =>
      have fresh : withRow done row front row (front.map partsText).length = [] := by
        rw [withRow, if_pos rfl, List.length_map, List.getElem?_eq_none le_rfl]
        rfl
      obtain ⟨middle, first, written⟩ := foldl_writePart follows (front.map partsText) parts
      rw [fresh, List.nil_append] at first
      rw [List.length_map, withRow_concat] at written
      obtain ⟨spans', others, all⟩ := ih (front ++ [parts]) written
      refine ⟨spans', ?_, ?_⟩
      · rw [List.foldl_cons, writeParts]
        refine (congrArg (rest.foldl (writeParts row)) first).trans ?_
        rw [List.map_append, List.map_singleton, List.append_assoc] at others
        exact others
      · rwa [List.append_assoc] at all

def partsAt (rows : List (List (List CellPart))) (row column : Nat) : List CellPart :=
  ((rows[row]?).bind (·[column]?)).getD []

theorem withRow_partsAt (rows : List (List (List CellPart))) (cells : List (List CellPart)) :
    withRow (partsAt rows) rows.length cells = partsAt (rows ++ [cells]) := by
  funext otherRow other
  rw [withRow, partsAt, partsAt]
  by_cases same : otherRow = rows.length
  · rw [if_pos same, same, List.getElem?_concat_length, Option.bind_some]
  · rw [if_neg same]
    rcases Nat.lt_or_ge otherRow rows.length with inside | outside
    · rw [List.getElem?_append_left inside]
    · rw [List.getElem?_eq_none outside, List.getElem?_eq_none]
      rw [List.length_append, List.length_singleton]
      omega

theorem withRow_nil (rows : List (List (List CellPart))) :
    withRow (partsAt rows) rows.length [] = partsAt rows := by
  funext otherRow other
  rw [withRow]
  split
  · rename_i same
    rw [same, partsAt, List.getElem?_eq_none le_rfl]
    rfl
  · rfl

/-- The rows that have cells. -/
def filled (rows : List (List (List CellPart))) : List (List (List CellPart)) :=
  rows.filter fun cells => !cells.isEmpty

theorem foldl_writeRow {rows done : List (List (List CellPart))} {spans : TableSpans}
    (follows : Follows spans (partsAt done)) :
    ∃ spans', rows.foldl writeRow (spans, done.map (·.map partsText)) =
        (spans', (done ++ filled rows).map (·.map partsText)) ∧
      Follows spans' (partsAt (done ++ filled rows)) := by
  induction rows generalizing spans done with
  | nil =>
      rw [filled, List.filter_nil, List.append_nil]
      exact ⟨spans, rfl, follows⟩
  | cons cells rest ih =>
      have start : Follows spans (withRow (partsAt done) done.length []) := by
        rwa [withRow_nil]
      obtain ⟨middle, all, written⟩ :=
        @foldl_writeParts spans (partsAt done) done.length cells [] start
      rw [List.nil_append] at all written
      have length : (done.map (·.map partsText)).length = done.length := List.length_map _
      cases cells with
      | nil =>
          obtain ⟨spans', others, last⟩ := ih follows
          exact ⟨spans', others, last⟩
      | cons parts cells =>
          rw [withRow_partsAt] at written
          obtain ⟨spans', others, last⟩ := ih written
          have kept : filled ((parts :: cells) :: rest) = (parts :: cells) :: filled rest := rfl
          rw [kept]
          refine ⟨spans', ?_, ?_⟩
          · rw [List.foldl_cons, writeRow, length]
            refine (congrArg (rest.foldl writeRow) ?_).trans (others.trans ?_)
            · dsimp only
              rw [List.map_nil] at all
              rw [all, List.map_append, List.map_singleton]
              rfl
            · rw [List.append_assoc]
              rfl
          · rwa [List.append_assoc] at last

theorem writeTable_follows (rows : List (List (List CellPart))) :
    (writeTable rows).2 = (filled rows).map (·.map partsText) ∧
      Follows (writeTable rows).1 (partsAt (filled rows)) := by
  have start : Follows TableSpans.empty (partsAt []) := fun _ _ => marked_nil
  obtain ⟨spans, all, follows⟩ := @foldl_writeRow rows [] _ start
  rw [List.nil_append] at all follows
  have written : writeTable rows = _ := all
  rw [written]
  exact ⟨rfl, follows⟩

/-! ## The lines of a cell -/

/-- The lines of a cell have its words in their order, each character of a word with what is kept of
the style of its part, and each space with what is kept of the first white space behind the word in
front of it. Each line is written once. -/
structure FollowsText (rules : TextRules) (kept : Style → Style) (parts : List CellPart)
    (lines : List (List Char)) (projected : List (List WrappedSpan)) : Prop where
  length : lines.length = projected.length
  words : lines.flatMap splitWhitespace = splitWhitespace (partsText parts)
  styles : ∃ groups : List (List Token), groups.flatten = tokens (partsStyles kept parts) ∧
    List.zipWith (fun line spans => styledFrom (spans.map WrappedSpan.inLine) 0 line) lines
      projected = groups.map joinTokens
  written : ∀ writer, List.Forall₂ (fun line spans => ∃ emitted links,
    writeCell rules writer line spans =
        .ok { writer with line := writer.line ++ emitted, links := links } ∧
      ∀ attributes, Unemphasized attributes → Draws emitted attributes
        (shownWith attributes (styledFrom (spans.map WrappedSpan.inLine) 0 line)) attributes)
    lines projected

theorem inert_joined {group : List Token} {text : List Char} (inert : Inert text)
    (words : ∀ token ∈ group, IsWord token.text ∧ ∀ character ∈ token.text, character ∈ text) :
    '\x1b' ∉ (joinTokens group).map (·.1) ∧ '\n' ∉ (joinTokens group).map (·.1) := by
  have each : ∀ character ∈ (joinTokens group).map (·.1),
      character = ' ' ∨ isControl character = false := by
    intro character member
    rw [map_joinTokens] at member
    rcases Text.mem_intercalate member with space | ⟨word, present, inside⟩
    · exact .inl space
    · obtain ⟨token, chosen, rfl⟩ := List.mem_map.mp present
      obtain ⟨isWord, part⟩ := words token chosen
      exact .inr (inert.word part isWord.solid character inside)
  constructor
  · intro member
    rcases each _ member with space | visible
    · exact absurd space (by decide)
    · exact absurd visible (by decide)
  · intro member
    rcases each _ member with space | visible
    · exact absurd space (by decide)
    · exact absurd visible (by decide)

theorem mem_of_mem_splitWhitespace {text word : List Char} (member : word ∈ splitWhitespace text) :
    ∀ character ∈ word, character ∈ text := by
  induction text using @cut_induction _ Text.isWhitespace with
  | blanks text white =>
      rw [splitWhitespace_white white] at member
      exact absurd member List.not_mem_nil
  | cut blank front rest cut ih =>
      rw [splitWhitespace_cut cut] at member
      intro character inside
      rw [List.mem_append, List.mem_append]
      rcases List.mem_cons.mp member with rfl | later
      · exact .inr (.inl inside)
      · exact .inr (.inr (ih later character inside))

theorem lines_follow {spans : TableSpans} {row column : Nat} {parts : List CellPart}
    (inert : Inert (partsText parts))
    (marked : Marked ((spans.cells.get (toLex (row, column))).getD [])
      (partsStyles cellStyle parts)) (width : Nat) :
    ∃ projected, spans.wrapped rules row column (partsText parts)
        ((Cell.new rules (partsText parts)).wrap width) = .ok projected ∧
      FollowsText rules cellStyle parts ((Cell.new rules (partsText parts)).wrap width)
        projected := by
  have text := map_partsStyles cellStyle parts
  obtain ⟨groups, words, lines⟩ := @wrap_groups rules (partsText parts) inert width
  have same : groups.flatten = (tokens (partsStyles cellStyle parts)).map Token.text := by
    rw [map_tokens, text, words]
  obtain ⟨parts', flat, rfl⟩ := exists_groups same
  have wordsOf : ∀ token ∈ parts'.flatten, IsWord token.text ∧
      ∀ character ∈ token.text, character ∈ partsText parts := by
    intro token member
    have present : token.text ∈ splitWhitespace (partsText parts) := by
      rw [← words, ← List.map_flatten]
      exact List.mem_map_of_mem member
    exact ⟨isWord_of_mem present, mem_of_mem_splitWhitespace present⟩
  rw [← text] at inert
  obtain ⟨projected, all, each⟩ :=
    @wrapped_groups rules _ spans row column inert marked parts' flat.symm
  rw [text] at all inert
  rw [List.map_map] at lines
  have joined : (Cell.new rules (partsText parts)).wrap width =
      parts'.map fun group => (joinTokens group).map (·.1) := by
    rw [lines]
    exact List.map_congr_left fun group _ => (map_joinTokens group).symm
  refine ⟨projected, ?_, ?_, ?_, ⟨parts', flat, ?_⟩, fun writer => ?_⟩
  · rw [lines]
    exact all
  · rw [joined, List.length_map]
    exact each.length_eq
  · rw [lines, List.flatMap_map, ← words, List.flatMap_def]
    congr 1
    refine List.map_congr_left fun group member => ?_
    refine splitWhitespace_joined (List.forall_mem_map.mpr fun token inside => ?_)
    exact (wordsOf token (List.mem_flatten.mpr ⟨group, member, inside⟩)).1
  · rw [joined]
    clear joined lines same words flat wordsOf all
    induction each with
    | nil => rfl
    | cons marked _ ih => rw [List.map_cons, List.zipWith_cons_cons, marked.same, ih, List.map_cons]
  · rw [joined, List.forall₂_map_left_iff]
    have plain : ∀ group ∈ parts', '\x1b' ∉ (joinTokens group).map (·.1) ∧
        '\n' ∉ (joinTokens group).map (·.1) := fun group member =>
      inert_joined inert fun token inside =>
        wordsOf token (List.mem_flatten.mpr ⟨group, member, inside⟩)
    refine ((List.forall₂_and_left _ _).mpr ⟨plain, each⟩).imp ?_
    rintro group spans ⟨⟨escapes, single⟩, marked⟩
    obtain ⟨emitted, links, written, draws⟩ :=
      @writeCell_draws rules _ _ marked escapes single writer
    refine ⟨emitted, links, written, fun attributes unemphasized => ?_⟩
    rw [marked.same]
    exact draws attributes unemphasized

/-- For each cell of a table that is written from parts without control characters the spans are
found on all wrapped lines. The lines have the words of the cell with the bold, italic, struck and
linked text of its parts, and each is written once. -/
theorem styling_follows_text (rules : TextRules) (rows : List (List (List CellPart)))
    (inert : ∀ cells ∈ rows, ∀ parts ∈ cells, Inert (partsText parts)) {row column : Nat}
    {parts : List CellPart} (present : (filled rows)[row]?.bind (·[column]?) = some parts)
    (width : Nat) :
    let original := partsText parts
    let lines := (Cell.new rules original).wrap width
    (writeTable rows).2[row]?.bind (·[column]?) = some original ∧
      ∃ projected, (writeTable rows).1.wrapped rules row column original lines = .ok projected ∧
        FollowsText rules cellStyle parts lines projected := by
  intro original lines
  obtain ⟨texts, follows⟩ := writeTable_follows rows
  obtain ⟨cells, found, here⟩ := Option.bind_eq_some_iff.mp present
  have marked := follows row column
  rw [partsAt, present] at marked
  refine ⟨?_, lines_follow ?_ marked width⟩
  · rw [texts, List.getElem?_map, found, Option.map_some, Option.bind_some, List.getElem?_map, here]
    rfl
  · exact inert cells (List.mem_of_mem_filter (List.mem_of_getElem? found)) parts
      (List.mem_of_getElem? here)

/-- A bold word in two parts behind other text. -/
theorem styling_follows_bold_word :
    let parts := [.plain "to ".toList, .styled { bold := true } "day".toList,
      .styled { italic := true } " s".toList]
    ∃ projected, (writeTable [[parts]]).1.wrapped accentRules 0 0 "to day s".toList
        ((Cell.new accentRules "to day s".toList).wrap 6) = .ok projected ∧
      FollowsText accentRules cellStyle parts ((Cell.new accentRules "to day s".toList).wrap 6)
        projected := by
  intro parts
  have inert : ∀ cells ∈ [[parts]], ∀ parts ∈ cells, Inert (partsText parts) := by
    intro cells member others inside
    rw [List.mem_singleton.mp member] at inside
    rw [List.mem_singleton.mp inside]
    have plain : ("to day s".toList.all fun character => !isControl character) = true := by
      rw [String.toList_ofList]
      decide
    intro character member control
    have none := List.all_eq_true.mp plain character member
    rw [control] at none
    cases none
  exact (@styling_follows_text accentRules [[parts]] inert 0 0 parts rfl 6).2

/-- A reversed character is not shown reversed in a table. -/
theorem reverse_is_dropped :
    let parts := [.styled { reverse := true } ['a']]
    ¬ ∃ projected, (writeTable [[parts]]).1.wrapped accentRules 0 0 ['a']
        ((Cell.new accentRules ['a']).wrap 1) = .ok projected ∧
      FollowsText accentRules id parts ((Cell.new accentRules ['a']).wrap 1) projected := by
  rintro parts ⟨projected, wrapped, follows⟩
  have lines : (Cell.new accentRules ['a']).wrap 1 = [['a']] := by decide
  rw [lines] at wrapped follows
  obtain rfl : [[]] = projected := Except.ok.inj wrapped
  obtain ⟨groups, flat, same⟩ := follows.styles
  have shown : groups.map joinTokens = [[('a', {})]] := same.symm
  obtain ⟨group, rfl, single⟩ := List.map_eq_singleton_iff.mp shown
  rw [List.flatten_singleton] at flat
  have word : tokens (partsStyles id parts) = [⟨[('a', { reverse := true })], {}⟩] := rfl
  rw [flat, word, joinTokens] at single
  exact absurd single (by decide)

end Kvist.Blad.Tables
