import Kvist.Blad.RenderWriter
import Kvist.Blad.Table
import Kvist.ByteText
import Kvist.Outcome

/-!
# The styles of table cells

The styles of a cell are recorded as spans of its text while it is written. Wrapping changes the
white space of the text, so the spans of the wrapped lines are found by searching the text for each
word from behind the one in front of it.
-/

set_option autoImplicit false

namespace Kvist.Blad

open ByteText (byteLength getFrom)

/-! ## The columns of ranges -/

/-- A grapheme cluster with its place and its columns. -/
structure GraphemeSpan where
  bytes : Range
  columns : Range

def graphemeSpans (rules : TextRules) : Nat → Nat → List (List Char) → List GraphemeSpan
  | _, _, [] => []
  | offset, column, grapheme :: rest =>
      let stop := offset + byteLength grapheme
      let next := column + rules.width grapheme
      ⟨⟨offset, stop⟩, ⟨column, next⟩⟩ :: graphemeSpans rules stop next rest

/-- `slice::partition_point`, where the items that pass stand in front. -/
def partitionPoint {Item : Type} (test : Item → Bool) (items : List Item) : Nat :=
  (items.takeWhile test).length

def TerminalLine.columnRanges (rules : TextRules) (line : TerminalLine) (ranges : List Range) :
    List Range :=
  let graphemes := graphemeSpans rules 0 0 (rules.graphemes line.text)
  ranges.filterMap fun range =>
    let first := partitionPoint (fun grapheme => grapheme.bytes.stop ≤ range.start) graphemes
    let last := partitionPoint (fun grapheme => grapheme.bytes.start < range.stop) graphemes
    if first < last then do
      let front ← graphemes[first]?
      let back ← graphemes[last - 1]?
      return ⟨front.columns.start, back.columns.stop⟩
    else none

namespace Tables

/-! ## The spans of a cell -/

structure CellSpan where
  style : Style
  bytes : Range

structure TableSpans where
  cells : OrderedMap (Nat ×ₗ Nat) (List CellSpan)

def TableSpans.empty : TableSpans := ⟨OrderedMap.empty⟩

/-- What a cell keeps of a style. -/
def cellStyle (style : Style) : Style :=
  { bold := style.bold, italic := style.italic, strike := style.strike, link := style.link }

/-- A span behind the others. It joins the last one if it continues it. -/
def pushMark (marks : List CellSpan) (style : Style) (start stop : Nat) : List CellSpan :=
  match marks.getLast?.filter fun mark => mark.style = style && mark.bytes.stop = start with
  | some mark => marks.dropLast ++ [{ mark with bytes := ⟨mark.bytes.start, stop⟩ }]
  | none => marks ++ [⟨style, ⟨start, stop⟩⟩]

def TableSpans.append (spans : TableSpans) (cells : List (List Char)) (row : Nat) (style : Style)
    (text : List Char) : TableSpans × List (List Char) :=
  match cells.getLast? with
  | none => (spans, cells)
  | some cell =>
      let key := toLex (row, cells.length - 1)
      let start := byteLength cell
      let cells := cells.dropLast ++ [cell ++ text]
      let style := cellStyle style
      if text.isEmpty || style = {} then (spans, cells)
      else
        let marks := (spans.cells.get key).getD []
        (⟨spans.cells.insert key (pushMark marks style start (start + byteLength text))⟩, cells)

/-! ## The spans of the wrapped lines -/

structure WrappedSpan where
  style : Style
  bytes : Range
  columns : Range

def pushSpan (output : List WrappedSpan) (style : Style) (bytes columns : Range) :
    List WrappedSpan :=
  match output.getLast?.filter fun span => span.style = style && span.bytes.stop = bytes.start with
  | some span => output.dropLast ++ [{ span with
      bytes := ⟨span.bytes.start, bytes.stop⟩
      columns := ⟨span.columns.start, max span.columns.stop columns.stop⟩ }]
  | none => output ++ [⟨style, bytes, columns⟩]

def tokenLost : String := "table span token lost during wrapping"

def noGrapheme : String := "table span has no wrapped grapheme"

def invalidSpan : String := "invalid wrapped table span"

/-- The spans that are not passed, and the place in the text of the cell. -/
structure SpanCursor where
  marks : List CellSpan
  source : Nat

/-- A wrapped line while its words are passed. -/
structure WrappedLine where
  column : Nat
  byte : Nat
  output : List WrappedSpan

/-- The spans that are not passed and do not end in front of a place. -/
def marksBehind (place : Nat) (marks : List CellSpan) : List CellSpan :=
  marks.dropWhile (·.bytes.stop ≤ place)

/-- The parts of spans in the bytes from one place to another one, counted from the first. -/
def overlapsIn (start stop : Nat) (marks : List CellSpan) : List (Style × Range) :=
  (marks.takeWhile (·.bytes.start < stop)).filterMap fun mark =>
    let overlap : Range := ⟨max start mark.bytes.start, min stop mark.bytes.stop⟩
    if overlap.start < overlap.stop then
      some (mark.style, ⟨overlap.start - start, overlap.stop - start⟩)
    else none

variable (rules : TextRules)

/-- The space in front of a word has the style of the white space that it stands for. -/
def joinSpace (cursor : SpanCursor) (line : WrappedLine) : List WrappedSpan :=
  if 0 < line.byte then
    match cursor.marks.head?.filter (·.bytes.start ≤ cursor.source) with
    | some mark => pushSpan line.output mark.style ⟨line.byte - 1, line.byte⟩
        ⟨line.column - 1, line.column⟩
    | none => line.output
  else line.output

/-- The overlaps with their columns in a line in which the word begins at a place. -/
def pushOverlaps (byte column : Nat) (output : List WrappedSpan)
    (overlaps : List ((Style × Range) × Range)) : List WrappedSpan :=
  overlaps.foldl (fun output overlap =>
    pushSpan output overlap.1.1
      ⟨byte + overlap.1.2.start, byte + overlap.1.2.stop⟩
      ⟨column + overlap.2.start, column + overlap.2.stop⟩) output

def projectWord (original : List Char) (state : SpanCursor × WrappedLine) (word : List Char) :
    Except String (SpanCursor × WrappedLine) := do
  let (cursor, line) := state
  let offset ← okOr ((getFrom cursor.source original).bind (ByteText.find word)) tokenLost
  let start := cursor.source + offset
  let stop := start + byteLength word
  let cursor := { cursor with marks := marksBehind cursor.source cursor.marks }
  let output := joinSpace cursor line
  let marks := marksBehind start cursor.marks
  let length := byteLength word
  let word := TerminalLine.new rules word
  let overlaps := overlapsIn start stop marks
  let columns := word.columnRanges rules (overlaps.map (·.2))
  ensure (columns.length == overlaps.length) noGrapheme
  return (⟨marks, stop⟩,
    { column := line.column + word.width rules + 1
      byte := line.byte + length + 1
      output := pushOverlaps line.byte line.column output (overlaps.zip columns) })

def projectLines (original : List Char) :
    SpanCursor → List (List Char) → Except String (List (List WrappedSpan))
  | _, [] => .ok []
  | cursor, line :: rest => do
      let (cursor, projected) ← (splitWhitespace line).foldlM (projectWord rules original)
        (cursor, ⟨0, 0, []⟩)
      let others ← projectLines original cursor rest
      return projected.output :: others

def TableSpans.wrapped (spans : TableSpans) (row column : Nat) (original : List Char)
    (wrapped : List (List Char)) : Except String (List (List WrappedSpan)) :=
  match spans.cells.get (toLex (row, column)) with
  | none => .ok (wrapped.map fun _ => [])
  | some marks => projectLines rules original ⟨marks, 0⟩ wrapped

/-! ## Writing -/

/-- The emphasis that a terminal shows, with the parameters that set it and take it back. -/
def emphases (style : Style) : List (Bool × Nat × Nat) :=
  [(style.bold, 1, 22), (style.italic, 3, 23), (style.strike, 9, 29)]

def emphasisText (style : Style) (enabled : Bool) : List Char :=
  (emphases style).flatMap fun (active, on, off) =>
    if active then sgrOf [if enabled then on else off] else []

def writeEmphasis (style : Style) (enabled : Bool) (writer : RenderWriter) : RenderWriter :=
  writer.write rules (emphasisText style enabled)

def markSpans (writer : RenderWriter) (spans : List WrappedSpan) : RenderWriter :=
  spans.foldl (fun writer span =>
    match span.style.link with
    | some source =>
        writer.markLinkColumns rules source span.columns.start span.columns.stop
    | none => writer) writer

def writeSpan (text : List Char) (state : Nat × RenderWriter) (span : WrappedSpan) :
    Except String (Nat × RenderWriter) := do
  let (cursor, writer) := state
  let plain ← okOr (ByteText.get cursor span.bytes.start text) invalidSpan
  let styled ← okOr (ByteText.get span.bytes.start span.bytes.stop text) invalidSpan
  let writer := writer.write rules plain
  let writer := writeEmphasis rules span.style true writer
  let writer := writer.write rules styled
  return (span.bytes.stop, writeEmphasis rules span.style false writer)

def writeCell (writer : RenderWriter) (text : List Char) (spans : List WrappedSpan) :
    Except String RenderWriter := do
  let writer := markSpans rules writer spans
  let (cursor, writer) ← spans.foldlM (writeSpan rules text) (0, writer)
  let rest ← okOr (getFrom cursor text) invalidSpan
  return writer.write rules rest

/-! ## The cells of a document -/

/-- What a document puts behind the text of a cell: a text with a style, or white space. -/
inductive CellPart where
  | styled (style : Style) (text : List Char)
  | plain (text : List Char)

def writePart (row : Nat) (state : TableSpans × List (List Char)) :
    CellPart → TableSpans × List (List Char)
  | .styled style text => state.1.append state.2 row style text
  | .plain text =>
      match state.2.getLast? with
      | none => state
      | some cell => (state.1, state.2.dropLast ++ [cell ++ text])

def writeParts (row : Nat) (state : TableSpans × List (List Char)) (parts : List CellPart) :
    TableSpans × List (List Char) :=
  parts.foldl (writePart row) (state.1, state.2 ++ [[]])

/-- A row without cells is left out. -/
def writeRow (state : TableSpans × List (List (List Char))) (cells : List (List CellPart)) :
    TableSpans × List (List (List Char)) :=
  let (spans, row) := cells.foldl (writeParts state.2.length) (state.1, [])
  (spans, if row.isEmpty then state.2 else state.2 ++ [row])

def writeTable (rows : List (List (List CellPart))) : TableSpans × List (List (List Char)) :=
  rows.foldl writeRow (TableSpans.empty, [])

end Tables

end Kvist.Blad
