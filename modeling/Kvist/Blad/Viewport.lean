import Kvist.Assignments
import Kvist.Blad.TerminalText
import Kvist.Json.Bytes
import Kvist.Transitions

/-!
# The viewport

A frame is composed as complete rows. The painter writes those that differ from the rows of the last
successful frame of the same size, and remembers a frame only when all of it has been written.
-/

set_option autoImplicit false

namespace Kvist.Blad

open Assignments

/-! ## Frames -/

structure LinkSpan where
  row : Nat
  start : Nat
  stop : Nat

structure Document where
  lines : List TerminalLine
  contentWidth : Nat
  gutter : Nat
  chrome : List Char
  search : List Char
  selection : List Char

structure Frame where
  columns : Nat
  rows : Nat
  y : Nat
  x : Nat
  header : List Char
  footer : List Char
  matchSpans : List LinkSpan
  activeSpans : List LinkSpan

/-- Control characters and those that change the direction of a text. -/
def isActiveControl (character : Char) : Bool :=
  isControl character || ('\u202a' ≤ character && character ≤ '\u202e') ||
    ('\u2066' ≤ character && character ≤ '\u2069')

def inertSource : List Char → List Char
  | [] => []
  | character :: rest =>
      if character = '\r' ∧ rest.head? = some '\n' then inertSource rest
      else if isActiveControl character ∧ character ≠ '\n' ∧ character ≠ '\t' then
        escapedControl character ++ inertSource rest
      else character :: inertSource rest

/-- A span behind the ranges of its row so far. It joins the last one if it begins inside it. -/
def joinSpan (ranges : List Range) (span : LinkSpan) : List Range :=
  match ranges.getLast? with
  | some last =>
      if span.start ≤ last.stop then
        ranges.dropLast ++ [{ last with stop := max last.stop span.stop }]
      else ranges ++ [⟨span.start, span.stop⟩]
  | none => [⟨span.start, span.stop⟩]

def rowRanges (spans : List LinkSpan) (row : Nat) : List Range × List LinkSpan :=
  ((spans.takeWhile (·.row = row)).foldl joinSpan [], spans.dropWhile (·.row = row))

def alignRight (width : Nat) (text : List Char) : List Char :=
  List.replicate (width - text.length) ' ' ++ text

variable (rules : TextRules)

def pad (row : List Char) (width : Nat) : List Char :=
  row ++ resetText ++ List.replicate (width - (TerminalLine.new rules row).width rules) ' '

/-- The first or the last row. -/
def chromeRow (document : Document) (frame : Frame) (text : List Char) : List Char :=
  document.chrome ++ (TerminalLine.new rules (inertSource text)).clip rules 0 frame.columns

/-- The number in front of a line. -/
def gutterText (document : Document) (frame : Frame) (index : Nat) : List Char :=
  if 0 < document.gutter then
    (TerminalLine.new rules (alignRight (document.gutter - 1) (toString (index + 1)).toList ++
      [' '])).clip rules 0 (frame.columns - 1)
  else []

def contentRow (document : Document) (frame : Frame) (index : Nat) (line : TerminalLine)
    (ranges active : List Range) : List Char :=
  gutterText rules document frame index ++
    line.clipWithOverlays rules frame.x document.contentWidth ranges document.search active
      document.selection

def contentRows (document : Document) (frame : Frame) :
    List TerminalLine → Nat → List LinkSpan → List LinkSpan → List (List Char)
  | [], _, _, _ => []
  | line :: rest, index, spans, activeSpans =>
      let (ranges, spans) := rowRanges spans index
      let (active, activeSpans) := rowRanges activeSpans index
      contentRow rules document frame index line ranges active ::
        contentRows document frame rest (index + 1) spans activeSpans

/-- The scrollbar in the last column, for a part of the document. -/
def scrollbar (total height y : Nat) (row : List Char) (index : Nat) : List Char :=
  let thumb := min (max (height * height / total) 1) height
  let y := min y (total - height)
  let top := y * (height - thumb) / (total - height)
  row.dropLast ++ [if top ≤ index ∧ index < top + thumb then '█' else '░']

def contentPart (document : Document) (frame : Frame) : List (List Char) :=
  let height := frame.rows - 2
  let lines := (document.lines.drop frame.y).take height
  let rows := contentRows rules document frame lines frame.y
    (frame.matchSpans.dropWhile (·.row < frame.y)) (frame.activeSpans.dropWhile (·.row < frame.y))
  let rows := (rows ++ List.replicate (height - rows.length) []).map fun row =>
    pad rules row frame.columns
  if 0 < height ∧ height < document.lines.length then
    rows.zipIdx.map fun row => scrollbar document.lines.length height frame.y row.1 row.2
  else rows

def compose (document : Document) (frame : Frame) : List (List Char) :=
  if frame.columns = 0 ∨ frame.rows = 0 then []
  else
    pad rules (chromeRow rules document frame frame.header) frame.columns ::
      (contentPart rules document frame ++
        if 1 < frame.rows then
          [pad rules (chromeRow rules document frame frame.footer) frame.columns]
        else [])

/-! ## The painter -/

/-- The texts that control the terminal. -/
structure TerminalCodes where
  beginUpdate : List Char
  endUpdate : List Char
  moveTo : Nat → Nat → List Char

structure Painter where
  previous : List (List Char)
  size : Option (Nat × Nat)
  deriving DecidableEq

def Painter.empty : Painter := ⟨[], none⟩

def Painter.invalidate (painter : Painter) : Painter := { painter with size := none }

variable (codes : TerminalCodes)

/-- The rows that are written, with their places. -/
def Painter.changes (painter : Painter) (size : Nat × Nat) (rows : List (List Char)) :
    List (Nat × List Char) :=
  (rows.zipIdx.filter fun row =>
    painter.size ≠ some size ∨ painter.previous[row.2]? ≠ some row.1).map fun row => (row.2, row.1)

def changeBytes (change : Nat × List Char) : List UInt8 :=
  Json.utf8 (codes.moveTo 0 change.1) ++ Json.utf8 change.2

def paintOutput (changes : List (Nat × List Char)) : List UInt8 :=
  if changes.isEmpty then []
  else Json.utf8 codes.beginUpdate ++ changes.flatMap (changeBytes codes) ++
    Json.utf8 codes.endUpdate

/-- The painter after a frame, what was written of it, and whether it was written. A writer may fail
when it has taken a number of bytes, and also when it has taken all of them. -/
def Painter.paint (painter : Painter) (document : Document) (frame : Frame)
    (failure : Option Nat) : Painter × List UInt8 × Bool :=
  let size := (frame.columns, frame.rows)
  let rows := compose rules document frame
  let output := paintOutput codes (painter.changes size rows)
  match failure with
  | none => (⟨rows, some size⟩, output, true)
  | some count =>
      if output.isEmpty then (⟨rows, some size⟩, output, true)
      else (painter, output.take count, false)

/-! ## The terminal -/

/-- What a number of bytes of the changes does to the rows of the terminal. A row that has been
written as a whole shows its text, and one that the bytes end in is torn. -/
def reached : List (Nat × List Char) → Nat → Nat → Option (Option (List Char))
  | [], _, _ => none
  | change :: rest, count, row =>
      let size := (changeBytes codes change).length
      if size ≤ count then
        if row = change.1 then some (some change.2) else reached rest (count - size) row
      else if (Json.utf8 (codes.moveTo 0 change.1)).length < count then
        if row = change.1 then some none else none
      else none

/-- The painter, what each row of its terminal shows, and for each row whether a write that failed
has left it torn or with another text than the remembered one. -/
structure PaintedTerminal where
  painter : Painter
  shown : Nat → Option (List Char)
  disturbed : Nat → Bool

inductive PaintAction where
  | paint (document : Document) (frame : Frame) (failure : Option Nat)
  | invalidate

def PaintedTerminal.step (terminal : PaintedTerminal) : PaintAction → Option PaintedTerminal
  | .invalidate => some { terminal with painter := terminal.painter.invalidate }
  | .paint document frame failure =>
      let changes := terminal.painter.changes (frame.columns, frame.rows)
        (compose rules document frame)
      let (painter, written, _) := terminal.painter.paint rules codes document frame failure
      let touched := reached codes changes (written.length - (Json.utf8 codes.beginUpdate).length)
      some {
        painter := painter
        shown := assign touched terminal.shown
        disturbed := assign (fun row => (touched row).map fun content =>
          content.isNone || content ≠ painter.previous[row]?) terminal.disturbed }

/-- A terminal that nothing has been painted on. -/
def PaintedTerminal.initial (shown : Nat → Option (List Char)) : PaintedTerminal :=
  ⟨Painter.empty, shown, fun _ => false⟩

end Kvist.Blad
