import Mathlib.Data.Prod.Lex
import Kvist.Blad.Output
import Kvist.Blad.Viewport
import Kvist.Occurrences
import Kvist.OrderedMap

/-!
# The writer of rendered lines

A line is collected until its end, and then emitted behind the borders of the quotes that it is in.
The columns of links are recorded for the line while it is collected.
-/

set_option autoImplicit false

namespace Kvist.Blad

deriving instance DecidableEq for Color

inductive NavigationId where
  | source (index : Nat)
  | bare (event offset : Nat)
  deriving DecidableEq

/-- The order of the variants and their fields. -/
def NavigationId.rank : NavigationId → Nat ×ₗ Nat ×ₗ Nat
  | .source index => toLex (0, toLex (index, 0))
  | .bare event offset => toLex (1, toLex (event, offset))

theorem NavigationId.rank_injective : Function.Injective NavigationId.rank := by
  intro left right same
  cases left <;> cases right <;> simp_all [NavigationId.rank]

instance : LinearOrder NavigationId := LinearOrder.lift' _ NavigationId.rank_injective

structure Style where
  bold : Bool := false
  italic : Bool := false
  strike : Bool := false
  reverse : Bool := false
  dim : Bool := false
  color : Option Color := none
  link : Option NavigationId := none
  deriving DecidableEq

/-- The control sequence with these parameters. -/
def sgrOf (parameters : List Nat) : List Char :=
  sgrText ([';'].intercalate (parameters.map fun number => (toString number).toList))

def Color.sequence (color : Color) (background : Bool) : List Char :=
  sgrOf (color.parameters background)

/-- The output is everything that has been emitted. -/
structure RenderWriter where
  output : List Char
  line : List Char
  row : Nat
  quotes : List Color
  width : Option Nat
  background : Option Color
  links : OrderedMap NavigationId (List LinkSpan)

namespace RenderWriter

def new (width : Option Nat) (background : Option Color) : RenderWriter :=
  ⟨[], [], 0, [], width, background, OrderedMap.empty⟩

variable (rules : TextRules) (writer : RenderWriter)

def pushQuote (color : Color) : RenderWriter := { writer with quotes := writer.quotes ++ [color] }

def popQuote : RenderWriter := { writer with quotes := writer.quotes.dropLast }

def borderWidth : Nat :=
  let desired := writer.quotes.length * 2
  match writer.width with
  | none => desired
  | some width => min desired ((width - 1) / 2 * 2)

/-- The columns of a link behind the line so far. They join those that it already has in the row. -/
def markLinkColumns (source : NavigationId) (start stop : Nat) : RenderWriter :=
  let column := (TerminalLine.new rules writer.line).width rules + writer.borderWidth
  let spans := (writer.links.get source).getD []
  let start := column + start
  let stop := column + stop
  let spans :=
    match spans.getLast?.filter (·.row = writer.row) with
    | some span => spans.dropLast ++ [{ span with stop := max span.stop stop }]
    | none => spans ++ [⟨writer.row, start, stop⟩]
  { writer with links := writer.links.insert source spans }

def markLink (source : NavigationId) (text : List Char) : RenderWriter :=
  writer.markLinkColumns rules source 0 ((TerminalLine.new rules text).width rules)

def border (background : List Char) (color : Color) : List Char :=
  color.sequence false ++ "│ ".toList ++ resetText ++ background

def emitted : List Char :=
  if writer.quotes.isEmpty then writer.line
  else
    let background := (writer.background.map (·.sequence true)).getD []
    let width := (TerminalLine.new rules writer.line).width rules + writer.borderWidth
    background ++ (writer.quotes.take (writer.borderWidth / 2)).flatMap (border background) ++
      Occurrences.replace resetText (resetText ++ background) writer.line ++
      (match writer.width with
        | none => []
        | some columns => List.replicate (columns - width) ' ') ++ resetText

def emit (newline : Bool) : RenderWriter :=
  let writer := { writer with output := writer.output ++ writer.emitted rules, line := [] }
  if newline then { writer with output := writer.output ++ ['\n'], row := writer.row + 1 }
  else writer

/-- Each part up to a line feed ends a line. -/
def write : List Char → RenderWriter → RenderWriter
  | [], writer => writer
  | character :: rest, writer =>
      if character = '\n' then write rest (writer.emit rules true)
      else write rest { writer with line := writer.line ++ [character] }

def flush : RenderWriter := if writer.line.isEmpty then writer else writer.emit rules false

end RenderWriter

end Kvist.Blad
