import Kvist.Bisection
import Kvist.Blad.TerminalText
import Kvist.Text

/-!
# Table layout

The cells of a table are wrapped at white space. The widths of its columns are chosen for the least
height of the highest row, and what is left of the viewport is shared out between the columns.
-/

set_option autoImplicit false

namespace Kvist.Blad.Tables

def columnsPerLine : Nat := 4
def separatorWidth : Nat := 3

/-! ## Cells -/

structure Word where
  text : List Char
  width : Nat

structure Cell where
  lines : List (List Word)
  minimum : Nat
  natural : Nat

/-- The fragments of a line from one that is being filled on. -/
def fragmentsFrom (width : Nat) : List Word → Nat → List Word → List (List Word)
  | fragment, _, [] => [fragment]
  | fragment, used, word :: rest =>
      let next := used + 1 + word.width
      if width < next then fragment :: fragmentsFrom width [word] word.width rest
      else fragmentsFrom width (fragment ++ [word]) next rest

def lineFragments (width : Nat) : List Word → List (List Word)
  | [] => [[]]
  | word :: rest => fragmentsFrom width [word] word.width rest

namespace Cell

def fragments (cell : Cell) (width : Nat) : List (List Word) :=
  cell.lines.flatMap (lineFragments width)

def explicitHeight (cell : Cell) : Nat := cell.lines.length

def fitsHeight (cell : Cell) (width cap : Nat) : Bool :=
  ((cell.fragments width).take (cap + 1)).length ≤ cap

def height (cell : Cell) (width : Nat) : Nat := (cell.fragments width).length

def joinWords (words : List Word) : List Char := [' '].intercalate (words.map (·.text))

def wrap (cell : Cell) (width : Nat) : List (List Char) := (cell.fragments width).map joinWords

/-- The height of the lines with words is at most one for every four columns. -/
def fitsAspect (cell : Cell) (width : Nat) : Bool :=
  let cap := width / columnsPerLine
  (((cell.fragments width).filter fun words => !words.isEmpty).take (cap + 1)).length ≤ cap

def aspectMinimum (cell : Cell) : Nat :=
  Bisection.least cell.fitsAspect (cell.natural - cell.minimum) cell.minimum cell.natural

end Cell

/-- `str::split_whitespace`. -/
def splitWhitespace (text : List Char) : List (List Char) :=
  (text.splitOnP Text.isWhitespace).filter fun part => !part.isEmpty

/-- The columns of words with a space between them. -/
def lineWidth (words : List Word) : Nat := (words.map (·.width)).sum + (words.length - 1)

variable (rules : TextRules)

def lineWords (line : List Char) : List Word :=
  (splitWhitespace (TerminalLine.new rules line).text).map fun text => ⟨text, rules.width text⟩

def Cell.new (text : List Char) : Cell :=
  let lines := (text.splitOn '\n').map (lineWords rules)
  let minimum := (lines.flatten.map (·.width)).foldl max 0
  let natural := (lines.map lineWidth).foldl max 0
  let cell : Cell := ⟨lines, minimum, natural⟩
  { cell with minimum := cell.aspectMinimum }

/-! ## Tables -/

structure Column where
  minimum : Nat
  natural : Nat

structure Table where
  rows : List (List Cell)
  columns : List Column
  explicitHeight : Nat

def Column.add (column : Column) (cell : Cell) : Column :=
  ⟨max column.minimum cell.minimum, max column.natural cell.natural⟩

def Table.new (rows : List (List (List Char))) : Table :=
  let count := (rows.map List.length).foldl max 0
  let cells := rows.map fun row =>
    (List.range count).map fun index => Cell.new rules (row[index]?.getD [])
  {
    rows := cells
    columns := (List.range count).map fun index =>
      (cells.filterMap (·[index]?)).foldl Column.add ⟨0, 0⟩
    explicitHeight := (cells.flatten.map Cell.explicitHeight).foldl max 1 }

def checkedSub (front back : Nat) : Option Nat := if back ≤ front then some (front - back) else none

def bumpAll (widths : List Nat) (places : List Nat) : List Nat :=
  places.foldl (fun widths place => widths.modify place (· + 1)) widths

/-- The larger remainder comes first, and of equal ones the one in front. -/
def remainderOrder (left right : Nat × Nat) : Bool :=
  right.1 < left.1 || (left.1 = right.1 && left.2 ≤ right.2)

namespace Table

/-- The spare columns are shared out in proportion to what each column lacks. Nothing is given where
a subtraction fails. -/
def distribute (naturals widths : List Nat) (spare : Nat) : Option (List Nat) :=
  let flexibility := List.zipWith (· - ·) naturals widths
  let totalFlex := flexibility.sum
  if totalFlex = 0 then some widths
  else do
    let spare := min spare totalFlex
    let shares := flexibility.map fun flex => flex * spare / totalFlex
    let remaining ← shares.foldlM checkedSub spare
    let remainders := (flexibility.map fun flex => flex * spare % totalFlex).zipIdx
    let sorted := remainders.mergeSort remainderOrder
    return bumpAll (List.zipWith (· + ·) widths shares) ((sorted.take remaining).map (·.2))

variable (table : Table)

def requiredWidth (column cap : Nat) : Nat :=
  let minimum := (table.columns[column]?.map (·.minimum)).getD 0
  let natural := (table.columns[column]?.map (·.natural)).getD 0
  Bisection.least
    (fun width => (table.rows.filterMap (·[column]?)).all fun cell => cell.fitsHeight width cap)
    (natural - minimum) minimum natural

def fitsBudgetFrom (cap budget : Nat) : Nat → List Nat → Bool
  | _, [] => true
  | used, column :: rest =>
      let used := used + table.requiredWidth column cap
      if budget < used then false else fitsBudgetFrom cap budget used rest

def fitsBudget (cap budget : Nat) : Bool :=
  table.fitsBudgetFrom cap budget 0 (List.range table.columns.length)

/-- The height of the highest row. -/
def height (widths : List Nat) : Nat :=
  (table.rows.flatMap fun row => List.zipWith Cell.height row widths).max?.getD 1

def naturals : List Nat := table.columns.map (·.natural)

def minimums : List Nat := table.columns.map (·.minimum)

/-- What the separators leave of a viewport. -/
def budget (viewport : Nat) : Nat := viewport - (table.columns.length - 1) * separatorWidth

def leastHeight (budget : Nat) : Nat :=
  let low := table.explicitHeight
  let high := table.height table.minimums
  Bisection.least (fun cap => table.fitsBudget cap budget) (high - low) low high

def widths (viewport : Option Nat) : Option (List Nat) :=
  if table.columns.isEmpty then some []
  else
    match viewport with
    | none => some table.naturals
    | some viewport =>
        let budget := table.budget viewport
        if table.naturals.sum ≤ budget then some table.naturals
        else if budget ≤ table.minimums.sum then some table.minimums
        else do
          let cap := table.leastHeight budget
          let widths := (List.range table.columns.length).map (table.requiredWidth · cap)
          let spare ← checkedSub budget widths.sum
          distribute table.naturals widths spare

end Table

end Kvist.Blad.Tables
