import Mathlib.Data.List.Basic
import Kvist.OrderedMap
import Kvist.Radix

/-!
# Terminal text

A rendered line is its text and the control sequences that style it. A part of it is shown in a
window of columns, with ranges that are set off by a style of their own.
-/

set_option autoImplicit false

namespace Kvist.Blad

/-- What the Unicode tables tell of a text: its grapheme clusters and the columns they take. -/
structure TextRules where
  graphemes : List Char → List (List Char)
  width : List Char → Nat
  flatten_graphemes : ∀ text, (graphemes text).flatten = text
  graphemes_ne_nil : ∀ text, ∀ grapheme ∈ graphemes text, grapheme ≠ []

/-- `char::is_control`. -/
def isControl (character : Char) : Bool :=
  character.toNat < 0x20 || (0x7f ≤ character.toNat && character.toNat ≤ 0x9f)

/-! ## Control sequences -/

def isSgrCharacter (character : Char) : Bool :=
  Radix.isAsciiDigit character || character == ';' || character == ':'

/-- A control sequence for attributes at the start of a text, and the text behind it. -/
def stripSgr : List Char → Option (List Char × List Char)
  | '\x1b' :: '[' :: rest =>
      match rest.dropWhile isSgrCharacter with
      | 'm' :: remaining =>
          some ('\x1b' :: '[' :: (rest.takeWhile isSgrCharacter ++ ['m']), remaining)
      | _ => none
  | _ => none

inductive Piece where
  | style (sequence : List Char)
  | character (character : Char)

def piecesFrom : Nat → List Char → List Piece
  | _, [] => []
  | 0, _ => []
  | fuel + 1, character :: rest =>
      match stripSgr (character :: rest) with
      | some (sequence, remaining) => .style sequence :: piecesFrom fuel remaining
      | none => .character character :: piecesFrom fuel rest

def pieces (text : List Char) : List Piece := piecesFrom text.length text

/-! ## Lines -/

structure TerminalLine where
  text : List Char
  styles : List (Nat × List Char)

/-- A line while it is read, with the column of the text up to a place. -/
structure LineReader where
  text : List Char
  styles : List (Nat × List Char)
  column : Nat
  measuredUntil : Nat

def tabSpaces (column : Nat) : Nat := 8 - column % 8

def hexDigits (number : Nat) : List Char := Nat.toDigits 16 number

def escapedControl (character : Char) : List Char :=
  "\\u".toList ++ '\x7b' :: (hexDigits character.toNat ++ ['\x7d'])

variable (rules : TextRules)

/-- One piece of the line. A place is given by the number of characters in front of it. -/
def readPiece (reader : LineReader) : Piece → LineReader
  | .style sequence => { reader with styles := reader.styles ++ [(reader.text.length, sequence)] }
  | .character character =>
      if character = '\t' then
        let column := reader.column + rules.width (reader.text.drop reader.measuredUntil)
        let spaces := tabSpaces column
        let text := reader.text ++ List.replicate spaces ' '
        { reader with text := text, column := column + spaces, measuredUntil := text.length }
      else if isControl character then
        { reader with text := reader.text ++ escapedControl character }
      else { reader with text := reader.text ++ [character] }

def TerminalLine.new (ansi : List Char) : TerminalLine :=
  let reader := (pieces ansi).foldl (readPiece rules) ⟨[], [], 0, 0⟩
  ⟨reader.text, reader.styles⟩

def TerminalLine.width (line : TerminalLine) : Nat := rules.width line.text

/-! ## The attributes of the source -/

def sgrParts (sequence : List Char) : List (List Char) :=
  ((sequence.drop 2).dropLast).splitOn ';'

def partCode (part : List Char) : Option Nat :=
  if part.isEmpty then some 0 else Radix.fromStrRadix 10 65535 part

/-- The parameters of a sequence, where an extended color takes several parts. -/
def sgrGroups : Nat → List (List Char) → List (Nat × List Char)
  | _, [] => []
  | 0, _ => []
  | fuel + 1, part :: rest =>
      match partCode part with
      | none => sgrGroups fuel rest
      | some code =>
          if code = 38 ∨ code = 48 then
            match rest with
            | [] => [(code, part)]
            | mode :: channels =>
                let count := if mode = ['2'] then 3 else 1
                (code, [';'].intercalate (part :: mode :: channels.take count)) ::
                  sgrGroups fuel (channels.drop count)
          else (code, part) :: sgrGroups fuel rest

def sequenceGroups (sequence : List Char) : List (Nat × List Char) :=
  sgrGroups (sgrParts sequence).length (sgrParts sequence)

/-- For each attribute that is set the sequence that sets it. -/
abbrev SgrState := OrderedMap Nat (List Char)

/-- The attribute of a parameter. The colors have two attributes, in front and behind. -/
def attributeKey (code : Nat) : Nat :=
  if (30 ≤ code ∧ code ≤ 39) ∨ (90 ≤ code ∧ code ≤ 97) then 38
  else if (40 ≤ code ∧ code ≤ 49) ∨ (100 ≤ code ∧ code ≤ 107) then 48
  else code

def SgrState.remove (state : SgrState) (keys : List Nat) : SgrState :=
  state.retain fun key _ => !keys.contains key

/-- The attributes that a parameter takes back. -/
def cleared : Nat → Option (List Nat)
  | 22 => some [1, 2]
  | 23 => some [3]
  | 24 => some [4]
  | 27 => some [7]
  | 29 => some [9]
  | _ => none

def sgrText (value : List Char) : List Char := '\x1b' :: '[' :: (value ++ ['m'])

def SgrState.applyGroup (state : SgrState) (group : Nat × List Char) : SgrState :=
  if group.1 = 0 then OrderedMap.empty
  else
    match cleared group.1 with
    | some keys => state.remove keys
    | none => state.insert (attributeKey group.1) (sgrText group.2)

def SgrState.apply (state : SgrState) (sequence : List Char) : SgrState :=
  (sequenceGroups sequence).foldl SgrState.applyGroup state

def resetText : List Char := sgrText ['0']

def SgrState.restored (state : SgrState) : List Char := resetText ++ state.values.flatten

/-! ## Clipping -/

structure Range where
  start : Nat
  stop : Nat

/-- The ranges from the first one that does not end before a place, and whether it starts before
another one. -/
def overlaps (ranges : List Range) (start stop : Nat) : List Range × Bool :=
  let ranges := ranges.dropWhile fun range => range.stop ≤ start
  (ranges, ranges.head?.any fun range => range.start < stop)

/-- What is written of a line, with the styles and the ranges that are left. -/
structure Clip where
  result : List Char
  styles : List (Nat × List Char)
  source : SgrState
  active : Option (List Char)
  ranges : List Range
  activeRanges : List Range

/-- The styles for the ranges. -/
structure Overlays where
  overlay : List Char
  activeOverlay : List Char

def pushStyle (clip : Clip) (style : List Char) : Clip :=
  { clip with
    result := clip.result ++ style ++ clip.active.getD []
    source := SgrState.apply clip.source style }

/-- The styles in front of a place. -/
def passStyles (limit : Nat) : List (Nat × List Char) → Clip → Clip
  | [], clip => { clip with styles := [] }
  | style :: rest, clip =>
      if style.1 < limit then passStyles limit rest (pushStyle clip style.2)
      else { clip with styles := style :: rest }

/-- A text from a place on with the styles inside it. -/
def pushParts (limit : Nat) : List (Nat × List Char) → Nat → List Char → Clip → Clip
  | [], _, text, clip => { clip with styles := [], result := clip.result ++ text }
  | style :: rest, part, text, clip =>
      if style.1 < limit then
        pushParts limit rest style.1 (text.drop (style.1 - part))
          (pushStyle { clip with result := clip.result ++ text.take (style.1 - part) } style.2)
      else { clip with styles := style :: rest, result := clip.result ++ text }

def highlight (overlays : Overlays) (clip : Clip) (column next : Nat) : Clip :=
  let (activeRanges, isActive) := overlaps clip.activeRanges column next
  let clip := { clip with activeRanges := activeRanges }
  let (ranges, isHighlighted) :=
    if isActive then (clip.ranges, false) else overlaps clip.ranges column next
  let highlight :=
    if isActive then some overlays.activeOverlay
    else if isHighlighted then some overlays.overlay
    else none
  let clip := { clip with ranges := ranges }
  if clip.active = highlight then clip
  else { clip with
    result := clip.result ++ clip.source.restored ++ highlight.getD []
    active := highlight }

/-- The columns from the first one to the one behind the last. -/
structure Window where
  start : Nat
  stop : Nat

def clipGrapheme (overlays : Overlays) (window : Window) (clip : Clip) (offset column : Nat)
    (grapheme : List Char) : Clip :=
  let next := column + rules.width grapheme
  let clip := passStyles (offset + 1) clip.styles clip
  let clip := highlight overlays clip column next
  if window.start ≤ column ∧ next ≤ window.stop then
    pushParts (offset + grapheme.length) clip.styles offset grapheme clip
  else
    let clip := passStyles (offset + grapheme.length) clip.styles clip
    if window.start < next then
      { clip with result := clip.result ++
          List.replicate (min next window.stop - max column window.start) ' ' }
    else clip

def clipFrom (overlays : Overlays) (window : Window) :
    List (List Char) → Nat → Nat → Clip → Clip
  | [], _, _, clip => clip
  | grapheme :: rest, offset, column, clip =>
      if window.stop ≤ column then clip
      else clipFrom overlays window rest (offset + grapheme.length) (column + rules.width grapheme)
        (clipGrapheme rules overlays window clip offset column grapheme)

def TerminalLine.clipWithOverlays (line : TerminalLine) (start width : Nat) (ranges : List Range)
    (overlay : List Char) (activeRanges : List Range) (activeOverlay : List Char) : List Char :=
  if width = 0 then []
  else
    let clip := clipFrom rules ⟨overlay, activeOverlay⟩ ⟨start, start + width⟩
      (rules.graphemes line.text) 0 0
      ⟨[], line.styles, OrderedMap.empty, none, ranges, activeRanges⟩
    clip.result ++ resetText

def TerminalLine.clip (line : TerminalLine) (start width : Nat) : List Char :=
  line.clipWithOverlays rules start width [] [] [] []

end Kvist.Blad
