import Kvist.FileTools.Search
import Kvist.Radix

/-!
# Patches

A patch is made of hunks without file headers. Every line that it keeps or removes has to stand in
the text exactly as the patch has it.
-/

set_option autoImplicit false

namespace Kvist.FileTools

open Radix Text
open Json (utf8Bytes)

structure Range where
  start : Nat
  count : Nat
  deriving DecidableEq, Repr

def invalid : Failure :=
  failure ("invalid unified patch; use exact ordered @@ -old[,count] +new[,count] @@ hunks " ++
    "without file headers")

def number (value : List Char) : Except Failure Nat := do
  ensure (!value.isEmpty && value.all isAsciiDigit) invalid
  okOr (fromStrRadix 10 usizeMax value) invalid

def Range.parse (value : List Char) (sign : Char) : Except Failure Range := do
  let value ← okOr (stripLeading [sign] value) invalid
  let (start, count) := (splitOnce ',' value).getD (value, ['1'])
  let start ← number start
  let count ← number count
  ensure (!(maxFileBytes < start || maxFileBytes < count || (start == 0 && count != 0))) invalid
  pure ⟨start, count⟩

def Range.index (range : Range) : Nat :=
  if range.count = 0 then range.start else range.start - 1

def header (line : List Char) : Except Failure (Range × Range) := do
  let line ← okOr (stripTrailing ['\n'] line) invalid
  let rest ← okOr (stripLeading "@@ ".toList line) invalid
  let (ranges, heading) ← okOr (splitOnceText " @@".toList rest) invalid
  ensure (heading.isEmpty || heading.head? == some ' ') invalid
  let (old, new) ← okOr (splitOnce ' ' ranges) invalid
  let old ← Range.parse old '-'
  let new ← Range.parse new '+'
  pure (old, new)

def push (output text : List Char) : Except Failure (List Char) := do
  ensure (output.isEmpty || output.getLast? == some '\n')
    (failure "patch leaves content after a missing-final-newline line")
  ensure (utf8Bytes output + utf8Bytes text ≤ maxFileBytes)
    (failure "patched result exceeds the file byte bound")
  pure (output ++ text)

structure Patching where
  output : List Char := []
  sourceIndex : Nat := 0
  outputLines : Nat := 0
  changed : Bool := false

def Patching.pushLine (patching : Patching) (line : List Char) : Except Failure Patching := do
  let output ← push patching.output line
  pure { patching with output := output, outputLines := patching.outputLines + 1 }

/-- A text that is being patched, with the lines of the current hunk counted. -/
structure Hunking extends Patching where
  removed : Nat := 0
  added : Nat := 0

def noNewline : List Char := "\\ No newline at end of file\n".toList

def isHeader (line : List Char) : Bool := "@@ ".toList.isPrefixOf line

def contentOf (line : List Char) (next : Option (List Char)) : Except Failure (List Char) := do
  ensure (line.head? == some ' ' || line.head? == some '-' || line.head? == some '+') invalid
  if next = some noNewline then
    let content ← okOr (stripTrailing ['\n'] (line.drop 1)) invalid
    ensure (!content.isEmpty) invalid
    pure content
  else pure (line.drop 1)

/-- A line that is kept or removed stands in the text. -/
def Hunking.consume (source : List (List Char)) (sign : Option Char) (content : List Char)
    (hunking : Hunking) : Except Failure Hunking :=
  if sign = some ' ' ∨ sign = some '-' then do
    ensure (source[hunking.sourceIndex]? == some content)
      (failure "patch context/removal does not match the exact preimage")
    pure { hunking with sourceIndex := hunking.sourceIndex + 1, removed := hunking.removed + 1 }
  else pure hunking

/-- A line that is kept or added is put out. -/
def Hunking.produce (sign : Option Char) (content : List Char) (hunking : Hunking) :
    Except Failure Hunking :=
  if sign = some ' ' ∨ sign = some '+' then do
    let patching ← hunking.toPatching.pushLine content
    pure { hunking with toPatching := patching, added := hunking.added + 1 }
  else pure hunking

def Hunking.apply (source : List (List Char)) (old new : Range) (sign : Option Char)
    (content : List Char) (hunking : Hunking) : Except Failure Hunking := do
  let hunking ← hunking.consume source sign content
  let hunking ← hunking.produce sign content
  let hunking := { hunking with changed := hunking.changed || sign != some ' ' }
  ensure (!(old.count < hunking.removed || new.count < hunking.added))
    (failure "patch hunk body exceeds its declared counts")
  pure hunking

/-- Apply the lines of a hunk. The lines behind it are left over. -/
def applyBody (source : List (List Char)) (old new : Range) :
    List (List Char) → Hunking → Except Failure (Hunking × List (List Char))
  | [], hunking => .ok (hunking, [])
  | line :: rest, hunking =>
      if isHeader line then .ok (hunking, line :: rest)
      else do
        let content ← contentOf line rest.head?
        let hunking ← hunking.apply source old new line.head? content
        match rest with
        | [] => .ok (hunking, [])
        | marker :: others =>
            if marker = noNewline then applyBody source old new others hunking
            else applyBody source old new (marker :: others) hunking

def applyHunks (source : List (List Char)) :
    Nat → List (List Char) → Patching → Except Failure Patching
  | 0, _, patching => .ok patching
  | _ + 1, [], patching => .ok patching
  | fuel + 1, line :: rest, patching => do
      let (old, new) ← header line
      ensure (!(old.index < patching.sourceIndex || source.length < old.index))
        (failure "patch hunks overlap, are out of order or exceed the preimage")
      let patching ← ((source.drop patching.sourceIndex).take
        (old.index - patching.sourceIndex)).foldlM Patching.pushLine patching
      ensure (new.index == patching.outputLines)
        (failure "patch new coordinates do not match the resulting file")
      let (hunking, rest) ← applyBody source old new rest
        { patching with sourceIndex := old.index }
      ensure (hunking.removed == old.count && hunking.added == new.count)
        (failure "patch hunk body does not match its declared counts")
      applyHunks source fuel rest hunking.toPatching

/-- Apply a patch to a text. -/
def apply (original patch : List Char) : Except Failure (List Char) := do
  ensure (!(patch.isEmpty || patch.getLast? != some '\n')) invalid
  let source := splitInclusive original
  let lines := splitInclusive patch
  let patching ← applyHunks source lines.length lines {}
  let patching ← (source.drop patching.sourceIndex).foldlM Patching.pushLine patching
  ensure (!(!patching.changed || patching.output == original))
    (failure "patch must change the file")
  pure patching.output

end Kvist.FileTools
