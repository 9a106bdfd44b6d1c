import Kvist.Json.Bytes
import Kvist.Outcome
import Kvist.Radix

/-!
# Terminal output

The renderer's own control sequences are encoded for the colors of the terminal, while the text is
passed on as it is. What is written may be split anywhere, also inside a sequence.
-/

set_option autoImplicit false

namespace Kvist.Blad

open Json (utf8)

inductive ColorDepth where
  | none
  | ansi16
  | ansi256
  | trueColor
  deriving DecidableEq

structure RenderOptions where
  colorDepth : ColorDepth
  plain : Bool

inductive OutputError where
  | unexpectedControl
  | incompleteControl
  | invalidNumber
  | invalidRgb
  | invalidExtended
  deriving DecidableEq

def escape : UInt8 := 0x1b

def bracket : UInt8 := 0x5b

def semicolon : UInt8 := 0x3b

def letterM : UInt8 := 0x6d

def isDigit (byte : UInt8) : Bool := 0x30 ≤ byte && byte ≤ 0x39

/-! ## Colors -/

abbrev Rgb := Nat × Nat × Nat

def basePalette : List Rgb :=
  [(0, 0, 0), (128, 0, 0), (0, 128, 0), (128, 128, 0), (0, 0, 128), (128, 0, 128), (0, 128, 128),
    (192, 192, 192), (128, 128, 128), (255, 0, 0), (0, 255, 0), (255, 255, 0), (0, 0, 255),
    (255, 0, 255), (0, 255, 255), (255, 255, 255)]

def paletteChannel (value : Nat) : Nat := if value = 0 then 0 else 55 + 40 * value

def indexedRgb (index : Nat) : Rgb :=
  if index ≤ 15 then basePalette.getD index (0, 0, 0)
  else if index ≤ 231 then
    let index := index - 16
    (paletteChannel (index / 36), paletteChannel (index / 6 % 6), paletteChannel (index % 6))
  else
    let value := 8 + (index - 232) * 10
    (value, value, value)

def squaredDifference (left right : Nat) : Nat := (left - right) ^ 2 + (right - left) ^ 2

def colorDistance (rgb candidate : Rgb) : Nat :=
  squaredDifference rgb.1 candidate.1 + squaredDifference rgb.2.1 candidate.2.1 +
    squaredDifference rgb.2.2 candidate.2.2

/-- The first of the nearest indices. -/
def nearest (rgb : Rgb) (count : Nat) : Nat :=
  (List.range count).foldl (fun best index =>
    if colorDistance rgb (indexedRgb index) < colorDistance rgb (indexedRgb best) then index
    else best) 0

/-! ## Sequences -/

def decimal (number : Nat) : List UInt8 := utf8 (toString number).toList

/-- A sequence that sets graphic attributes. -/
def sgrBytes (parameters : List Nat) : List UInt8 :=
  escape :: bracket :: [semicolon].intercalate (parameters.map decimal) ++ [letterM]

inductive Color where
  | ansi (index : Nat)
  | rgb (red green blue : Nat)

def Color.parameters (color : Color) (background : Bool) : List Nat :=
  match color with
  | .ansi index =>
      if 16 ≤ index then [if background then 48 else 38, 5, index]
      else [(if background then 40 else 30) + index % 8 + if 8 ≤ index then 60 else 0]
  | .rgb red green blue => [if background then 48 else 38, 2, red, green, blue]

/-- An extended color in the encoding of the terminal, given as well by its index if it has one. -/
def extendedColor (depth : ColorDepth) (parameter : Nat) (rgb : Rgb) (index : Option Nat) :
    List UInt8 :=
  match depth, index with
  | .none, _ => []
  | .trueColor, none => sgrBytes [parameter, 2, rgb.1, rgb.2.1, rgb.2.2]
  | .trueColor, some index => sgrBytes [parameter, 5, index]
  | .ansi256, some index => sgrBytes [parameter, 5, index]
  | .ansi256, none => sgrBytes [parameter, 5, nearest rgb 256]
  | .ansi16, _ => sgrBytes ((Color.ansi (nearest rgb 16)).parameters (parameter == 48))

def isColor (parameter : Nat) : Bool :=
  (30 ≤ parameter && parameter ≤ 49) || (90 ≤ parameter && parameter ≤ 107)

/-- What is passed on, and how it ends. -/
abbrev Passed := List UInt8 × Except OutputError Unit

def Passed.after (front : List UInt8) (passed : Passed) : Passed := (front ++ passed.1, passed.2)

def encodeParameters (depth : ColorDepth) : List Nat → Passed
  | [] => ([], .ok ())
  | parameter :: rest =>
      if parameter = 38 ∨ parameter = 48 then
        match rest with
        | 2 :: red :: green :: blue :: rest =>
            if 255 < red ∨ 255 < green ∨ 255 < blue then ([], .error .invalidRgb)
            else (encodeParameters depth rest).after
              (extendedColor depth parameter (red, green, blue) none)
        | 5 :: index :: rest =>
            if index ≤ 255 then (encodeParameters depth rest).after
              (extendedColor depth parameter (indexedRgb index) (some index))
            else ([], .error .invalidExtended)
        | _ => ([], .error .invalidExtended)
      else (encodeParameters depth rest).after
        (if isColor parameter && depth == .none then [] else sgrBytes [parameter])

def parseNumber (digits : List UInt8) : Option Nat :=
  Radix.fromStrRadix 10 65535 (digits.map fun byte => Char.ofNat byte.toNat)

def parseParameters (body : List UInt8) : Option (List Nat) :=
  if body.isEmpty then some [0] else (body.splitOn semicolon).mapM parseNumber

/-- A complete sequence, given by what stands between the bracket and the last byte. -/
def sgr (options : RenderOptions) (body : List UInt8) : Passed :=
  if options.plain then ([], .ok ())
  else
    match parseParameters body with
    | none => ([], .error .invalidNumber)
    | some parameters => encodeParameters options.colorDepth parameters

/-! ## Writing -/

/-- The open sequence, what is passed on to the writer, and the text of this write that is not yet
passed on. -/
structure Output where
  sequence : List UInt8
  passed : List UInt8
  text : List UInt8
  deriving DecidableEq

def Output.new : Output := ⟨[], [], []⟩

/-- Whether the last byte makes the sequence something else than graphic attributes. -/
def isUnexpected (sequence : List UInt8) (byte : UInt8) : Bool :=
  64 < sequence.length || (sequence.length == 2 && byte != bracket) ||
    (2 < sequence.length && !isDigit byte && !(byte == semicolon || byte == letterM))

def writeControl (options : RenderOptions) (output : Output) (byte : UInt8) :
    Output × Except OutputError Unit :=
  let sequence := output.sequence ++ [byte]
  let output := { output with sequence := sequence, passed := output.passed ++ output.text,
                              text := [] }
  if isUnexpected sequence byte then (output, .error .unexpectedControl)
  else if byte == letterM then
    let encoded := sgr options ((sequence.drop 2).dropLast)
    let output := { output with passed := output.passed ++ encoded.1 }
    match encoded.2 with
    | .ok () => ({ output with sequence := [] }, .ok ())
    | .error error => (output, .error error)
  else (output, .ok ())

def writeByte (options : RenderOptions) (output : Output) (byte : UInt8) :
    Output × Except OutputError Unit :=
  if output.sequence.isEmpty && byte != escape then
    ({ output with text := output.text ++ [byte] }, .ok ())
  else writeControl options output byte

def writeBytes (options : RenderOptions) : Output → List UInt8 → Output × Except OutputError Unit
  | output, [] => (output, .ok ())
  | output, byte :: rest =>
      match writeByte options output byte with
      | (next, .ok ()) => writeBytes options next rest
      | (next, .error error) => (next, .error error)

/-- One write, which passes on the rest of its text at its end. -/
def write (options : RenderOptions) (output : Output) (bytes : List UInt8) :
    Output × Except OutputError Unit :=
  match writeBytes options output bytes with
  | (last, .ok ()) => ({ last with passed := last.passed ++ last.text, text := [] }, .ok ())
  | (last, .error error) => (last, .error error)

/-- Writes one after the other, up to the first error. -/
def writeAll (options : RenderOptions) : Output → List (List UInt8) →
    Output × Except OutputError Unit
  | output, [] => (output, .ok ())
  | output, bytes :: rest =>
      match write options output bytes with
      | (next, .ok ()) => writeAll options next rest
      | (next, .error error) => (next, .error error)

def flush (output : Output) : Except OutputError Unit :=
  if output.sequence.isEmpty then .ok () else .error .incompleteControl

end Kvist.Blad
