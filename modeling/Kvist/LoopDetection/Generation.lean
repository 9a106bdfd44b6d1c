import Kvist.LoopDetection.Pattern
import Kvist.Model.Turn

/-!
# Repetition in what a model generates

A channel of text is inspected character by character. Words are kept as fingerprints, and what
Markdown marks as no prose is told apart. The characters of a word that goes on and on are
inspected too.
-/

set_option autoImplicit false

namespace Kvist.LoopDetection

open Model

/-- What the inspection uses of the hash and of the tables of characters. -/
structure Primitives where
  sha256 : List UInt8 → List UInt8
  isNumeric : Char → Bool
  toLowercase : Char → List Char

/-- Answers to whether to go on, in the order in which they are asked for. -/
structure Control where
  answers : Nat → Bool
  asked : Nat

namespace Control

/-- The host that lets every inspection go on. -/
def always : Control := ⟨fun _ => true, 0⟩

def keepGoing (control : Control) : Bool := control.answers control.asked

def next (control : Control) : Control := { control with asked := control.asked + 1 }

end Control

def saturatingSucc (value : Nat) : Nat := min (value + 1) 18446744073709551615

def prosePrefix (leading : List Char) : Bool :=
  if leading.head?.any fun first =>
      ['#', '>', '|', '\x60', '"', '\x27', '\u201c', '\u2018', '{', '}', '[', ']', '<'].contains first
    then false
  else if ['~', '~', '~'].isPrefixOf leading || [['-'], ['*'], ['+']].contains leading then false
  else !(leading.getLast?.any (fun last => last == '.' || last == ')') &&
    leading.dropLast.all Char.isDigit)

structure ChannelDetector where
  words : List Word := []
  scalars : List Nat := []
  hashed : List UInt8 := []
  leading : List Char := []
  leadingChars : Nat := 0
  wordChars : Nat := 0
  wordStructured : Bool := false
  wordNumeric : Bool := false
  marker : Option (Char × Nat) := none
  wordInlineMarker : Bool := false
  wordsSeen : Nat := 0
  firstWord : Bool := true
  lineProse : Bool := true
  indent : Nat := 0
  fence : Option (Char × Nat) := none
  pendingFenceClose : Bool := false
  quote : Option Char := none
  inlineCode : Option Nat := none
  pendingTicks : Nat := 0
  detected : Option Pattern := none
  deriving DecidableEq, Repr

/-- The values with one more, of which the first is dropped where there are too many. -/
def pushBounded {Item : Type} (items : List Item) (item : Item) : List Item :=
  (if items.length = history then items.drop 1 else items) ++ [item]

def littleEndian (bytes : List UInt8) : Nat :=
  bytes.foldr (fun byte value => byte.toNat + 256 * value) 0

namespace ChannelDetector

def currentProse (detector : ChannelDetector) : Bool :=
  detector.lineProse && detector.fence.isNone && detector.quote.isNone &&
    detector.inlineCode.isNone && detector.indent < 4 && !detector.wordStructured &&
    (!detector.firstWord || prosePrefix detector.leading)

def flushTicks (detector : ChannelDetector) : ChannelDetector :=
  let count := detector.pendingTicks
  let detector := { detector with pendingTicks := 0 }
  if count == 0 || detector.fence.isSome || detector.quote.isSome || 4 ≤ detector.indent then
    detector
  else if detector.inlineCode == some count then
    { detector with inlineCode := none, wordInlineMarker := true }
  else if detector.inlineCode.isNone &&
      !(detector.firstWord && detector.wordChars == count && 3 ≤ count) then
    { detector with inlineCode := some count, wordInlineMarker := true }
  else detector

def endLine (detector : ChannelDetector) : ChannelDetector :=
  let fence := if detector.pendingFenceClose then none else detector.fence
  { detector with
    fence := fence
    pendingFenceClose := false
    firstWord := true
    indent := 0
    lineProse := fence.isNone && detector.quote.isNone && detector.inlineCode.isNone }

def inspectWord (detector : ChannelDetector) (lengthWarning terminal : Bool) : Option Pattern :=
  let words := detector.words
  let signatures := Signatures.new (words.map fun word => (word.signature, word.prose))
  let exact := exactPeriod words signatures fun period =>
    if period < 50 then max 6 ((48 + period - 1) / period)
    else if lengthWarning && 2 * period ≤ words.length &&
        signatures.prose (words.length - 2 * period) (2 * period) then 2
    else 3
  match exact with
  | some (period, copies) => some ⟨.words, period, copies, 100⟩
  | none => nearPeriod words signatures terminal

def inspectUnbroken (detector : ChannelDetector) : Option Pattern :=
  if detector.wordChars < minUnbrokenChars || !detector.currentProse then none
  else
    let scalars := detector.scalars
    let signatures := Signatures.new (scalars.map fun value => (UInt64.ofNat value, true))
    let exact := exactPeriod scalars signatures fun period =>
      max 3 ((minUnbrokenChars + period - 1) / period)
    exact.map fun found => ⟨.characters, found.1, found.2, 100⟩

def markFence (detector : ChannelDetector) : ChannelDetector :=
  match detector.marker with
  | none => detector
  | some (marker, length) =>
      match detector.fence with
      | some (opened, least) =>
          if opened == marker && least ≤ length && length == detector.wordChars then
            { detector with pendingFenceClose := true }
          else detector
      | none =>
          if 3 ≤ length && detector.indent < 4 && detector.quote.isNone &&
              detector.inlineCode.isNone && !detector.wordInlineMarker then
            { detector with fence := some (marker, length) }
          else detector

def finishFirstWord (detector : ChannelDetector) : ChannelDetector :=
  if detector.firstWord then
    let detector := detector.markFence
    { detector with
      lineProse := detector.fence.isNone && detector.indent < 4 && prosePrefix detector.leading
      firstWord := false }
  else detector

section

variable (primitives : Primitives)

/-- The word is kept, and the next one begins. -/
def pushWord (detector : ChannelDetector) : ChannelDetector :=
  let word : Word :=
    { fingerprint := littleEndian ((primitives.sha256 detector.hashed).take 16)
      prose := detector.currentProse
      numeric := detector.wordNumeric }
  { detector with
    words := pushBounded detector.words word
    wordsSeen := saturatingSucc detector.wordsSeen
    hashed := []
    wordChars := 0
    leadingChars := 0
    leading := []
    wordStructured := false
    wordNumeric := false
    marker := none
    wordInlineMarker := false
    scalars := [] }

def finishWord (detector : ChannelDetector) : ChannelDetector × Option Pattern :=
  if detector.wordChars = 0 then (detector, none)
  else
    let detector := detector.flushTicks
    match detector.inspectUnbroken with
    | some pattern => (detector, some pattern)
    | none =>
        let detector := (detector.finishFirstWord).pushWord primitives
        (detector,
          if detector.wordsSeen % wordCadence = 0 then detector.inspectWord false false else none)

def extendMarker (detector : ChannelDetector) (character : Char) : ChannelDetector :=
  if detector.wordChars = 0 then
    { detector with
      pendingFenceClose := detector.firstWord && detector.pendingFenceClose
      marker := if character == '\x60' || character == '~' then some (character, 1) else none }
  else
    { detector with
      marker := detector.marker.map fun found =>
        if found.1 == character && found.2 == detector.wordChars then
          (found.1, saturatingSucc found.2)
        else found }

/-- The quotation mark that ends what the character begins. -/
def closingQuote (detector : ChannelDetector) (character : Char) : Option Char :=
  if character == '"' then some '"'
  else if character == '\u201c' then some '\u201d'
  else if character == '\u2018' then some '\u2019'
  else if character == '\x27' && detector.wordChars == 0 then some '\x27'
  else none

def markQuote (detector : ChannelDetector) (character : Char) : ChannelDetector :=
  if detector.fence.isNone && detector.inlineCode.isNone then
    if detector.quote == some character then { detector with quote := none }
    else if detector.quote.isNone then
      { detector with quote := detector.closingQuote character }
    else detector
  else detector

def feedWhitespace (detector : ChannelDetector) (character : Char) :
    ChannelDetector × Option Pattern :=
  match detector.finishWord primitives with
  | (detector, some pattern) => (detector, some pattern)
  | (detector, none) =>
      if ['\n', '\r', '\u2028', '\u2029'].contains character then (detector.endLine, none)
      else if detector.firstWord then
        if character == '\t' then ({ detector with indent := 4 }, none)
        else if character == ' ' then
          ({ detector with indent := min (detector.indent + 1) 4 }, none)
        else (detector, none)
      else (detector, none)

def feedWordChar (detector : ChannelDetector) (character : Char) :
    ChannelDetector × Option Pattern :=
  let detector := detector.extendMarker character
  let detector :=
    if character == '\x60' then
      { detector with pendingTicks := saturatingSucc detector.pendingTicks }
    else detector
  let quoteMarker := detector.quote == some character ||
    ['"', '\u201c', '\u2018'].contains character ||
    (character == '\x27' && detector.wordChars == 0)
  let detector := detector.markQuote character
  let detector :=
    if detector.leadingChars < 8 then
      { detector with
        leading := detector.leading ++ [character.toLower]
        leadingChars := detector.leadingChars + 1 }
    else detector
  let detector :=
    { detector with
      wordStructured := detector.wordStructured || quoteMarker ||
        ['\x60', '{', '}', '|', '[', ']', '<', '>'].contains character
      wordNumeric := detector.wordNumeric || primitives.isNumeric character
      wordChars := saturatingSucc detector.wordChars
      hashed := detector.hashed ++ Json.utf8 (primitives.toLowercase character)
      scalars := pushBounded detector.scalars character.toLower.toNat }
  (detector, if detector.wordChars % charCadence = 0 then detector.inspectUnbroken else none)

def feedChar (detector : ChannelDetector) (character : Char) : ChannelDetector × Option Pattern :=
  let detector := if character == '\x60' then detector else detector.flushTicks
  if Text.isWhitespace character then detector.feedWhitespace primitives character
  else detector.feedWordChar primitives character

/-- What one text leads to, and whether the host stopped its inspection. -/
structure Fed where
  detector : ChannelDetector
  pattern : Option Pattern
  control : Control
  interrupted : Bool

/-- The host is asked at every 256th character. -/
def feedLoop : Nat → ChannelDetector → Control → List Char → Fed
  | _, detector, control, [] => ⟨detector, none, control, false⟩
  | index, detector, control, character :: rest =>
      let asks := index % 256 == 0
      let after := if asks then control.next else control
      if asks && !control.keepGoing then ⟨detector, none, after, true⟩
      else
        let fed := detector.feedChar primitives character
        match fed.2 with
        | some pattern => ⟨{ fed.1 with detected := some pattern }, some pattern, after, false⟩
        | none => feedLoop (index + 1) fed.1 after rest

def feedWhile (detector : ChannelDetector) (text : List Char) (control : Control) : Fed :=
  match detector.detected with
  | some pattern => ⟨detector, some pattern, control, false⟩
  | none => feedLoop primitives 0 detector control text

def finish (detector : ChannelDetector) (lengthWarning : Bool) :
    ChannelDetector × Option Pattern :=
  match detector.detected with
  | some pattern => (detector, some pattern)
  | none =>
      match detector.finishWord primitives with
      | (finished, some pattern) => ({ finished with detected := some pattern }, some pattern)
      | (finished, none) =>
          let pattern := finished.inspectWord lengthWarning true
          ({ finished with detected := pattern }, pattern)

end

end ChannelDetector

structure StreamLoopDetector where
  answer : ChannelDetector := {}
  reasoning : ChannelDetector := {}
  interrupted : Bool := false
  deriving DecidableEq, Repr

/-- What an observation leads to. -/
structure Observed where
  detector : StreamLoopDetector
  report : Option RepetitionReport
  control : Control

namespace StreamLoopDetector

def channel (detector : StreamLoopDetector) : RepetitionChannel → ChannelDetector
  | .answer => detector.answer
  | .reasoning => detector.reasoning

def setChannel (detector : StreamLoopDetector) (replaced : ChannelDetector) :
    RepetitionChannel → StreamLoopDetector
  | .answer => { detector with answer := replaced }
  | .reasoning => { detector with reasoning := replaced }

section

variable (primitives : Primitives)

/-- Whether a poll behind the inspection is asked, and stops it. -/
def closes (interrupted : Bool) (control : Control) : Bool × Control :=
  if interrupted then (true, control) else (!control.keepGoing, control.next)

/-- A whole text of a turn, and the end of its last line and its last word. -/
def observeText (detector : ChannelDetector) (text : List Char) (control : Control) :
    ChannelDetector.Fed :=
  let fed := detector.feedWhile primitives text control
  match fed.pattern with
  | some _ => fed
  | none =>
      let line := fed.detector.feedWhile primitives ['\n'] fed.control
      let interrupted := fed.interrupted || line.interrupted
      match line.pattern with
      | some pattern => ⟨line.detector, some pattern, line.control, interrupted⟩
      | none =>
          let finished := line.detector.finish primitives false
          ⟨finished.1, finished.2, line.control, interrupted⟩

/-- The channels of a turn, one after the other. -/
def observeChannels (detector : StreamLoopDetector) (control : Control) :
    List (RepetitionChannel × List Char) → Observed
  | [] => ⟨detector, none, control⟩
  | (channel, text) :: rest =>
      let fed := observeText primitives (detector.channel channel) text control
      let observed := detector.setChannel fed.detector channel
      match closes fed.interrupted fed.control with
      | (true, control) => ⟨{ observed with interrupted := true }, none, control⟩
      | (false, control) =>
          match fed.pattern with
          | some pattern => ⟨observed, some (pattern.report channel), control⟩
          | none => observeChannels observed control rest

def turnTexts (turn : ModelTurn) : List (RepetitionChannel × List Char) :=
  [(.answer, turn.text.toList), (.reasoning, (turn.reasoning.getD "").toList)]

/-- A turn that repeats is reported and forgotten. -/
def observeTurnWhile (detector : StreamLoopDetector) (turn : ModelTurn) (control : Control) :
    Observed :=
  if detector.interrupted then ⟨detector, none, control⟩
  else
    let observed := detector.observeChannels primitives control (turnTexts turn)
    if observed.report.isSome then { observed with detector := detector } else observed

def observeDelta (detector : StreamLoopDetector) (channel : RepetitionChannel) (fragment : String)
    (control : Control) : Observed :=
  let fed := (detector.channel channel).feedWhile primitives fragment.toList control
  let observed := detector.setChannel fed.detector channel
  ⟨{ observed with interrupted := observed.interrupted || fed.interrupted },
    fed.pattern.map (·.report channel), fed.control⟩

def observeWhile (detector : StreamLoopDetector) (event : ModelStreamEvent) (control : Control) :
    Observed :=
  if detector.interrupted then ⟨{ detector with interrupted := true }, none, control⟩
  else if !control.keepGoing then ⟨{ detector with interrupted := true }, none, control.next⟩
  else
    match event with
    | .textDelta fragment => detector.observeDelta primitives .answer fragment control.next
    | .reasoningDelta fragment => detector.observeDelta primitives .reasoning fragment control.next
    | .toolIntent _ => ⟨detector, none, control.next⟩

def observe (detector : StreamLoopDetector) (event : ModelStreamEvent) :
    StreamLoopDetector × Option RepetitionReport :=
  let observed := detector.observeWhile primitives event .always
  (observed.detector, observed.report)

/-- The end of each channel, and its complete text once more. -/
def finishChannels (detector : StreamLoopDetector) (length : Bool) (control : Control) :
    List (RepetitionChannel × List Char) → Observed
  | [] => ⟨detector, none, control⟩
  | (channel, text) :: rest =>
      if !control.keepGoing then ⟨{ detector with interrupted := true }, none, control.next⟩
      else
        let finished := (detector.channel channel).finish primitives length
        let detector := detector.setChannel finished.1 channel
        match finished.2 with
        | some pattern => ⟨detector, some (pattern.report channel), control.next⟩
        | none =>
            let fed := ChannelDetector.feedWhile primitives {} text control.next
            match closes fed.interrupted fed.control with
            | (true, control) => ⟨{ detector with interrupted := true }, none, control⟩
            | (false, control) =>
                match fed.pattern with
                | some pattern => ⟨detector, some (pattern.report channel), control⟩
                | none =>
                    match (fed.detector.finish primitives length).2 with
                    | some pattern => ⟨detector, some (pattern.report channel), control⟩
                    | none => finishChannels detector length control rest

def finishWhile (detector : StreamLoopDetector) (turn : ModelTurn) (control : Control) : Observed :=
  if detector.interrupted then ⟨detector, none, control⟩
  else detector.finishChannels primitives (turn.finishReason == .length) control (turnTexts turn)

def finish (detector : StreamLoopDetector) (turn : ModelTurn) :
    StreamLoopDetector × Option RepetitionReport :=
  let observed := detector.finishWhile primitives turn .always
  (observed.detector, observed.report)

end

end StreamLoopDetector

end Kvist.LoopDetection
