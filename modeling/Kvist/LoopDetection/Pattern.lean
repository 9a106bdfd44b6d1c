import Kvist.Json.Bytes

/-!
# Periods in a history

The search for a passage that repeats at the end of a history of words or characters, exactly or
nearly. Hashes of parts of the history are compared first.
-/

set_option autoImplicit false

namespace Kvist.LoopDetection

def history : Nat := 2048
def maxPeriod : Nat := 512
def wordCadence : Nat := 8
def charCadence : Nat := 128
def minUnbrokenChars : Nat := 1024
def maxNearCandidates : Nat := 16
def base : UInt64 := 0x9e3779b185ebca87

inductive RepetitionChannel where
  | answer
  | reasoning
  deriving DecidableEq, Repr

inductive RepetitionUnit where
  | words
  | characters
  deriving DecidableEq, Repr

structure RepetitionReport where
  channel : RepetitionChannel
  unit : RepetitionUnit
  period : Nat
  copies : Nat
  similarityPercent : Nat
  deriving DecidableEq, Repr

structure Pattern where
  unit : RepetitionUnit
  period : Nat
  copies : Nat
  similarityPercent : Nat
  deriving DecidableEq, Repr

def Pattern.report (pattern : Pattern) (channel : RepetitionChannel) : RepetitionReport :=
  ⟨channel, pattern.unit, pattern.period, pattern.copies, pattern.similarityPercent⟩

structure Word where
  fingerprint : Nat
  prose : Bool
  numeric : Bool
  deriving DecidableEq, Repr

def Word.signature (word : Word) : UInt64 :=
  UInt64.ofNat word.fingerprint ^^^ UInt64.ofNat (word.fingerprint >>> 64) ^^^
    UInt64.ofNat word.prose.toNat ^^^ UInt64.ofNat word.numeric.toNat <<< 1

/-- The hashes of the initial parts of a history, and how many of its values are no prose. -/
structure Signatures where
  hashes : List UInt64
  powers : List UInt64
  structured : List Nat
  deriving Repr

namespace Signatures

def new (values : List (UInt64 × Bool)) : Signatures where
  hashes := (values.map (·.1)).scanl (fun hash value => hash * base + value) 0
  powers := values.scanl (fun power _ => power * base) 1
  structured := (values.map (·.2)).scanl (fun count prose => count + (!prose).toNat) 0

def hash (signatures : Signatures) (start length : Nat) : UInt64 :=
  signatures.hashes.getD (start + length) 0 -
    signatures.hashes.getD start 0 * signatures.powers.getD length 0

def prose (signatures : Signatures) (start length : Nat) : Bool :=
  signatures.structured.getD start 0 == signatures.structured.getD (start + length) 0

end Signatures

/-- The smallest period, and its copies, that the values end with. -/
def exactPeriod {Item : Type} [BEq Item] (values : List Item) (signatures : Signatures)
    (copies : Nat → Nat) : Option (Nat × Nat) :=
  (List.range' 1 (min maxPeriod (values.length / 2))).findSome? fun period =>
    let copies := copies period
    let span := period * copies
    if values.length < span then none
    else
      let start := values.length - span
      let first := (values.drop start).take period
      let signature := signatures.hash start period
      if (List.range' 1 (copies - 1)).all fun copy =>
          let next := start + copy * period
          signatures.hash next period == signature && first == (values.drop next).take period then
        some (period, copies)
      else none

/-- The number of places where two passages differ, unless there are too many or one is in a
number. -/
def mismatches (maxMismatches : Nat) : Nat → List (Word × Word) → Option Nat
  | count, [] => some count
  | count, (left, right) :: rest =>
      if left == right then mismatches maxMismatches count rest
      else if left.numeric || right.numeric || maxMismatches < count + 1 then none
      else mismatches maxMismatches (count + 1) rest

def similarPassages (values : List Word) (start period maxMismatches : Nat) : Option Nat :=
  let first := (values.drop start).take period
  let second := (values.drop (start + period)).take period
  let third := values.drop (start + 2 * period)
  (mismatches maxMismatches 0 (first.zip second)).bind fun one =>
    (mismatches maxMismatches 0 (first.zip third)).bind fun two =>
      (mismatches maxMismatches 0 (second.zip third)).map fun three => max one (max two three)

def anchorMatches (signatures : Signatures) (start period maxMismatches : Nat) (terminal : Bool) :
    Bool :=
  let matchesAnchor := fun offset =>
    let first := signatures.hash (start + offset) 8
    first == signatures.hash (start + period + offset) 8 &&
      first == signatures.hash (start + 2 * period + offset) 8
  if terminal then
    let anchors := maxMismatches * 3 / 2 + 1
    (List.range anchors).any fun index => matchesAnchor (index * (period - 8) / (anchors - 1))
  else [0, period / 2, period - 8].any matchesAnchor

def distinctWords (words : List Word) : Nat := (words.map (·.fingerprint)).eraseDups.length

/-- The search among the periods that are left, with the number of candidates so far. -/
def nearSearch (values : List Word) (signatures : Signatures) (terminal : Bool) :
    Nat → List Nat → Option Pattern
  | _, [] => none
  | candidates, period :: rest =>
      let start := values.length - 3 * period
      let maxMismatches := period * 6 / 100
      if !signatures.prose start (3 * period) ||
          !anchorMatches signatures start period maxMismatches terminal then
        nearSearch values signatures terminal candidates rest
      else
        let varied := 8 ≤ distinctWords ((values.drop start).take period)
        match (similarPassages values start period maxMismatches).filter fun _ => varied with
        | some worst => some ⟨.words, period, 3, (period - worst) * 100 / period⟩
        | none =>
            if candidates + 1 = maxNearCandidates then none
            else nearSearch values signatures terminal (candidates + 1) rest

def nearPeriod (values : List Word) (signatures : Signatures) (terminal : Bool) : Option Pattern :=
  nearSearch values signatures terminal 0
    (List.range' 50 (min maxPeriod (values.length / 3) + 1 - 50))

end Kvist.LoopDetection
