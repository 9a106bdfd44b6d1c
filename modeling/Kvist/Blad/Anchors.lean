import Mathlib.Data.Finset.Card
import Mathlib.Data.Finset.Option
import Mathlib.Data.String.Basic
import Kvist.OrderedMap
import Kvist.Text
import Kvist.Transitions

/-!
# Heading anchors

A pass over the events of a document gives every heading its ids: one from its label, and the one
its author wrote. The viewer marks the ids of a heading with the row it is rendered on.
-/

set_option autoImplicit false

namespace Kvist.Blad

open Transitions

/-- A piece of projected HTML, as far as it shows in a label. -/
inductive HtmlPiece where
  | text (text : List Char)
  | other

/-- The events that matter to the anchors. Every other event is left out. -/
inductive Event where
  | startHeading (offset : Nat) (id : Option String)
  | text (text : List Char)
  | html (source : List Char)
  | lineBreak
  | endHeading

/-- What the pass is given from elsewhere: the projection of HTML with its state, and the Unicode
tables of the standard library. -/
structure LabelRules where
  HtmlState : Type
  start : HtmlState
  project : HtmlState → List Char → List HtmlPiece × HtmlState
  lowercase : List Char → List Char
  isAlphanumeric : Char → Bool

structure AnchorState (rules : LabelRules) where
  anchors : OrderedMap Nat (List String)
  used : Finset String
  suffixes : OrderedMap String Nat
  heading : Option (Nat × Option String)
  label : List Char
  html : rules.HtmlState

variable (rules : LabelRules)

/-- The id of a label, before anything is told apart. -/
def slug (label : List Char) : String :=
  String.ofList ((rules.lowercase label).filterMap fun character =>
    if Text.isWhitespace character then some '-'
    else if rules.isAlphanumeric character || character == '-' || character == '_' then
      some character
    else none)

def suffixed (base : String) (suffix : Nat) : String := base ++ "-" ++ toString suffix

/-- The loop that counts the suffix up while the id is used, with a bound on its rounds. -/
def searchId (base : String) (used : Finset String) : Nat → Nat → String → Option (Nat × String)
  | 0, suffix, id => if id ∈ used then none else some (suffix, id)
  | fuel + 1, suffix, id =>
      if id ∈ used then searchId base used fuel (suffix + 1) (suffixed base (suffix + 1))
      else some (suffix, id)

def closeHeading (state : AnchorState rules) (offset : Nat) (explicit : Option String) :
    Option (AnchorState rules) := do
  let base := slug rules state.label
  let (suffix, id) ←
    searchId base state.used state.used.card ((state.suffixes.get base).getD 0) base
  return { state with
    heading := none
    suffixes := state.suffixes.insert base suffix
    used := explicit.toFinset ∪ insert id state.used
    anchors := state.anchors.insert offset (id :: explicit.toList) }

def pieceText : HtmlPiece → List Char
  | .text text => text
  | .other => [' ']

def addLabel (state : AnchorState rules) (text : List Char) : AnchorState rules :=
  if state.heading.isSome then { state with label := state.label ++ text } else state

def anchorStep (state : AnchorState rules) : Event → Option (AnchorState rules)
  | .startHeading offset id => some { state with heading := some (offset, id), label := [] }
  | .text text => some (addLabel rules state text)
  | .html source =>
      let (pieces, html) := rules.project state.html source
      some (addLabel rules { state with html := html } (pieces.flatMap pieceText))
  | .lineBreak => some (addLabel rules state [' '])
  | .endHeading =>
      match state.heading with
      | some (offset, explicit) => closeHeading rules state offset explicit
      | none => some state

def anchorStart : AnchorState rules where
  anchors := OrderedMap.empty
  used := ∅
  suffixes := OrderedMap.empty
  heading := none
  label := []
  html := rules.start

def headingAnchors (events : List Event) : Option (OrderedMap Nat (List String)) :=
  (run (anchorStep rules) (anchorStart rules) events).map (·.anchors)

/-! ## The viewer -/

def markAnchor (row : Nat) (marked : OrderedMap String Nat) (id : String) :
    OrderedMap String Nat :=
  if (marked.get id).isSome then marked else marked.insert id row

def renderHeading (row : Nat → Nat) (state : OrderedMap Nat (List String) × OrderedMap String Nat)
    (offset : Nat) : OrderedMap Nat (List String) × OrderedMap String Nat :=
  match state.1.get offset with
  | some ids =>
      (state.1.retain fun other _ => other != offset, ids.foldl (markAnchor (row offset)) state.2)
  | none => state

def headingOffset : Event → Option Nat
  | .startHeading offset _ => some offset
  | _ => none

/-- The map of the viewer, whose renderer meets the same headings, each on its row. -/
def viewerAnchors (row : Nat → Nat) (events : List Event)
    (anchors : OrderedMap Nat (List String)) : OrderedMap String Nat :=
  ((events.filterMap headingOffset).foldl (renderHeading row) (anchors, OrderedMap.empty)).2

end Kvist.Blad
