import Mathlib.Data.List.Basic

/-!
# Loaded documents and their typed reading

A loaded document keeps the spelling of a plain scalar next to what it resolves to, since a
reader that knows the wanted type takes the spelling of any scalar for a text, while a reader
of the untyped document takes only scalars that resolve to a text. A `View` is one of the two.
-/

set_option autoImplicit false

namespace Kvist.Yaml

/-- What a plain scalar resolves to. -/
inductive Resolved where
  | null
  | boolean (value : Bool)
  | integer (value : Int)
  | real
  | string
  deriving DecidableEq, Repr

/-- A document with its aliases replaced; tags are not represented. -/
inductive Value where
  | plain (text : String) (resolved : Resolved)
  | quoted (text : String)
  | sequence (items : List Value)
  | mapping (entries : List (Value × Value))
  deriving Repr

/-- How a reader takes a value for a text or for a sequence. -/
structure View where
  text : Value → Option String
  sequence : Value → Option (List Value)

/-- Reading straight into a type: every scalar is a text, and nothing is an empty sequence. -/
def typedView : View where
  text
    | .plain text _ | .quoted text => some text
    | _ => none
  sequence
    | .sequence items => some items
    | .plain "" _ => some []
    | _ => none

/-- Reading a type from the untyped document. -/
def untypedView : View where
  text
    | .plain text .string | .quoted text => some text
    | _ => none
  sequence
    | .sequence items => some items
    | .plain _ .null => some []
    | _ => none

def Value.isNull : Value → Bool
  | .plain _ .null => true
  | _ => false

/-- An unsigned integer below `bound`. -/
def Value.unsigned (bound : Nat) : Value → Option Nat
  | .plain _ (.integer (.ofNat value)) => if value < bound then some value else none
  | _ => none

def Value.boolean : Value → Option Bool
  | .plain _ (.boolean value) => some value
  | _ => none

/-- The fields of a record type that refuses unknown fields and repeated ones. -/
def View.fields (view : View) (known : List String) : Value → Option (List (String × Value))
  | .mapping entries => do
      let fields ← entries.mapM fun entry => do
        let name ← view.text entry.1
        if name ∈ known then some (name, entry.2) else none
      if (fields.map (·.1)).Nodup then some fields else none
  | _ => none

/-- The fields of a record type that passes over unknown ones. -/
def View.lenientFields (view : View) (known : List String) :
    Value → Option (List (String × Value))
  | .mapping entries => do
      let fields ← entries.mapM fun entry => do
        let name ← view.text entry.1
        some (name, entry.2)
      let fields := fields.filter fun field => field.1 ∈ known
      if (fields.map (·.1)).Nodup then some fields else none
  | _ => none

/-- A field that must be present. -/
def requiredField {α : Type} (fields : List (String × Value)) (name : String)
    (decode : Value → Option α) : Option α := do
  let value ← fields.lookup name
  decode value

def optionalField {α : Type} (fields : List (String × Value)) (name : String)
    (decode : Value → Option α) : Option (Option α) :=
  match fields.lookup name with
  | none => some none
  | some value => if value.isNull then some none else (decode value).map some

def defaultField {α : Type} (fields : List (String × Value)) (name : String) (default : α)
    (decode : Value → Option α) : Option α :=
  match fields.lookup name with
  | none => some default
  | some value => decode value

/-- One of finitely many names. -/
def View.choice {α : Type} (view : View) (choices : List (String × α)) (value : Value) :
    Option α := do
  let name ← view.text value
  choices.lookup name

def View.list {α : Type} (view : View) (decode : Value → Option α) (value : Value) :
    Option (List α) := do
  let items ← view.sequence value
  items.mapM decode

end Kvist.Yaml
