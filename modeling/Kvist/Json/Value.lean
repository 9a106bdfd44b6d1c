/-!
# Compact JSON text

JSON values, their compact text and its length in bytes. A number is kept as the literal it is
written with, and the members of an object in the order in which they are written.
-/

set_option autoImplicit false

namespace Kvist.Json

inductive Value where
  | null
  | boolean (value : Bool)
  | number (literal : String)
  | string (text : String)
  | array (items : List Value)
  | object (members : List (String × Value))
  deriving Repr, Inhabited

namespace Value

/-- The first member of this name, of an object only. -/
def get? (value : Value) (name : String) : Option Value :=
  match value with
  | .object members => (members.find? (·.1 == name)).map (·.2)
  | _ => none

def asStr? : Value → Option String
  | .string text => some text
  | _ => none

def isObject : Value → Bool
  | .object _ => true
  | _ => false

end Value

def hexDigit (digit : Nat) : Char :=
  if digit < 10 then Char.ofNat ('0'.toNat + digit) else Char.ofNat ('a'.toNat + (digit - 10))

/-- A character inside a text: quotation marks, backslashes and control characters are escaped. -/
def escape (character : Char) : List Char :=
  if character = '"' then ['\\', '"']
  else if character = '\\' then ['\\', '\\']
  else if character = '\x08' then ['\\', 'b']
  else if character = '\x0c' then ['\\', 'f']
  else if character = '\n' then ['\\', 'n']
  else if character = '\x0d' then ['\\', 'r']
  else if character = '\t' then ['\\', 't']
  else if character.toNat < 0x20 then
    ['\\', 'u', '0', '0', hexDigit (character.toNat / 16), hexDigit (character.toNat % 16)]
  else [character]

def quote (text : String) : List Char := '"' :: (text.toList.flatMap escape ++ ['"'])

mutual

def compact : Value → List Char
  | .null => "null".toList
  | .boolean true => "true".toList
  | .boolean false => "false".toList
  | .number literal => literal.toList
  | .string text => quote text
  | .array items => '[' :: (compactItems items ++ [']'])
  | .object members => '{' :: (compactMembers members ++ ['}'])

def compactItems : List Value → List Char
  | [] => []
  | [item] => compact item
  | item :: rest => compact item ++ ',' :: compactItems rest

def compactMembers : List (String × Value) → List Char
  | [] => []
  | [(name, value)] => quote name ++ ':' :: compact value
  | (name, value) :: rest => quote name ++ ':' :: (compact value ++ ',' :: compactMembers rest)

end

def utf8Bytes : List Char → Nat
  | [] => 0
  | character :: rest => character.utf8Size + utf8Bytes rest

/-- The number of bytes that the compact text takes. -/
def serializedBytes (value : Value) : Nat := utf8Bytes (compact value)

def natural (value : Nat) : Value := .number (toString value)

end Kvist.Json
