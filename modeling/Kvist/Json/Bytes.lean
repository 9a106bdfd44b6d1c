import Std.Data.String.ToNat
import Kvist.Json.Value

/-!
# The bytes of JSON text

The compact text of a value as UTF-8, and how deep its arrays and objects nest. No line feed
stands anywhere in the bytes of a document, so that a line feed ends its line.
-/

set_option autoImplicit false

namespace Kvist.Json

/-- The characters that a number literal is made of. -/
def numeral (character : Char) : Bool :=
  character.isDigit || character == '-' || character == '+' || character == '.' ||
    character == 'e' || character == 'E'

def newline : UInt8 := 10

namespace Value

mutual

/-- The number of arrays and objects around the innermost part of the value. -/
def depth : Value → Nat
  | .null | .boolean _ | .number _ | .string _ => 0
  | .array items => depthOfItems items + 1
  | .object members => depthOfMembers members + 1

def depthOfItems : List Value → Nat
  | [] => 0
  | item :: rest => max (depth item) (depthOfItems rest)

def depthOfMembers : List (String × Value) → Nat
  | [] => 0
  | (_, value) :: rest => max (depth value) (depthOfMembers rest)

end

mutual

/-- Every number literal in the value is one. -/
def wellFormed : Value → Bool
  | .null | .boolean _ | .string _ => true
  | .number literal => !literal.toList.isEmpty && literal.toList.all numeral
  | .array items => wellFormedItems items
  | .object members => wellFormedMembers members

def wellFormedItems : List Value → Bool
  | [] => true
  | item :: rest => wellFormed item && wellFormedItems rest

def wellFormedMembers : List (String × Value) → Bool
  | [] => true
  | (_, value) :: rest => wellFormed value && wellFormedMembers rest

end

end Value

theorem wellFormed_natural (value : Nat) : (natural value).wellFormed = true := by
  have digits : (toString value).toList = Nat.toDigits 10 value := Nat.toList_repr
  have nonempty : Nat.toDigits 10 value ≠ [] := Nat.toDigits_ne_nil
  simp only [natural, Value.wellFormed, digits, Bool.and_eq_true, Bool.not_eq_true',
    List.isEmpty_eq_false_iff, List.all_eq_true]
  refine ⟨nonempty, ?_⟩
  intro character member
  have digit := Nat.isDigit_of_mem_toDigits (by decide) (by decide) member
  simp [numeral, digit]

def utf8 (text : List Char) : List UInt8 := text.flatMap String.utf8EncodeChar

def encode (value : Value) : List UInt8 := utf8 (compact value)

@[simp]
theorem utf8_append (front back : List Char) : utf8 (front ++ back) = utf8 front ++ utf8 back :=
  List.flatMap_append

theorem utf8Bytes_append (front back : List Char) :
    utf8Bytes (front ++ back) = utf8Bytes front + utf8Bytes back := by
  induction front with
  | nil => rw [List.nil_append, utf8Bytes, Nat.zero_add]
  | cons character rest rests =>
    rw [List.cons_append, utf8Bytes, utf8Bytes, rests, Nat.add_assoc]

theorem length_utf8 (text : List Char) : (utf8 text).length = utf8Bytes text := by
  induction text with
  | nil => rfl
  | cons character rest ih =>
      rw [utf8Bytes, ← ih, utf8, List.flatMap_cons, List.length_append, String.length_utf8EncodeChar]
      rfl

/-- A text is told by its bytes. -/
theorem utf8_injective {left right : List Char} (same : utf8 left = utf8 right) : left = right := by
  apply String.ofList_injective
  rw [← String.toByteArray_inj, String.toByteArray_ofList, String.toByteArray_ofList]
  exact congrArg List.toByteArray same

/-- The bytes of a character above 127 are all above 127. -/
theorem utf8EncodeChar_large {character : Char} (large : 127 < character.toNat)
    {byte : UInt8} (member : byte ∈ String.utf8EncodeChar character) : 127 < byte.toNat := by
  have above (value : Nat) (low : 127 < value) (high : value < 256) :
      127 < (UInt8.ofNat value).toNat := by
    rw [UInt8.toNat_ofNat', Nat.mod_eq_of_lt high]
    exact low
  simp only [String.utf8EncodeChar] at member
  change 127 < character.val.toNat at large
  rw [if_neg (by omega)] at member
  split at member
  · simp only [List.mem_cons, List.not_mem_nil, or_false] at member
    rcases member with rfl | rfl <;> exact above _ (by omega) (by omega)
  · split at member
    · simp only [List.mem_cons, List.not_mem_nil, or_false] at member
      rcases member with rfl | rfl | rfl <;> exact above _ (by omega) (by omega)
    · simp only [List.mem_cons, List.not_mem_nil, or_false] at member
      rcases member with rfl | rfl | rfl | rfl <;> exact above _ (by omega) (by omega)

theorem utf8EncodeChar_ascii {character : Char} {byte : UInt8} (ascii : byte.toNat < 128)
    (member : byte ∈ String.utf8EncodeChar character) : character.toNat = byte.toNat := by
  rcases Nat.lt_or_ge 127 character.toNat with large | small
  · exact absurd (utf8EncodeChar_large large member) (by omega)
  · simp only [String.utf8EncodeChar] at member
    change character.val.toNat ≤ 127 at small
    rw [if_pos (by omega), List.mem_singleton] at member
    rw [member, UInt8.toNat_ofNat', Nat.mod_eq_of_lt (by omega)]
    rfl

private theorem utf8EncodeChar_newline {character : Char}
    (member : newline ∈ String.utf8EncodeChar character) : character = '\n' :=
  Char.toNat_inj.mp (utf8EncodeChar_ascii (by decide) member)

private theorem newline_utf8 {text : List Char} (member : newline ∈ utf8 text) : '\n' ∈ text := by
  obtain ⟨character, present, byte⟩ := List.mem_flatMap.mp member
  exact utf8EncodeChar_newline byte ▸ present

private theorem hexDigit_ne_newline : ∀ digit < 16, hexDigit digit ≠ '\n' := by decide

private theorem newline_escape (character : Char) : '\n' ∉ escape character := by
  unfold escape
  split
  · decide
  · split
    · decide
    · split
      · decide
      · split
        · decide
        · split
          · decide
          · split
            · decide
            · split
              · decide
              · rename_i other _ _
                split
                · rename_i control
                  have high := hexDigit_ne_newline (character.toNat / 16) (by omega)
                  have low := hexDigit_ne_newline (character.toNat % 16) (by omega)
                  simp [high.symm, low.symm]
                · simp only [List.mem_singleton]
                  exact fun same => other same.symm

private theorem newline_quote (text : String) : '\n' ∉ quote text := by
  simp only [quote, List.mem_cons, List.mem_append, List.mem_flatMap, List.not_mem_nil, or_false,
    not_or, not_exists, not_and]
  exact ⟨by decide, fun character _ => newline_escape character, by decide⟩

private theorem newline_numeral {text : List Char} (numerals : text.all numeral = true) :
    '\n' ∉ text := by
  intro member
  exact absurd (List.all_eq_true.mp numerals _ member) (by decide)

mutual

private theorem newline_compact (value : Value) (wellFormed : value.wellFormed = true) :
    '\n' ∉ compact value := by
  cases value with
  | null => decide
  | boolean value => cases value <;> decide
  | number literal =>
      simp only [Value.wellFormed, Bool.and_eq_true] at wellFormed
      exact newline_numeral wellFormed.2
  | string text => exact newline_quote text
  | array items =>
      have inside := newline_compactItems items wellFormed
      simp [compact, inside]
  | object members =>
      have inside := newline_compactMembers members wellFormed
      simp [compact, inside]

private theorem newline_compactItems (items : List Value)
    (wellFormed : Value.wellFormedItems items = true) : '\n' ∉ compactItems items := by
  match items with
  | [] => simp [compactItems]
  | [item] =>
      simp only [Value.wellFormedItems, Bool.and_eq_true] at wellFormed
      exact newline_compact item wellFormed.1
  | item :: next :: rest =>
      rw [Value.wellFormedItems, Bool.and_eq_true] at wellFormed
      have first := newline_compact item wellFormed.1
      have others := newline_compactItems (next :: rest) wellFormed.2
      simp [compactItems, first, others]

private theorem newline_compactMembers (members : List (String × Value))
    (wellFormed : Value.wellFormedMembers members = true) : '\n' ∉ compactMembers members := by
  match members with
  | [] => simp [compactMembers]
  | [(name, value)] =>
      simp only [Value.wellFormedMembers, Bool.and_eq_true] at wellFormed
      have first := newline_compact value wellFormed.1
      simp [compactMembers, first, newline_quote]
  | (name, value) :: next :: rest =>
      rw [Value.wellFormedMembers, Bool.and_eq_true] at wellFormed
      have first := newline_compact value wellFormed.1
      have others := newline_compactMembers (next :: rest) wellFormed.2
      simp [compactMembers, first, others, newline_quote]

end

/-- No line feed stands in the bytes of a document. -/
theorem newline_encode {value : Value} (wellFormed : value.wellFormed = true) :
    newline ∉ encode value :=
  fun member => newline_compact value wellFormed (newline_utf8 member)

end Kvist.Json
