import Kvist.Json.Readable

/-!
# A parser of compact JSON text

The parser reads back every document that is printed, up to a bound on how deep arrays and
objects nest.
-/

set_option autoImplicit false

namespace Kvist.Json

def hexValue (character : Char) : Option Nat :=
  if character.isDigit then some (character.toNat - '0'.toNat)
  else if 'a' ≤ character ∧ character ≤ 'f' then some (character.toNat - 'a'.toNat + 10)
  else none

/-- The character that a letter after a backslash stands for. -/
def unescape (letter : Char) : Option Char :=
  match letter with
  | '"' => some '"'
  | '\\' => some '\\'
  | 'b' => some '\x08'
  | 'f' => some '\x0c'
  | 'n' => some '\n'
  | 'r' => some '\x0d'
  | 't' => some '\t'
  | _ => none

/-- The characters up to the closing quotation mark, and the text behind it. -/
def parseText : List Char → Option (List Char × List Char)
  | [] => none
  | '"' :: rest => some ([], rest)
  | '\\' :: 'u' :: '0' :: '0' :: high :: low :: rest =>
      (hexValue high).bind fun high => (hexValue low).bind fun low =>
        (parseText rest).map fun read => (Char.ofNat (high * 16 + low) :: read.1, read.2)
  | '\\' :: letter :: rest =>
      (unescape letter).bind fun character =>
        (parseText rest).map fun read => (character :: read.1, read.2)
  | character :: rest => (parseText rest).map fun read => (character :: read.1, read.2)

mutual

def parseValue : Nat → List Char → Option (Value × List Char)
  | 0, _ => none
  | _ + 1, 'n' :: 'u' :: 'l' :: 'l' :: rest => some (.null, rest)
  | _ + 1, 't' :: 'r' :: 'u' :: 'e' :: rest => some (.boolean true, rest)
  | _ + 1, 'f' :: 'a' :: 'l' :: 's' :: 'e' :: rest => some (.boolean false, rest)
  | _ + 1, '"' :: rest => (parseText rest).map fun read => (.string (String.ofList read.1), read.2)
  | _ + 1, '[' :: ']' :: rest => some (.array [], rest)
  | fuel + 1, '[' :: rest => (parseItems fuel rest).map fun read => (.array read.1, read.2)
  | _ + 1, '{' :: '}' :: rest => some (.object [], rest)
  | fuel + 1, '{' :: rest => (parseMembers fuel rest).map fun read => (.object read.1, read.2)
  | _ + 1, text =>
      if (text.takeWhile numeral).isEmpty then none
      else some (.number (String.ofList (text.takeWhile numeral)), text.dropWhile numeral)

def parseItems : Nat → List Char → Option (List Value × List Char)
  | 0, _ => none
  | fuel + 1, text =>
      (parseValue fuel text).bind fun read =>
        match read.2 with
        | ',' :: rest => (parseItems fuel rest).map fun others => (read.1 :: others.1, others.2)
        | ']' :: rest => some ([read.1], rest)
        | _ => none

def parseMembers : Nat → List Char → Option (List (String × Value) × List Char)
  | 0, _ => none
  | fuel + 1, '"' :: text =>
      (parseText text).bind fun name =>
        match name.2 with
        | ':' :: text =>
            (parseValue fuel text).bind fun read =>
              match read.2 with
              | ',' :: rest => (parseMembers fuel rest).map fun others =>
                  ((String.ofList name.1, read.1) :: others.1, others.2)
              | '}' :: rest => some ([(String.ofList name.1, read.1)], rest)
              | _ => none
        | _ => none
  | _ + 1, _ => none

end

private theorem hexValue_hexDigit : ∀ digit < 16, hexValue (hexDigit digit) = some digit := by
  decide

private theorem parseText_escape (character : Char) (rest : List Char) :
    parseText (escape character ++ rest) =
      (parseText rest).map fun read => (character :: read.1, read.2) := by
  unfold escape
  split
  · rename_i same
    simp [parseText, unescape, same]
  · split
    · rename_i same
      simp [parseText, unescape, same]
    · split
      · rename_i same
        simp [parseText, unescape, same]
      · split
        · rename_i same
          simp [parseText, unescape, same]
        · split
          · rename_i same
            simp [parseText, unescape, same]
          · split
            · rename_i same
              simp [parseText, unescape, same]
            · split
              · rename_i same
                simp [parseText, unescape, same]
              · split
                · rename_i control
                  have high := hexValue_hexDigit (character.toNat / 16) (by omega)
                  have low := hexValue_hexDigit (character.toNat % 16) (by omega)
                  have same : Char.ofNat (character.toNat / 16 * 16 + character.toNat % 16) =
                      character := by
                    rw [show character.toNat / 16 * 16 + character.toNat % 16 = character.toNat by
                      omega]
                    exact Char.ofNat_toNat character
                  simp only [List.cons_append, List.nil_append, parseText, high, low,
                    Option.bind_some, same]
                · rename_i quotation backslash _ _ _ _ _ _
                  simp only [List.cons_append, List.nil_append]
                  rw [parseText.eq_def]
                  split <;> simp_all

theorem parseText_quote (text : List Char) (rest : List Char) :
    parseText (text.flatMap escape ++ '"' :: rest) = some (text, rest) := by
  induction text with
  | nil => simp [parseText]
  | cons character text ih =>
      rw [List.flatMap_cons, List.append_assoc, parseText_escape, ih]
      rfl

/-- A text that no number literal goes on with. -/
def Ends (text : List Char) : Prop := ∀ first rest, text = first :: rest → numeral first = false

private theorem ends_cons {first : Char} (rest : List Char) (other : numeral first = false) :
    Ends (first :: rest) := by
  intro head tail same
  cases same
  exact other

private theorem parseValue_literal {literal rest : List Char} (nonempty : literal ≠ [])
    (numerals : literal.all numeral = true) (ends : Ends rest) (fuel : Nat) :
    parseValue (fuel + 1) (literal ++ rest) = some (.number (String.ofList literal), rest) := by
  have taken : (literal ++ rest).takeWhile numeral = literal := by
    rw [List.takeWhile_append_of_pos (List.all_eq_true.mp numerals)]
    cases rest with
    | nil => exact List.append_nil _
    | cons first rest =>
        rw [List.takeWhile_cons_of_neg (by rw [ends first rest rfl]; decide), List.append_nil]
  have dropped : (literal ++ rest).dropWhile numeral = rest := by
    rw [List.dropWhile_append_of_pos (List.all_eq_true.mp numerals)]
    cases rest with
    | nil => rfl
    | cons first rest =>
        exact List.dropWhile_cons_of_neg (by rw [ends first rest rfl]; decide)
  cases literal with
  | nil => exact absurd rfl nonempty
  | cons first others =>
      have head : numeral first = true := List.all_eq_true.mp numerals _ List.mem_cons_self
      rw [List.cons_append] at taken dropped ⊢
      rw [parseValue.eq_def]
      split
      case h_10 => simp [*]
      all_goals simp_all [numeral]

private theorem parseValue_closing (fuel : Nat) (rest : List Char) :
    parseValue fuel (']' :: rest) = none := by
  cases fuel with
  | zero => rfl
  | succ fuel => simp [parseValue, numeral]

private theorem parseItems_closing (fuel : Nat) (rest : List Char) :
    parseItems fuel (']' :: rest) = none := by
  cases fuel with
  | zero => rfl
  | succ fuel => simp [parseItems, parseValue_closing]

private theorem parseMembers_closing (fuel : Nat) (rest : List Char) :
    parseMembers fuel ('}' :: rest) = none := by
  cases fuel with
  | zero => rfl
  | succ fuel => simp [parseMembers]

private theorem parseValue_array {fuel : Nat} {text rest : List Char} {items : List Value}
    (parsed : parseItems fuel text = some (items, rest)) :
    parseValue (fuel + 1) ('[' :: text) = some (.array items, rest) := by
  cases text with
  | nil => simp [parseValue, parsed]
  | cons first others =>
      by_cases closing : first = ']'
      · rw [closing, parseItems_closing] at parsed
        cases parsed
      · rw [parseValue.eq_def]
        split <;> simp_all

private theorem parseValue_object {fuel : Nat} {text rest : List Char}
    {members : List (String × Value)} (parsed : parseMembers fuel text = some (members, rest)) :
    parseValue (fuel + 1) ('{' :: text) = some (.object members, rest) := by
  cases text with
  | nil => simp [parseValue, parsed]
  | cons first others =>
      by_cases closing : first = '}'
      · rw [closing, parseMembers_closing] at parsed
        cases parsed
      · rw [parseValue.eq_def]
        split <;> simp_all

mutual

/-- The parser reads the text of a value, and no further. -/
theorem parseValue_compact (value : Value) (wellFormed : value.wellFormed = true)
    (fuel : Nat) (enough : (compact value).length ≤ fuel) (rest : List Char) (ends : Ends rest) :
    parseValue fuel (compact value ++ rest) = some (value, rest) := by
  cases value with
  | null =>
      obtain ⟨fuel, rfl⟩ : ∃ left, fuel = left + 1 := ⟨fuel - 1, by simp [compact] at enough; omega⟩
      simp [compact, parseValue]
  | boolean value =>
      obtain ⟨fuel, rfl⟩ : ∃ left, fuel = left + 1 :=
        ⟨fuel - 1, by cases value <;> simp [compact] at enough <;> omega⟩
      cases value <;> simp [compact, parseValue]
  | number literal =>
      simp only [Value.wellFormed, Bool.and_eq_true, Bool.not_eq_true', List.isEmpty_eq_false_iff]
        at wellFormed
      have positive := List.length_pos_iff.mpr wellFormed.1
      obtain ⟨fuel, rfl⟩ : ∃ left, fuel = left + 1 :=
        ⟨fuel - 1, by simp only [compact] at enough; omega⟩
      have parsed := parseValue_literal wellFormed.1 wellFormed.2 ends fuel
      rw [String.ofList_toList] at parsed
      exact parsed
  | string text =>
      obtain ⟨fuel, rfl⟩ : ∃ left, fuel = left + 1 :=
        ⟨fuel - 1, by simp [compact, quote] at enough; omega⟩
      have read := parseText_quote text.toList rest
      simp [compact, quote, parseValue, read]
  | array items =>
      simp only [compact, List.length_cons, List.length_append, List.length_nil] at enough
      obtain ⟨fuel, rfl⟩ : ∃ left, fuel = left + 1 := ⟨fuel - 1, by omega⟩
      cases items with
      | nil => simp [compact, compactItems, parseValue]
      | cons item others =>
          have parsed := parseItems_compact (item :: others) (by simp) wellFormed fuel (by omega)
            rest
          simpa [compact] using parseValue_array parsed
  | object members =>
      simp only [compact, List.length_cons, List.length_append, List.length_nil] at enough
      obtain ⟨fuel, rfl⟩ : ∃ left, fuel = left + 1 := ⟨fuel - 1, by omega⟩
      cases members with
      | nil => simp [compact, compactMembers, parseValue]
      | cons member others =>
          have parsed := parseMembers_compact (member :: others) (by simp) wellFormed fuel
            (by omega) rest
          simpa [compact] using parseValue_object parsed

private theorem parseItems_compact (items : List Value) (nonempty : items ≠ [])
    (wellFormed : Value.wellFormedItems items = true) (fuel : Nat)
    (enough : (compactItems items).length < fuel) (rest : List Char) :
    parseItems fuel (compactItems items ++ ']' :: rest) = some (items, rest) := by
  obtain ⟨fuel, rfl⟩ : ∃ left, fuel = left + 1 := ⟨fuel - 1, by omega⟩
  match items with
  | [] => exact absurd rfl nonempty
  | [item] =>
      simp only [Value.wellFormedItems, Bool.and_eq_true] at wellFormed
      have read := parseValue_compact item wellFormed.1 fuel
        (by simp only [compactItems] at enough; omega) (']' :: rest) (ends_cons rest rfl)
      simp [compactItems, parseItems, read]
  | item :: next :: others =>
      rw [Value.wellFormedItems, Bool.and_eq_true] at wellFormed
      simp only [compactItems, List.length_append, List.length_cons] at enough
      have read := parseValue_compact item wellFormed.1 fuel (by omega)
        (',' :: (compactItems (next :: others) ++ ']' :: rest)) (ends_cons _ rfl)
      have more := parseItems_compact (next :: others) (by simp) wellFormed.2 fuel (by omega) rest
      simp [compactItems, parseItems, read, more]

private theorem parseMembers_compact (members : List (String × Value)) (nonempty : members ≠ [])
    (wellFormed : Value.wellFormedMembers members = true) (fuel : Nat)
    (enough : (compactMembers members).length < fuel) (rest : List Char) :
    parseMembers fuel (compactMembers members ++ '}' :: rest) = some (members, rest) := by
  obtain ⟨fuel, rfl⟩ : ∃ left, fuel = left + 1 := ⟨fuel - 1, by omega⟩
  match members with
  | [] => exact absurd rfl nonempty
  | [(name, value)] =>
      simp only [Value.wellFormedMembers, Bool.and_eq_true] at wellFormed
      simp only [compactMembers, List.length_append, List.length_cons] at enough
      have read := parseValue_compact value wellFormed.1 fuel (by omega) ('}' :: rest)
        (ends_cons rest rfl)
      have named := parseText_quote name.toList (':' :: (compact value ++ '}' :: rest))
      simp [compactMembers, quote, parseMembers, named, read]
  | (name, value) :: next :: others =>
      rw [Value.wellFormedMembers, Bool.and_eq_true] at wellFormed
      simp only [compactMembers, List.length_append, List.length_cons] at enough
      have read := parseValue_compact value wellFormed.1 fuel (by omega)
        (',' :: (compactMembers (next :: others) ++ '}' :: rest)) (ends_cons _ rfl)
      have more := parseMembers_compact (next :: others) (by simp) wellFormed.2 fuel (by omega) rest
      have named := parseText_quote name.toList
        (':' :: (compact value ++ ',' :: (compactMembers (next :: others) ++ '}' :: rest)))
      simp [compactMembers, quote, parseMembers, named, read, more]

end

/-- The document in a text and the white space behind it, if it nests no deeper than the bound. -/
def parseSlice (bytes : List UInt8) : Option Value :=
  bytes.toByteArray.utf8Decode?.bind fun text =>
    (parseValue text.size text.toList).bind fun read =>
      if read.2.all (· == '\n') ∧ read.1.depth < 128 then some read.1 else none

private theorem parseSlice_compact (value : Value) (wellFormed : value.wellFormed = true)
    (blank : List Char) (spaces : blank.all (· == '\n') = true) :
    parseSlice (encode value ++ utf8 blank) = if value.depth < 128 then some value else none := by
  have decoded := List.utf8Decode?_utf8Encode (l := compact value ++ blank)
  have bytes : encode value ++ utf8 blank = utf8 (compact value ++ blank) :=
    (utf8_append ..).symm
  have ends : Ends blank := by
    intro first rest same
    rw [same, List.all_cons, Bool.and_eq_true, beq_iff_eq] at spaces
    rw [spaces.1]
    decide
  have read := parseValue_compact value wellFormed (compact value ++ blank).length (by simp) blank
    ends
  simp only [List.utf8Encode] at decoded
  rw [parseSlice, bytes, utf8, decoded]
  simp only [Option.bind_some, List.size_toArray, read, spaces, true_and]

theorem parseSlice_reads : Reads parseSlice where
  naturals := by
    intro number small
    have read := parseSlice_compact (natural number) (wellFormed_natural number) [] rfl
    have shallow : (natural number).depth < 128 := Nat.zero_lt_succ 127
    rwa [show utf8 [] = [] from rfl, List.append_nil, if_pos shallow] at read
  documents := by
    intro document blank member
    have formed := document.property.wellFormed
    simp only [List.mem_cons, List.not_mem_nil, or_false] at member
    rcases member with rfl | rfl
    · exact parseSlice_compact document.val formed [] rfl
    · exact parseSlice_compact document.val formed ['\n'] rfl

end Kvist.Json
