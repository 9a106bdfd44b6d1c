import Kvist.Json.Parser
import Kvist.Json.Tokens
import Kvist.Transport.Arguments

/-!
# What the repair of arguments keeps

The repair reads a text with raw control characters in its strings and commas before its closing
brackets as the value that was meant, unless a control character is none of those with a short
escape: it is then written in a way that no reader of JSON takes.
-/

set_option autoImplicit false

namespace Kvist.Transport

open Text
open Json (Value Mode Token tokens Blank Spelled TokenSpelled TextSpelled CharSpelled marked inside
  endMode WithTrailing dropTokens)

/-! ## The first pass -/

/-- A control character, as the first pass writes it inside a string. -/
def escapeControl (character : Char) : List Char :=
  if character = '\n' then ['\\', 'n']
  else if character = '\r' then ['\\', 'r']
  else if character = '\t' then ['\\', 't']
  else if isControl character then escapeUnicode character
  else [character]

def escapePart (part : Mode × Char) : List Char :=
  if part.1 = .text then escapeControl part.2 else [part.2]

theorem escapeControl_of_ordinary {character : Char} (ordinary : isControl character = false) :
    escapeControl character = [character] := by
  have other : ∀ control : Char, isControl control = true → character ≠ control := by
    rintro control isOne rfl
    rw [ordinary] at isOne
    cases isOne
  rw [escapeControl, if_neg (other '\n' (by decide)), if_neg (other '\r' (by decide)),
    if_neg (other '\t' (by decide)), ordinary, if_neg Bool.false_ne_true]

theorem not_control_of_quote {character : Char} (quote : character = '"' ∨ character = '\\') :
    escapeControl character = [character] := by
  rcases quote with rfl | rfl <;> decide

/-- The first pass, one character after the other. -/
theorem escapeRawControls_eq (text : List Char) :
    escapeRawControls false false text = (marked .outside text).flatMap escapePart ∧
      escapeRawControls true false text = (marked .text text).flatMap escapePart ∧
      escapeRawControls true true text = (marked .escaped text).flatMap escapePart := by
  induction text with
  | nil => exact ⟨rfl, rfl, rfl⟩
  | cons character rest ih =>
      obtain ⟨outside, opened, escaped⟩ := ih
      refine ⟨?_, ?_, ?_⟩
      · rw [escapeRawControls, marked, List.flatMap_cons, escapePart, if_neg Mode.noConfusion,
          Mode.next]
        by_cases quote : character = '"'
        · rw [quote, beq_self_eq_true, if_pos rfl, opened]
          rfl
        · rw [beq_false_of_ne quote, if_neg quote, outside]
          rfl
      · rw [escapeRawControls, marked, List.flatMap_cons, escapePart, if_pos rfl, Mode.next]
        by_cases backslash : character = '\\'
        · rw [if_pos backslash, not_control_of_quote (.inr backslash), backslash,
            if_neg (by decide), if_pos rfl, escaped]
          rfl
        · rw [if_neg backslash]
          by_cases quote : character = '"'
          · rw [if_pos quote, if_pos quote, not_control_of_quote (.inl quote), outside]
            rfl
          · rw [if_neg quote, if_neg quote, if_neg backslash, opened, escapeControl]
            repeat' split
            all_goals rfl
      · rw [escapeRawControls, marked, List.flatMap_cons, escapePart, if_neg Mode.noConfusion,
          Mode.next, opened]
        rfl

theorem escapeRawControls_append {front back : List Char}
    (closed : endMode .outside front = .outside) :
    escapeRawControls false false (front ++ back) =
      escapeRawControls false false front ++ escapeRawControls false false back := by
  rw [(escapeRawControls_eq _).1, (escapeRawControls_eq _).1, (escapeRawControls_eq _).1,
    Json.marked_append, closed, List.flatMap_append]

/-- No control characters inside the strings of a text but those with a short escape. -/
def PlainFrom (mode : Mode) (text : List Char) : Prop :=
  ∀ character, (Mode.text, character) ∈ marked mode text → isControl character = true →
    character = '\n' ∨ character = '\r' ∨ character = '\t'

theorem PlainFrom.of_append {mode : Mode} {front back : List Char}
    (plain : PlainFrom mode (front ++ back)) :
    PlainFrom mode front ∧ PlainFrom (endMode mode front) back := by
  rw [PlainFrom, Json.marked_append] at plain
  constructor
  · exact fun character member => plain character (List.mem_append_left _ member)
  · exact fun character member => plain character (List.mem_append_right _ member)

/-- A text that stays inside a string. -/
structure Within (text : List Char) : Prop where
  ends : endMode .text text = .text
  stays : ∀ part ∈ marked .text text, part.1 ≠ .outside

theorem Within.append {front back : List Char} (first : Within front) (second : Within back) :
    Within (front ++ back) where
  ends := by
    rw [Json.endMode_append, first.ends]
    exact second.ends
  stays := by
    rw [Json.marked_append, first.ends]
    intro part member
    rcases List.mem_append.mp member with member | member
    · exact first.stays part member
    · exact second.stays part member

theorem Within.cons {character : Char} {rest : List Char} (quote : character ≠ '"')
    (backslash : character ≠ '\\') (within : Within rest) : Within (character :: rest) := by
  refine Within.append (show Within [character] from ⟨?_, ?_⟩) within
  · show Mode.next .text character = .text
    rw [Mode.next, if_neg quote, if_neg backslash]
  · intro part member
    cases List.mem_singleton.mp member
    exact Mode.noConfusion

theorem within_nil : Within [] := ⟨rfl, fun _ member => (List.not_mem_nil member).elim⟩

theorem within_escape (letter : Char) : Within ['\\', letter] := by
  refine ⟨rfl, ?_⟩
  intro part member
  rcases List.mem_pair.mp member with rfl | rfl
  · exact Mode.noConfusion
  · exact Mode.noConfusion

theorem hexDigit_ordinary {digit : Char} {value : Nat} (hex : Json.hexDigitValue digit = some value) :
    digit ≠ '"' ∧ digit ≠ '\\' ∧ isControl digit = false := by
  have either : digit.isDigit = true ∨ 97 ≤ digit.toNat ∧ digit.toNat ≤ 102 ∨
      65 ≤ digit.toNat ∧ digit.toNat ≤ 70 := by
    rw [Json.hexDigitValue] at hex
    split at hex
    · exact .inl ‹_›
    · split at hex
      · exact .inr (.inl ‹_›)
      · split at hex
        · exact .inr (.inr ‹_›)
        · cases hex
  have range : 48 ≤ digit.toNat ∧ digit.toNat ≤ 102 ∧ digit.toNat ≠ 92 := by
    rcases either with decimal | low | high
    · have bounds : 48 ≤ digit.toNat ∧ digit.toNat ≤ 57 := by
        have both : digit.isDigit = (decide (48 ≤ digit.toNat) && decide (digit.toNat ≤ 57)) := rfl
        rw [both, Bool.and_eq_true, decide_eq_true_eq, decide_eq_true_eq] at decimal
        exact decimal
      omega
    · omega
    · omega
  refine ⟨?_, ?_, ?_⟩
  · rintro rfl
    exact absurd range.1 (by decide)
  · rintro rfl
    exact range.2.2 rfl
  · rw [isControl, Bool.or_eq_false_iff, Bool.and_eq_false_iff, decide_eq_false_iff_not,
      decide_eq_false_iff_not]
    omega

theorem hexNumber_digits {digits : List Char} {number value : Nat}
    (read : digits.foldlM (fun number digit =>
      (Json.hexDigitValue digit).map fun value => number * 16 + value) number = some value) :
    ∀ digit ∈ digits, digit ≠ '"' ∧ digit ≠ '\\' ∧ isControl digit = false := by
  induction digits generalizing number with
  | nil => exact fun _ member => (List.not_mem_nil member).elim
  | cons digit digits ih =>
      rw [List.foldlM_cons] at read
      cases hex : Json.hexDigitValue digit with
      | none =>
          rw [hex] at read
          cases read
      | some first =>
          rw [hex] at read
          exact List.forall_mem_cons.mpr ⟨hexDigit_ordinary hex, ih read⟩

/-- Ordinary characters stay inside a string as they are. -/
theorem within_ordinary {text : List Char}
    (ordinary : ∀ character ∈ text,
      character ≠ '"' ∧ character ≠ '\\' ∧ isControl character = false) :
    Within text ∧ (marked .text text).flatMap escapePart = text := by
  induction text with
  | nil => exact ⟨within_nil, rfl⟩
  | cons character rest ih =>
      obtain ⟨⟨quote, backslash, control⟩, others⟩ := List.forall_mem_cons.mp ordinary
      obtain ⟨within, same⟩ := ih others
      refine ⟨within.cons quote backslash, ?_⟩
      have kept : escapePart (.text, character) = [character] := escapeControl_of_ordinary control
      rw [marked, List.flatMap_cons, Mode.next, if_neg quote, if_neg backslash, same, kept]
      rfl

theorem CharSpelled_within {raw : Bool} {character : Char} {text : List Char}
    (spelled : CharSpelled raw character text) : Within text := by
  cases spelled with
  | plain quote backslash _ => exact within_nil.cons quote backslash
  | short _ => exact within_escape _
  | unicode _ read =>
      exact (within_escape 'u').append (within_ordinary (hexNumber_digits read)).1
  | pair _ _ first second _ _ _ =>
      exact ((within_escape 'u').append (within_ordinary (hexNumber_digits first)).1).append
        ((within_escape 'u').append (within_ordinary (hexNumber_digits second)).1)

theorem escape_unicode {digits : List Char} {value : Nat}
    (read : Json.hexNumber digits = some value) (behind : List Char) :
    (marked .text ('\\' :: 'u' :: (digits ++ behind))).flatMap escapePart =
      '\\' :: 'u' :: (digits ++ (marked .text behind).flatMap escapePart) := by
  obtain ⟨within, same⟩ := within_ordinary (hexNumber_digits read)
  have split : marked .text ('\\' :: 'u' :: (digits ++ behind)) =
      (.text, '\\') :: (.escaped, 'u') :: (marked .text digits ++ marked .text behind) := by
    have inner := Json.marked_append .text digits behind
    rw [within.ends] at inner
    rw [← inner]
    rfl
  rw [split, List.flatMap_cons, List.flatMap_cons, List.flatMap_append, same]
  rfl

theorem CharSpelled_escape {character : Char} {text : List Char}
    (spelled : CharSpelled true character text) (plain : PlainFrom .text text) :
    CharSpelled false character ((marked .text text).flatMap escapePart) := by
  cases spelled with
  | plain quote backslash _ =>
      rw [marked, marked, List.flatMap_singleton, escapePart, if_pos rfl]
      cases control : isControl character with
      | false =>
          rw [escapeControl_of_ordinary control]
          refine .plain quote backslash (.inl ?_)
          rw [isControl, Bool.or_eq_false_iff, decide_eq_false_iff_not] at control
          omega
      | true =>
          rcases plain character List.mem_cons_self control with rfl | rfl | rfl
          · exact .short (by decide)
          · exact .short (by decide)
          · exact .short (by decide)
  | short escape => exact .short escape
  | unicode length read =>
      have same := escape_unicode read []
      rw [List.append_nil] at same
      rw [same, marked, List.flatMap_nil, List.append_nil]
      exact .unicode length read
  | pair firstLength secondLength first second high low value =>
      have same := escape_unicode second []
      rw [List.append_nil] at same
      rw [escape_unicode first, same, marked, List.flatMap_nil, List.append_nil]
      exact .pair firstLength secondLength first second high low value

theorem TextSpelled_within {raw : Bool} {characters body : List Char}
    (spelled : TextSpelled raw characters body) : Within body := by
  induction characters generalizing body with
  | nil =>
      rw [TextSpelled] at spelled
      exact spelled ▸ within_nil
  | cons character rest ih =>
      obtain ⟨first, behind, rfl, one, others⟩ := spelled
      exact (CharSpelled_within one).append (ih others)

theorem TextSpelled_escape {characters body : List Char}
    (spelled : TextSpelled true characters body) (plain : PlainFrom .text body) :
    TextSpelled false characters ((marked .text body).flatMap escapePart) := by
  induction characters generalizing body with
  | nil =>
      rw [TextSpelled] at spelled
      rw [spelled]
      rfl
  | cons character rest ih =>
      obtain ⟨first, behind, rfl, one, others⟩ := spelled
      have within := CharSpelled_within one
      obtain ⟨plainFirst, plainBehind⟩ := plain.of_append
      rw [within.ends] at plainBehind
      rw [Json.marked_append, within.ends, List.flatMap_append]
      exact ⟨_, _, rfl, CharSpelled_escape one plainFirst, ih others plainBehind⟩

/-! ## Tokens -/

theorem blank_ordinary {text : List Char} (blank : Blank text) : ∀ character ∈ text,
    character ≠ '"' ∧ character ≠ ',' ∧ isWhitespace character = true := by
  intro character member
  have one := blank character member
  simp only [List.mem_cons, List.not_mem_nil, or_false] at one
  rcases one with rfl | rfl | rfl | rfl
  all_goals decide

/-- An atom does not begin a string or end a list. -/
theorem atom_ordinary {text : List Char} (fine : (Token.atom text).Fine) : ∀ character ∈ text,
    character ≠ '"' ∧ character ≠ ',' ∧ isWhitespace character = false ∧ character ≠ '}' ∧
      character ≠ ']' := by
  intro character member
  have range : 43 ≤ character.toNat ∧ character.toNat ≤ 122 ∧ character.toNat ≠ 44 ∧
      character.toNat ≠ 93 := by
    rcases fine.2 character member with letter | sign
    · have either : character.isAlphanum =
          ((decide (65 ≤ character.toNat ∧ character.toNat ≤ 90) ||
            (decide (97 ≤ character.toNat) && decide (character.toNat ≤ 122))) ||
            (decide (48 ≤ character.toNat) && decide (character.toNat ≤ 57))) := rfl
      rw [either] at letter
      simp only [Bool.or_eq_true, Bool.and_eq_true, decide_eq_true_eq] at letter
      omega
    · simp only [List.mem_cons, List.not_mem_nil, or_false] at sign
      rcases sign with rfl | rfl | rfl
      all_goals decide
  refine ⟨?_, ?_, ?_, ?_, ?_⟩
  · rintro rfl
    exact absurd range.1 (by decide)
  · rintro rfl
    exact range.2.2.1 rfl
  · simp only [isWhitespace, Bool.or_eq_false_iff, Bool.and_eq_false_iff, decide_eq_false_iff_not,
      beq_eq_false_iff_ne]
    omega
  · rintro rfl
    exact absurd range.2.1 (by decide)
  · rintro rfl
    exact range.2.2.2 rfl

theorem punctuation_ordinary {symbol : Char} (fine : (Token.punctuation symbol).Fine) :
    symbol ≠ '"' ∧ isWhitespace symbol = false := by
  rw [Token.Fine] at fine
  simp only [List.mem_cons, List.not_mem_nil, or_false] at fine
  rcases fine with rfl | rfl | rfl | rfl | rfl | rfl
  all_goals decide

theorem TokenSpelled_outside {raw : Bool} {token : Token} {text : List Char} (fine : token.Fine)
    (spelled : TokenSpelled raw token text) : endMode .outside text = .outside := by
  cases token with
  | punctuation symbol =>
      rw [TokenSpelled] at spelled
      rw [spelled]
      exact if_neg (punctuation_ordinary fine).1
  | atom atom =>
      rw [TokenSpelled] at spelled
      rw [spelled]
      exact (Json.outside_of_plain fun member => (atom_ordinary fine _ member).1 rfl).1
  | text characters =>
      obtain ⟨body, rfl, written⟩ := spelled
      have within := TextSpelled_within written
      show endMode .text (body ++ ['"']) = .outside
      rw [Json.endMode_append, within.ends]
      rfl

/-- The first pass leaves what is outside strings. -/
theorem escapeRawControls_outside {text : List Char} (plain : '"' ∉ text) :
    escapeRawControls false false text = text := by
  rw [(escapeRawControls_eq text).1, (Json.outside_of_plain plain).2.2, List.flatMap_map]
  exact List.flatMap_singleton' text

theorem TokenSpelled_escape {token : Token} {text : List Char} (fine : token.Fine)
    (spelled : TokenSpelled true token text) (plain : PlainFrom .outside text) :
    TokenSpelled false token (escapeRawControls false false text) := by
  cases token with
  | punctuation symbol =>
      rw [TokenSpelled] at spelled
      rw [spelled, escapeRawControls_outside]
      · rfl
      · exact fun member => (punctuation_ordinary fine).1 (List.mem_singleton.mp member).symm
  | atom atom =>
      rw [TokenSpelled] at spelled
      rw [spelled, escapeRawControls_outside fun member => (atom_ordinary fine _ member).1 rfl]
      rfl
  | text characters =>
      obtain ⟨body, rfl, written⟩ := spelled
      have within := TextSpelled_within written
      have split : marked .outside ('"' :: (body ++ ['"'])) =
          (.outside, '"') :: (marked .text body ++ [(.text, '"')]) := by
        have inner := Json.marked_append .text body ['"']
        rw [within.ends] at inner
        exact congrArg (_ :: ·) inner
      refine ⟨(marked .text body).flatMap escapePart, ?_, TextSpelled_escape written ?_⟩
      · rw [(escapeRawControls_eq _).1, split, List.flatMap_cons, List.flatMap_append]
        rfl
      · intro character member
        refine plain character ?_
        rw [split]
        exact List.mem_cons_of_mem _ (List.mem_append_left _ member)

theorem Spelled_outside {raw : Bool} {parts : List Token} {text : List Char}
    (fine : ∀ token ∈ parts, token.Fine) (spelled : Spelled raw parts text) :
    endMode .outside text = .outside := by
  induction parts generalizing text with
  | nil => exact (Json.outside_of_plain fun member => (blank_ordinary spelled _ member).1 rfl).1
  | cons token rest ih =>
      obtain ⟨head, others⟩ := List.forall_mem_cons.mp fine
      obtain ⟨before, written, behind, rfl, blank, one, spelled⟩ := spelled
      rw [Json.endMode_append, Json.endMode_append,
        (Json.outside_of_plain fun member => (blank_ordinary blank _ member).1 rfl).1,
        TokenSpelled_outside head one]
      exact ih others spelled

/-- The first pass spells the same tokens. -/
theorem Spelled_escape {parts : List Token} {text : List Char}
    (fine : ∀ token ∈ parts, token.Fine) (spelled : Spelled true parts text)
    (plain : PlainFrom .outside text) : Spelled false parts (escapeRawControls false false text) := by
  induction parts generalizing text with
  | nil =>
      rw [escapeRawControls_outside fun member => (blank_ordinary spelled _ member).1 rfl]
      exact spelled
  | cons token rest ih =>
      obtain ⟨head, others⟩ := List.forall_mem_cons.mp fine
      obtain ⟨before, written, behind, rfl, blank, one, spelled⟩ := spelled
      have noQuote : '"' ∉ before := fun member => (blank_ordinary blank _ member).1 rfl
      have closed := TokenSpelled_outside head one
      obtain ⟨-, plain⟩ := plain.of_append
      rw [(Json.outside_of_plain noQuote).1] at plain
      obtain ⟨plainToken, plainRest⟩ := plain.of_append
      rw [closed] at plainRest
      rw [escapeRawControls_append (Json.outside_of_plain noQuote).1,
        escapeRawControls_append closed, escapeRawControls_outside noQuote]
      exact ⟨before, _, _, rfl, blank, TokenSpelled_escape head one plainToken,
        ih others spelled plainRest⟩

/-! ## The second pass -/

def dropFrom : Mode → List Char → List Char
  | .outside => dropTrailingCommas false false
  | .text => dropTrailingCommas true false
  | .escaped => dropTrailingCommas true true

/-- Whether a closing bracket comes next. -/
def closesNext (text : List Char) : Bool :=
  (text.dropWhile isWhitespace).head?.any fun next => next == '}' || next == ']'

theorem dropFrom_inside {mode : Mode} (opened : mode ≠ .outside) (character : Char)
    (rest : List Char) :
    dropFrom mode (character :: rest) = character :: dropFrom (mode.next character) rest := by
  cases mode with
  | outside => exact absurd rfl opened
  | escaped =>
      rw [dropFrom, dropTrailingCommas]
      rfl
  | text =>
      rw [dropFrom, dropTrailingCommas, Mode.next, Bool.false_or, Bool.not_false, Bool.true_and]
      by_cases quote : character = '"'
      · rw [quote]
        rfl
      · have other : (character != '"') = true := bne_iff_ne.mpr quote
        rw [other, if_neg quote]
        by_cases backslash : character = '\\'
        · rw [backslash]
          rfl
        · rw [beq_false_of_ne backslash, if_neg backslash]
          rfl

theorem dropFrom_outside (character : Char) (rest : List Char) :
    dropFrom .outside (character :: rest) =
      if character = ',' ∧ closesNext rest = true then dropFrom .outside rest
      else character :: dropFrom (Mode.next .outside character) rest := by
  rw [dropFrom, dropTrailingCommas, Mode.next]
  by_cases quote : character = '"'
  · rw [quote]
    rfl
  · rw [if_neg quote, if_neg quote]
    simp only [Bool.and_eq_true, decide_eq_true_eq, closesNext]
    rfl

/-- The second pass changes nothing inside strings. -/
theorem inside_dropFrom (mode : Mode) (text : List Char) :
    inside mode (dropFrom mode text) = inside mode text ∧
      endMode mode (dropFrom mode text) = endMode mode text := by
  have cons : ∀ (mode : Mode) (character : Char) (rest : List Char),
      inside mode (character :: rest) = (if mode = .outside then [] else [(mode, character)]) ++
        inside (mode.next character) rest := by
    intro mode character rest
    rw [inside, marked, List.filter_cons]
    cases mode <;> rfl
  induction text generalizing mode with
  | nil => cases mode <;> exact ⟨rfl, rfl⟩
  | cons character rest ih =>
      by_cases opened : mode = .outside
      · rw [opened, dropFrom_outside]
        split
        · rename_i comma
          obtain ⟨kept, ends⟩ := ih .outside
          rw [comma.1, cons, kept]
          exact ⟨rfl, ends⟩
        · obtain ⟨kept, ends⟩ := ih (Mode.next .outside character)
          exact ⟨by rw [cons, cons, kept], ends⟩
      · rw [dropFrom_inside opened]
        obtain ⟨kept, ends⟩ := ih (mode.next character)
        exact ⟨by rw [cons, cons, kept], ends⟩

theorem dropFrom_plain {front : List Char}
    (plain : ∀ character ∈ front, character ≠ '"' ∧ character ≠ ',') (back : List Char) :
    dropFrom .outside (front ++ back) = front ++ dropFrom .outside back := by
  induction front with
  | nil => rfl
  | cons character front ih =>
      obtain ⟨⟨quote, comma⟩, others⟩ := List.forall_mem_cons.mp plain
      have next : Mode.next .outside character = .outside := if_neg quote
      rw [List.cons_append, dropFrom_outside, if_neg fun both => comma both.1, next, ih others]
      rfl

theorem dropFrom_within {front : List Char} {mode : Mode}
    (stays : ∀ part ∈ marked mode front, part.1 ≠ .outside) (back : List Char) :
    dropFrom mode (front ++ back) = front ++ dropFrom (endMode mode front) back := by
  induction front generalizing mode with
  | nil => rfl
  | cons character front ih =>
      obtain ⟨head, others⟩ := List.forall_mem_cons.mp stays
      rw [List.cons_append, dropFrom_inside head, ih others]
      rfl

theorem TokenSpelled_drop {token : Token} {text : List Char} (fine : token.Fine)
    (other : Json.isComma token = false) (spelled : TokenSpelled false token text)
    (back : List Char) : dropFrom .outside (text ++ back) = text ++ dropFrom .outside back := by
  cases token with
  | punctuation symbol =>
      rw [TokenSpelled] at spelled
      rw [spelled]
      refine dropFrom_plain ?_ back
      intro character member
      cases List.mem_singleton.mp member
      exact ⟨(punctuation_ordinary fine).1, beq_eq_false_iff_ne.mp other⟩
  | atom atom =>
      rw [TokenSpelled] at spelled
      rw [spelled]
      exact dropFrom_plain (fun character member =>
        ⟨(atom_ordinary fine character member).1, (atom_ordinary fine character member).2.1⟩) back
  | text characters =>
      obtain ⟨body, rfl, written⟩ := spelled
      have within := TextSpelled_within written
      have closed : endMode .text (body ++ ['"']) = .outside := by
        rw [Json.endMode_append, within.ends]
        rfl
      have stays : ∀ part ∈ marked .text (body ++ ['"']), part.1 ≠ .outside := by
        rw [Json.marked_append, within.ends]
        intro part member
        rcases List.mem_append.mp member with member | member
        · exact within.stays part member
        · cases List.mem_singleton.mp member
          exact Mode.noConfusion
      rw [List.cons_append, dropFrom_outside, if_neg fun both => absurd both.1 (by decide)]
      have next : Mode.next .outside '"' = .text := rfl
      rw [next, dropFrom_within stays, closed]
      rfl

theorem closesNext_blank {blank : List Char} (isBlank : Blank blank) (text : List Char) :
    closesNext (blank ++ text) = closesNext text := by
  rw [closesNext, List.dropWhile_append_of_pos fun character member =>
    (blank_ordinary isBlank character member).2.2]
  rfl

theorem closesNext_cons {first : Char} {rest : List Char} (solid : isWhitespace first = false) :
    closesNext (first :: rest) = (first == '}' || first == ']') := by
  rw [closesNext, List.dropWhile_cons_of_neg (by rw [solid]; exact Bool.false_ne_true),
    List.head?_cons, Option.any_some]

theorem closesNext_spelled {parts : List Token} {text : List Char}
    (fine : ∀ token ∈ parts, token.Fine) (spelled : Spelled false parts text) :
    closesNext text = parts.head?.any Json.isClosing := by
  cases parts with
  | nil =>
      have none := closesNext_blank spelled []
      rw [List.append_nil] at none
      exact none
  | cons token rest =>
      obtain ⟨before, written, behind, rfl, blank, one, -⟩ := spelled
      have head := fine token List.mem_cons_self
      rw [closesNext_blank blank, List.head?_cons, Option.any_some]
      cases token with
      | punctuation symbol =>
          rw [TokenSpelled] at one
          rw [one]
          exact closesNext_cons (punctuation_ordinary head).2
      | atom atom =>
          rw [TokenSpelled] at one
          rw [one]
          cases atom with
          | nil => exact absurd rfl head.1
          | cons first others =>
              obtain ⟨-, -, solid, brace, bracket⟩ := atom_ordinary head first List.mem_cons_self
              rw [List.cons_append, closesNext_cons solid, beq_false_of_ne brace,
                beq_false_of_ne bracket]
              rfl
      | text characters =>
          obtain ⟨body, rfl, -⟩ := one
          exact closesNext_cons (by decide)

/-- The second pass leaves out the commas before closing brackets. -/
theorem Spelled_drop {parts : List Token} {text : List Char}
    (fine : ∀ token ∈ parts, token.Fine) (spelled : Spelled false parts text) :
    Spelled false (dropTokens parts) (dropFrom .outside text) := by
  induction parts generalizing text with
  | nil =>
      have whole := dropFrom_plain (fun character member =>
        ⟨(blank_ordinary spelled character member).1,
          (blank_ordinary spelled character member).2.1⟩) []
      rw [List.append_nil] at whole
      rw [whole]
      exact Blank.append spelled fun _ member => (List.not_mem_nil member).elim
  | cons token rest ih =>
      obtain ⟨head, others⟩ := List.forall_mem_cons.mp fine
      obtain ⟨before, written, behind, rfl, blank, one, spelled⟩ := spelled
      have later := ih others spelled
      have ordinary : ∀ character ∈ before, character ≠ '"' ∧ character ≠ ',' :=
        fun character member => ⟨(blank_ordinary blank character member).1,
          (blank_ordinary blank character member).2.1⟩
      rw [dropFrom_plain ordinary]
      cases comma : Json.isComma token with
      | false =>
          rw [dropTokens, comma, Bool.false_and, if_neg Bool.false_ne_true,
            TokenSpelled_drop head comma one]
          exact ⟨before, written, _, rfl, blank, one, later⟩
      | true =>
          have same : token = .punctuation ',' := by
            cases token with
            | punctuation symbol => rw [beq_iff_eq.mp comma]
            | atom atom => cases comma
            | text characters => cases comma
          have text : written = [','] := by
            rw [same, TokenSpelled] at one
            exact one
          have next : Mode.next .outside ',' = .outside := by decide
          rw [text, dropTokens, comma, Bool.true_and, ← closesNext_spelled others spelled,
            List.singleton_append, dropFrom_outside]
          cases closes : closesNext behind with
          | true =>
              rw [if_pos rfl, if_pos ⟨rfl, rfl⟩]
              exact blank.spelled later
          | false =>
              rw [if_neg Bool.false_ne_true, if_neg fun both => Bool.false_ne_true both.2, next]
              exact ⟨before, [','], _, rfl, blank, same ▸ rfl, later⟩

/-! ## Escapes that no reader takes -/

/-- Inside a string, `\u` is followed by a brace. -/
def BadEscape (text : List Char) : Prop :=
  [(Mode.text, '\\'), (Mode.escaped, 'u'), (Mode.text, '\x7b')] <:+: inside .outside text

theorem hexDigits_ordinary (code : Nat) :
    ∀ digit ∈ Nat.toDigits 16 code, digit ≠ '"' ∧ digit ≠ '\\' := by
  have one : ∀ value < 16, Nat.digitChar value ≠ '"' ∧ Nat.digitChar value ≠ '\\' := by decide
  induction code using Nat.strong_induction_on with
  | _ code ih =>
    intro digit member
    by_cases small : code < 16
    · rw [Nat.toDigits_of_lt_base small, List.mem_singleton] at member
      exact member ▸ one code small
    · rw [Nat.toDigits_of_base_le (by decide) (by omega), List.mem_append,
        List.mem_singleton] at member
      rcases member with member | rfl
      · exact ih (code / 16) (by omega) digit member
      · exact one (code % 16) (Nat.mod_lt _ (by decide))

theorem escapeUnicode_within (character : Char) : Within (escapeUnicode character) := by
  have ordinary : ∀ text : List Char, (∀ digit ∈ text, digit ≠ '"' ∧ digit ≠ '\\') →
      Within text := by
    intro text all
    induction text with
    | nil => exact within_nil
    | cons digit text ih =>
        obtain ⟨⟨quote, backslash⟩, others⟩ := List.forall_mem_cons.mp all
        exact (ih others).cons quote backslash
  refine ((within_escape 'u').append 
    (show Within ['\x7b'] from within_nil.cons (by decide) (by decide))).append ?_ |>.append ?_
  · exact ordinary _ (hexDigits_ordinary character.toNat)
  · exact within_nil.cons (by decide) (by decide)

theorem inside_of_within {text : List Char} (within : Within text) :
    inside .text text = marked .text text := by
  refine List.filter_eq_self.mpr fun part member => ?_
  rw [bne_iff_ne]
  exact within.stays part member

/-- What a character inside a string is written as. -/
theorem escapePart_inside (mode : Mode) (character : Char) :
    inside mode (escapePart (mode, character)) =
        (if mode = .outside then [] else marked mode (escapePart (mode, character))) ∧
      endMode mode (escapePart (mode, character)) = mode.next character := by
  cases mode with
  | outside => exact ⟨rfl, rfl⟩
  | escaped => exact ⟨rfl, rfl⟩
  | text =>
      rw [escapePart, if_pos rfl, if_neg Mode.noConfusion]
      dsimp only
      cases control : isControl character with
      | false =>
          rw [escapeControl_of_ordinary control]
          exact ⟨rfl, rfl⟩
      | true =>
          have within : Within (escapeControl character) := by
            rw [escapeControl, control, if_pos rfl]
            repeat' split
            · exact within_escape 'n'
            · exact within_escape 'r'
            · exact within_escape 't'
            · exact escapeUnicode_within character
          have next : Mode.next .text character = .text := by
            have quote : character ≠ '"' := by
              rintro rfl
              revert control
              decide
            have backslash : character ≠ '\\' := by
              rintro rfl
              revert control
              decide
            rw [Mode.next, if_neg quote, if_neg backslash]
          exact ⟨inside_of_within within, within.ends.trans next.symm⟩

/-- Inside strings the first pass changes control characters only. -/
theorem inside_escape (mode : Mode) (text : List Char) :
    inside mode ((marked mode text).flatMap escapePart) =
        (inside mode text).flatMap (fun part => marked part.1 (escapePart part)) ∧
      endMode mode ((marked mode text).flatMap escapePart) = endMode mode text := by
  induction text generalizing mode with
  | nil => exact ⟨rfl, rfl⟩
  | cons character rest ih =>
      obtain ⟨kept, ends⟩ := ih (mode.next character)
      obtain ⟨first, next⟩ := escapePart_inside mode character
      constructor
      · rw [marked, List.flatMap_cons, Json.inside_append, first, next, kept]
        by_cases outside : mode = .outside
        · rw [if_pos outside, outside]
          rfl
        · have marks : inside mode (character :: rest) =
              (mode, character) :: inside (mode.next character) rest :=
            List.filter_cons_of_pos (bne_iff_ne.mpr outside)
          rw [if_neg outside, marks, List.flatMap_cons]
      · rw [marked, List.flatMap_cons, Json.endMode_append, next, ends]
        rfl

theorem inside_repaired (text : List Char) :
    inside .outside (escapeRawControlsAndTrailingCommas text) =
      (inside .outside text).flatMap fun part => marked part.1 (escapePart part) := by
  have second := (inside_dropFrom .outside (escapeRawControls false false text)).1
  have first := (inside_escape .outside text).1
  rw [← (escapeRawControls_eq text).1] at first
  exact second.trans first

theorem badEscape_repaired {text : List Char} (bad : ¬PlainFrom .outside text) :
    BadEscape (escapeRawControlsAndTrailingCommas text) := by
  rw [PlainFrom] at bad
  push Not at bad
  obtain ⟨character, member, control, line, carriage, tab⟩ := bad
  have isInside : (Mode.text, character) ∈ inside .outside text :=
    List.mem_filter.mpr ⟨member, rfl⟩
  obtain ⟨front, back, split⟩ := List.append_of_mem isInside
  have written : escapePart (.text, character) = escapeUnicode character := by
    rw [escapePart, if_pos rfl, escapeControl, if_neg line, if_neg carriage, if_neg tab,
      if_pos control]
  rw [BadEscape, inside_repaired, split, List.flatMap_append, List.flatMap_cons, written]
  refine List.IsInfix.trans ?_ (List.suffix_append _ _).isInfix
  exact ⟨[], _, rfl⟩

/-! ## Objects -/

theorem Spelled_object {raw : Bool} {parts : List Token} {text : List Char}
    (spelled : Spelled raw (.punctuation '\x7b' :: (parts ++ [.punctuation '\x7d'])) text) :
    ∃ before inner behind, text = before ++ ('\x7b' :: (inner ++ ['\x7d']) ++ behind) ∧
      Blank before ∧ Blank behind ∧
      Spelled raw (.punctuation '\x7b' :: (parts ++ [.punctuation '\x7d']))
        ('\x7b' :: (inner ++ ['\x7d'])) := by
  obtain ⟨before, opening, rest, rfl, blankBefore, opens, spelled⟩ := spelled
  obtain ⟨first, second, rfl, inner, last⟩ := Json.spelled_append.mp spelled
  obtain ⟨between, closing, behind, rfl, blankBetween, closes, blankBehind⟩ := last
  rw [TokenSpelled] at opens closes
  rw [opens, closes]
  refine ⟨before, first ++ between, behind, ?_, blankBefore, blankBehind, ?_⟩
  · simp only [List.append_assoc, List.cons_append, List.nil_append]
  · refine ⟨[], ['\x7b'], first ++ (between ++ ['\x7d']), ?_, ?_, rfl, ?_⟩
    · simp only [List.append_assoc, List.cons_append, List.nil_append]
    · exact fun _ member => (List.not_mem_nil member).elim
    · refine Json.spelled_append.mpr ⟨first, between ++ ['\x7d'], rfl, inner, ?_⟩
      exact ⟨between, ['\x7d'], [], rfl, blankBetween, rfl,
        fun _ member => (List.not_mem_nil member).elim⟩

theorem trimList_object {before behind : List Char} (blankBefore : Blank before)
    (blankBehind : Blank behind) (inner : List Char) :
    trimList (before ++ ('\x7b' :: (inner ++ ['\x7d']) ++ behind)) =
      '\x7b' :: (inner ++ ['\x7d']) := by
  have start : trimStart (before ++ ('\x7b' :: (inner ++ ['\x7d']) ++ behind)) =
      '\x7b' :: (inner ++ ['\x7d']) ++ behind := by
    rw [trimStart, List.dropWhile_append_of_pos fun character member =>
      (blank_ordinary blankBefore character member).2.2]
    exact List.dropWhile_cons_of_neg (by decide)
  have reversed : ('\x7b' :: (inner ++ ['\x7d']) ++ behind).reverse =
      behind.reverse ++ '\x7d' :: (inner.reverse ++ ['\x7b']) := by
    simp only [List.reverse_append, List.reverse_cons, List.cons_append, List.append_assoc,
      List.nil_append]
  rw [trimList, start, trimEnd, List.rdropWhile, reversed,
    List.dropWhile_append_of_pos fun character member =>
      (blank_ordinary blankBehind character (List.mem_reverse.mp member)).2.2,
    List.dropWhile_cons_of_neg (by decide), ← List.reverse_inj, List.reverse_reverse]
  simp only [List.reverse_append, List.reverse_cons, List.cons_append, List.nil_append,
    List.reverse_nil]

theorem stripCodeBlock_object (inner : List Char) :
    stripCodeBlock ('\x7b' :: (inner ++ ['\x7d'])) = '\x7b' :: (inner ++ ['\x7d']) := by
  have none : stripLeading ticks ('\x7b' :: (inner ++ ['\x7d'])) = none := by
    rw [stripLeading, ticks, List.isPrefixOf_cons_cons]
    rfl
  rw [stripCodeBlock, none]

theorem bracedPart_object (inner : List Char) :
    bracedPart ('\x7b' :: (inner ++ ['\x7d'])) = '\x7b' :: (inner ++ ['\x7d']) := by
  have start : ('\x7b' :: (inner ++ ['\x7d'])).idxOf? '\x7b' = some 0 := by
    rw [List.idxOf?_cons, beq_self_eq_true, if_pos rfl]
  have reversed : ('\x7b' :: (inner ++ ['\x7d'])).reverse =
      '\x7d' :: (inner.reverse ++ ['\x7b']) := by
    simp only [List.reverse_append, List.reverse_cons, List.cons_append, List.nil_append,
      List.reverse_nil]
  have finish : ('\x7b' :: (inner ++ ['\x7d'])).reverse.idxOf? '\x7d' = some 0 := by
    rw [reversed, List.idxOf?_cons, beq_self_eq_true, if_pos rfl]
  have length : ('\x7b' :: (inner ++ ['\x7d'])).length = inner.length + 2 := by
    rw [List.length_cons, List.length_append, List.length_singleton]
  rw [bracedPart, start, finish]
  dsimp only
  rw [length, if_pos (by omega), List.drop_zero, List.take_of_length_le (by omega)]

/-- Control characters stand between the braces only. -/
theorem plainText_object {before behind core : List Char} (blankBefore : Blank before)
    (blankBehind : Blank behind) (closed : endMode .outside core = .outside) :
    PlainFrom .outside (before ++ (core ++ behind)) ↔ PlainFrom .outside core := by
  have outside : ∀ {text : List Char}, Blank text → '"' ∉ text := fun blank member =>
    (blank_ordinary blank _ member).1 rfl
  have none : ∀ {text : List Char}, Blank text → ∀ character,
      (Mode.text, character) ∉ marked .outside text := by
    intro text blank character member
    rw [(Json.outside_of_plain (outside blank)).2.2, List.mem_map] at member
    obtain ⟨other, -, same⟩ := member
    cases same
  have split : ∀ character, (Mode.text, character) ∈ marked .outside (before ++ (core ++ behind)) ↔
      (Mode.text, character) ∈ marked .outside core := by
    intro character
    rw [Json.marked_append, Json.marked_append, (Json.outside_of_plain (outside blankBefore)).1,
      closed, List.mem_append, List.mem_append]
    simp only [none blankBefore, none blankBehind, false_or, or_false]
  simp only [PlainFrom, split]

theorem stripTrailing_eq_some_iff {trailing text rest : List Char} :
    stripTrailing trailing text = some rest ↔ text = rest ++ trailing := by
  rw [stripTrailing, Option.map_eq_some_iff]
  constructor
  · rintro ⟨reversed, stripped, rfl⟩
    rw [stripLeading_eq_some_iff] at stripped
    rw [← List.reverse_inj, stripped, List.reverse_append, List.reverse_reverse]
  · rintro rfl
    refine ⟨rest.reverse, ?_, List.reverse_reverse rest⟩
    rw [List.reverse_append]
    exact stripLeading_append _ _

theorem trimEnd_append (text : List Char) :
    ∃ blank, text = trimEnd text ++ blank ∧ '"' ∉ blank := by
  refine ⟨(text.reverse.takeWhile isWhitespace).reverse, ?_, ?_⟩
  · rw [trimEnd, List.rdropWhile, ← List.reverse_append, List.takeWhile_append_dropWhile,
      List.reverse_reverse]
  · intro member
    have blank := List.mem_takeWhile_imp (List.mem_reverse.mp member)
    exact absurd blank (by decide)

section Repair

variable {fromStr : List Char → Except String Value}

theorem dropBraces_bad (rejects : ∀ text, BadEscape text → ∃ detail, fromStr text = .error detail)
    (fuel : Nat) {text : List Char} (bad : BadEscape text)
    (closed : endMode .outside text = .outside) : dropBraces fromStr fuel text = none := by
  induction fuel generalizing text with
  | zero => rfl
  | succ fuel ih =>
      rw [dropBraces]
      cases stripped : stripTrailing ['\x7d'] text with
      | none => rfl
      | some front =>
          obtain ⟨blank, split, solid⟩ := trimEnd_append front
          have whole : text = trimEnd front ++ (blank ++ ['\x7d']) := by
            rw [stripTrailing_eq_some_iff.mp stripped, ← List.append_assoc, ← split]
          have plain : '"' ∉ blank ++ ['\x7d'] := by
            rw [List.mem_append, List.mem_singleton, not_or]
            exact ⟨solid, by decide⟩
          rw [whole] at closed bad
          obtain ⟨before, kept⟩ := Json.outside_before closed plain
          have again : front ++ ['\x7d'] = trimEnd front ++ (blank ++ ['\x7d']) := by
            rw [← List.append_assoc, ← split]
          obtain ⟨detail, rejected⟩ := rejects _ bad
          rw [BadEscape, kept] at bad
          dsimp only
          rw [again, rejected]
          dsimp only
          split
          · exact ih bad before
          · rfl

/-- The repaired arguments are the value that was meant exactly if no string has a control character
other than a line feed, a carriage return or a tabulator. Inside strings nothing else is changed. -/
theorem repairToolArgumentsJson_iff {members : List (String × Value)} {extended : List Token}
    {text : List Char} {parsed : List (String × Value)}
    (wellFormed : (Value.object members).wellFormed = true)
    (trailing : WithTrailing (tokens (.object members)) extended)
    (spelled : Spelled true extended text)
    (reads : ∀ text, Spelled false (tokens (.object members)) text →
      fromStr text = .ok (.object parsed))
    (rejects : ∀ text, BadEscape text → ∃ detail, fromStr text = .error detail) :
    (repairToolArgumentsJson fromStr text = some (.object parsed) ↔ PlainFrom .outside text) ∧
      ∀ text, inside .outside (escapeRawControlsAndTrailingCommas text) =
        (inside .outside text).flatMap fun part => marked part.1 (escapePart part) := by
  refine ⟨?_, inside_repaired⟩
  have fine := trailing.fine (Json.tokens_fine _ wellFormed)
  obtain ⟨middle, rfl⟩ : ∃ middle,
      extended = .punctuation '\x7b' :: (middle ++ [.punctuation '\x7d']) := by
    rw [tokens] at trailing
    exact trailing.object
  obtain ⟨before, inner, behind, rfl, blankBefore, blankBehind, core⟩ := Spelled_object spelled
  have closed := Spelled_outside fine core
  have normalized : bracedPart (stripCodeBlock (trimList
      (before ++ ('\x7b' :: (inner ++ ['\x7d']) ++ behind)))) = '\x7b' :: (inner ++ ['\x7d']) := by
    rw [trimList_object blankBefore blankBehind, stripCodeBlock_object, bracedPart_object]
  rw [plainText_object blankBefore blankBehind closed, repairToolArgumentsJson, normalized]
  constructor
  · intro repaired
    by_contra control
    have bad := badEscape_repaired control
    obtain ⟨detail, rejected⟩ := rejects _ bad
    have ends : endMode .outside (escapeRawControlsAndTrailingCommas
        ('\x7b' :: (inner ++ ['\x7d']))) = .outside := by
      have second := (inside_dropFrom .outside (escapeRawControls false false
        ('\x7b' :: (inner ++ ['\x7d'])))).2
      have first := (inside_escape .outside ('\x7b' :: (inner ++ ['\x7d']))).2
      rw [← (escapeRawControls_eq _).1] at first
      exact (second.trans first).trans closed
    rw [rejected] at repaired
    dsimp only at repaired
    rw [dropBraces_bad rejects _ bad ends] at repaired
    cases repaired
  · intro plain
    have escaped := Spelled_drop fine (Spelled_escape fine core plain)
    rw [Json.dropTokens_eq trailing (Json.tokens_tidy _).apart] at escaped
    have read := reads _ escaped
    have same : escapeRawControlsAndTrailingCommas ('\x7b' :: (inner ++ ['\x7d'])) =
        dropFrom .outside (escapeRawControls false false ('\x7b' :: (inner ++ ['\x7d']))) := rfl
    rw [same, read]

end Repair

/-! ## Spelled texts -/

/-- Nothing opens a brace directly behind an escape of a code. -/
structure Steady (parts : List (Mode × Char)) : Prop where
  chain : parts.IsChain fun first second => first = (.escaped, 'u') → second ≠ (.text, '\x7b')
  last : parts.getLast? ≠ some (.escaped, 'u')

theorem Steady.append {front back : List (Mode × Char)} (first : Steady front)
    (second : Steady back) : Steady (front ++ back) where
  chain := List.isChain_append.mpr ⟨first.chain, second.chain,
    fun _ ends _ _ escape => absurd (escape ▸ ends) first.last⟩
  last := by
    rw [List.getLast?_append]
    cases ends : back.getLast? with
    | none => exact first.last
    | some part =>
        rw [Option.some_or]
        exact ends ▸ second.last

theorem steady_of_notMem {parts : List (Mode × Char)} (absent : (Mode.escaped, 'u') ∉ parts) :
    Steady parts where
  chain := by
    induction parts with
    | nil => exact .nil
    | cons part rest ih =>
        rw [List.mem_cons, not_or] at absent
        exact List.isChain_cons.mpr ⟨fun _ _ escape => absurd escape.symm absent.1, ih absent.2⟩
  last := fun ends => absent (List.mem_of_getLast? ends)

theorem marked_ordinary {text : List Char}
    (ordinary : ∀ character ∈ text,
      character ≠ '"' ∧ character ≠ '\\' ∧ isControl character = false) :
    marked .text text = text.map fun character => (Mode.text, character) := by
  induction text with
  | nil => rfl
  | cons character rest ih =>
      obtain ⟨⟨quote, backslash, _⟩, others⟩ := List.forall_mem_cons.mp ordinary
      rw [marked, Mode.next, if_neg quote, if_neg backslash, ih others, List.map_cons]

theorem steady_unicode {digits : List Char} {value : Nat} (length : digits.length = 4)
    (read : Json.hexNumber digits = some value) :
    Steady (marked .text ('\\' :: 'u' :: digits)) := by
  have ordinary := hexNumber_digits read
  cases digits with
  | nil => cases length
  | cons digit digits =>
      have brace : digit ≠ '\x7b' := by
        rintro rfl
        cases read
      have shown : marked .text ('\\' :: 'u' :: digit :: digits) =
          [(.text, '\\'), (.escaped, 'u')] ++
            (digit :: digits).map fun character => (Mode.text, character) := by
        rw [← marked_ordinary ordinary]
        rfl
      have plain : Steady ((digit :: digits).map fun character => (Mode.text, character)) := by
        refine steady_of_notMem fun member => ?_
        obtain ⟨_, _, same⟩ := List.mem_map.mp member
        cases same
      rw [shown]
      refine ⟨List.isChain_append.mpr ⟨by simp, plain.chain, ?_⟩, ?_⟩
      · rintro first - second begins - rfl
        cases begins
        exact brace rfl
      · rw [List.map_cons, List.getLast?_append_of_ne_nil _ (List.cons_ne_nil _ _)]
        exact plain.last

theorem CharSpelled_steady {raw : Bool} {character : Char} {text : List Char}
    (spelled : CharSpelled raw character text) : Steady (marked .text text) := by
  cases spelled with
  | plain _ _ _ =>
      refine steady_of_notMem fun member => ?_
      cases List.mem_singleton.mp member
  | @short letter character escape =>
      have other : ∀ pair ∈ Json.shortEscapes, pair.1 ≠ 'u' := by decide
      refine steady_of_notMem fun member => ?_
      rcases List.mem_pair.mp member with same | same
      · cases same
      · exact other _ escape (Prod.mk.inj same).2.symm
  | unicode length read => exact steady_unicode length read
  | @pair first second _ _ _ firstLength secondLength high low _ _ _ =>
      have within := (within_escape 'u').append (within_ordinary (hexNumber_digits high)).1
      have split := Json.marked_append .text ('\\' :: 'u' :: first) ('\\' :: 'u' :: second)
      rw [show endMode .text ('\\' :: 'u' :: first) = .text from within.ends] at split
      rw [← List.cons_append, ← List.cons_append, split]
      exact (steady_unicode firstLength high).append (steady_unicode secondLength low)

theorem TextSpelled_steady {raw : Bool} {characters body : List Char}
    (spelled : TextSpelled raw characters body) : Steady (marked .text body) := by
  induction characters generalizing body with
  | nil =>
      rw [TextSpelled] at spelled
      rw [spelled]
      exact steady_of_notMem List.not_mem_nil
  | cons character rest ih =>
      obtain ⟨first, behind, rfl, one, others⟩ := spelled
      rw [Json.marked_append, (CharSpelled_within one).ends]
      exact (CharSpelled_steady one).append (ih others)

theorem TokenSpelled_steady {raw : Bool} {token : Token} {text : List Char} (fine : token.Fine)
    (spelled : TokenSpelled raw token text) : Steady (inside .outside text) := by
  have none : Steady [] := steady_of_notMem List.not_mem_nil
  cases token with
  | punctuation symbol =>
      rw [TokenSpelled] at spelled
      have plain : '"' ∉ [symbol] := fun member =>
        (punctuation_ordinary fine).1 (List.mem_singleton.mp member).symm
      rw [spelled, (Json.outside_of_plain plain).2.1]
      exact none
  | atom atom =>
      rw [TokenSpelled] at spelled
      rw [spelled, (Json.outside_of_plain fun member => (atom_ordinary fine _ member).1 rfl).2.1]
      exact none
  | text characters =>
      obtain ⟨body, rfl, written⟩ := spelled
      have within := TextSpelled_within written
      have shown : inside .outside ('"' :: (body ++ ['"'])) =
          marked .text body ++ [(.text, '"')] := by
        have inner : inside .text (body ++ ['"']) =
            inside .text body ++ inside (endMode .text body) ['"'] :=
          Json.inside_append .text body ['"']
        have all : inside .text body = marked .text body :=
          List.filter_eq_self.mpr fun part member => bne_iff_ne.mpr (within.stays part member)
        rw [all, within.ends] at inner
        exact inner
      rw [shown]
      refine (TextSpelled_steady written).append (steady_of_notMem fun member => ?_)
      cases List.mem_singleton.mp member

theorem Spelled_steady {raw : Bool} {parts : List Token} {text : List Char}
    (fine : ∀ token ∈ parts, token.Fine) (spelled : Spelled raw parts text) :
    Steady (inside .outside text) := by
  induction parts generalizing text with
  | nil =>
      rw [(Json.outside_of_plain fun member => (blank_ordinary spelled _ member).1 rfl).2.1]
      exact steady_of_notMem List.not_mem_nil
  | cons token rest ih =>
      obtain ⟨head, others⟩ := List.forall_mem_cons.mp fine
      obtain ⟨before, written, behind, rfl, blank, one, spelled⟩ := spelled
      obtain ⟨ends, empty, _⟩ := @Json.outside_of_plain before
        fun member => (blank_ordinary blank _ member).1 rfl
      rw [Json.inside_append, ends, empty, List.nil_append, Json.inside_append,
        TokenSpelled_outside head one]
      exact (TokenSpelled_steady head one).append (ih others spelled)

/-- A text of tokens has no bad escape, so a reader can take each spelling of a value and refuse
every bad escape. -/
theorem not_badEscape_of_spelled {raw : Bool} {parts : List Token} {text : List Char}
    (fine : ∀ token ∈ parts, token.Fine) (spelled : Spelled raw parts text) : ¬BadEscape text := by
  intro bad
  have chain := List.IsChain.infix (Spelled_steady fine spelled).chain bad
  rw [List.isChain_cons_cons, List.isChain_cons_cons] at chain
  exact chain.2.1 rfl rfl

instance (text : List Char) : Decidable (BadEscape text) :=
  inferInstanceAs (Decidable (_ <:+: _))

/-- A reader that takes every text for the object, but for bad escapes. -/
def readObject (members : List (String × Value)) (text : List Char) : Except String Value :=
  if BadEscape text then .error "escape" else .ok (.object members)

/-- An object with a line feed in its string. -/
def note : List (String × Value) := [("note", .string "a\nb")]

/-- The text of the object with the line feed as it is and a comma at the end. -/
def noteText : List Char := "\x7b\"note\": \"a\nb\", \x7d".toList

theorem repairToolArgumentsJson_note :
    (repairToolArgumentsJson (readObject note) noteText = some (.object note) ↔
        PlainFrom .outside noteText) ∧
      ∀ text, inside .outside (escapeRawControlsAndTrailingCommas text) =
        (inside .outside text).flatMap fun part => marked part.1 (escapePart part) := by
  have wellFormed : (Value.object note).wellFormed = true := rfl
  have trailing : WithTrailing (tokens (.object note))
      [.punctuation '\x7b', .text "note".toList, .punctuation ':', .text "a\nb".toList,
        .punctuation ',', .punctuation '\x7d'] :=
    .keep (.keep (.keep (.keep (.comma rfl .nil))))
  refine repairToolArgumentsJson_iff wellFormed trailing ?_ ?_ ?_
  · have none : Blank [] := fun _ member => (List.not_mem_nil member).elim
    have one : Blank [' '] := fun _ member => List.mem_singleton.mp member ▸ List.mem_cons_self
    have plain : ∀ characters : List Char, characters.all (fun character =>
        character ≠ '"' ∧ character ≠ '\\') → TextSpelled true characters characters := by
      intro characters ordinary
      induction characters with
      | nil => rfl
      | cons character rest ih =>
          rw [List.all_cons, Bool.and_eq_true, decide_eq_true_eq] at ordinary
          obtain ⟨⟨quote, backslash⟩, others⟩ := ordinary
          exact ⟨[character], rest, rfl, .plain quote backslash (.inr rfl), ih others⟩
    exact ⟨[], _, _, rfl, none, rfl, [], _, _, rfl, none, ⟨_, rfl, plain _ (by decide)⟩,
      [], _, _, rfl, none, rfl, [' '], _, _, rfl, one, ⟨_, rfl, plain _ (by decide)⟩,
      [], _, _, rfl, none, rfl, [' '], _, _, rfl, one, rfl, none⟩
  · intro text spelled
    exact if_neg (not_badEscape_of_spelled (Json.tokens_fine _ wellFormed) spelled)
  · exact fun text bad => ⟨"escape", if_pos bad⟩

/-- A reader of compact texts. -/
def readCompact (text : List Char) : Except String Value :=
  match Json.parseValue text.length text with
  | some (value, []) => .ok value
  | _ => .error "no value"

/-- An object is lost for a deletion character in it, and so is one with another control character. -/
theorem control_not_repaired :
    (readCompact "\x7b\"a\":\"\x7f\"\x7d".toList).toOption.any Value.isObject = true ∧
    (repairToolArgumentsJson readCompact "\x7b\"a\":\"\x7f\"\x7d".toList).isNone = true ∧
    (repairToolArgumentsJson readCompact "\x7b\"a\":\"\x01\"\x7d".toList).isNone = true ∧
    escapeRawControlsAndTrailingCommas "\x7b\"a\":\"\x01\"\x7d".toList =
      "\x7b\"a\":\"\\u\x7b1\x7d\"\x7d".toList := by
  decide +kernel

end Kvist.Transport
