import Mathlib.Data.List.Chain
import Kvist.Json.Balance

/-!
# Texts of a value

A value is a sequence of tokens. Its texts spell them, with blanks between them. A text is also read
one character at a time, with the knowledge of whether a string is open.
-/

set_option autoImplicit false

namespace Kvist.Json

/-! ## Tokens -/

inductive Token where
  | punctuation (symbol : Char)
  | atom (text : List Char)
  | text (characters : List Char)

mutual

def tokens : Value → List Token
  | .null => [.atom "null".toList]
  | .boolean true => [.atom "true".toList]
  | .boolean false => [.atom "false".toList]
  | .number literal => [.atom literal.toList]
  | .string text => [.text text.toList]
  | .array items => .punctuation '[' :: (itemTokens items ++ [.punctuation ']'])
  | .object members => .punctuation '{' :: (memberTokens members ++ [.punctuation '}'])

def itemTokens : List Value → List Token
  | [] => []
  | [item] => tokens item
  | item :: rest => tokens item ++ .punctuation ',' :: itemTokens rest

def memberTokens : List (String × Value) → List Token
  | [] => []
  | [(name, value)] => .text name.toList :: .punctuation ':' :: tokens value
  | (name, value) :: rest =>
      .text name.toList :: .punctuation ':' ::
        (tokens value ++ .punctuation ',' :: memberTokens rest)

end

/-! ## Spelling -/

def Blank (text : List Char) : Prop := ∀ character ∈ text, character ∈ [' ', '\t', '\n', '\r']

def hexDigitValue (character : Char) : Option Nat :=
  if character.isDigit then some (character.toNat - '0'.toNat)
  else if 'a'.toNat ≤ character.toNat ∧ character.toNat ≤ 'f'.toNat then
    some (character.toNat - 'a'.toNat + 10)
  else if 'A'.toNat ≤ character.toNat ∧ character.toNat ≤ 'F'.toNat then
    some (character.toNat - 'A'.toNat + 10)
  else none

def hexNumber (digits : List Char) : Option Nat :=
  digits.foldlM (fun number digit => (hexDigitValue digit).map fun value => number * 16 + value) 0

/-- The letters behind a backslash, and the characters that they stand for. -/
def shortEscapes : List (Char × Char) :=
  [('"', '"'), ('\\', '\\'), ('/', '/'), ('b', '\x08'), ('f', '\x0c'), ('n', '\n'), ('r', '\x0d'),
    ('t', '\t')]

/-- How a character is written inside a string. A character below the blank stands as it is only
where that is allowed. -/
inductive CharSpelled (raw : Bool) : Char → List Char → Prop where
  | plain {character : Char} :
      character ≠ '"' → character ≠ '\\' → (0x20 ≤ character.toNat ∨ raw = true) →
      CharSpelled raw character [character]
  | short {letter character : Char} :
      (letter, character) ∈ shortEscapes → CharSpelled raw character ['\\', letter]
  | unicode {digits : List Char} {character : Char} :
      digits.length = 4 → hexNumber digits = some character.toNat →
      CharSpelled raw character ('\\' :: 'u' :: digits)
  | pair {first second : List Char} {high low : Nat} {character : Char} :
      first.length = 4 → second.length = 4 →
      hexNumber first = some (0xD800 + high) → hexNumber second = some (0xDC00 + low) →
      high < 0x400 → low < 0x400 → character.toNat = 0x10000 + high * 0x400 + low →
      CharSpelled raw character ('\\' :: 'u' :: (first ++ '\\' :: 'u' :: second))

def TextSpelled (raw : Bool) : List Char → List Char → Prop
  | [], body => body = []
  | character :: rest, body => ∃ first behind,
      body = first ++ behind ∧ CharSpelled raw character first ∧ TextSpelled raw rest behind

def TokenSpelled (raw : Bool) : Token → List Char → Prop
  | .punctuation symbol, text => text = [symbol]
  | .atom atom, text => text = atom
  | .text characters, text => ∃ body, text = '"' :: (body ++ ['"']) ∧ TextSpelled raw characters body

def Spelled (raw : Bool) : List Token → List Char → Prop
  | [], text => Blank text
  | token :: rest, text => ∃ before spelled behind,
      text = before ++ (spelled ++ behind) ∧ Blank before ∧ TokenSpelled raw token spelled ∧
        Spelled raw rest behind

theorem Blank.append {front back : List Char} (first : Blank front) (second : Blank back) :
    Blank (front ++ back) := by
  intro character member
  rcases List.mem_append.mp member with member | member
  · exact first character member
  · exact second character member

/-- Blanks before the first token belong to it. -/
theorem Blank.spelled {raw : Bool} {blank text : List Char} {parts : List Token}
    (isBlank : Blank blank) (spelled : Spelled raw parts text) :
    Spelled raw parts (blank ++ text) := by
  cases parts with
  | nil => exact isBlank.append spelled
  | cons token rest =>
      obtain ⟨before, written, behind, rfl, blankBefore, token, rest⟩ := spelled
      exact ⟨blank ++ before, written, behind, (List.append_assoc _ _ _).symm,
        isBlank.append blankBefore, token, rest⟩

theorem spelled_append {raw : Bool} {front back : List Token} {text : List Char} :
    Spelled raw (front ++ back) text ↔ ∃ first second,
      text = first ++ second ∧ Spelled raw front first ∧ Spelled raw back second := by
  induction front generalizing text with
  | nil =>
      constructor
      · exact fun spelled => ⟨[], text, rfl, fun _ member => (List.not_mem_nil member).elim, spelled⟩
      · rintro ⟨first, second, rfl, blank, spelled⟩
        exact blank.spelled spelled
  | cons token front ih =>
      constructor
      · rintro ⟨before, written, behind, rfl, blank, token, rest⟩
        obtain ⟨first, second, rfl, front, back⟩ := ih.mp rest
        refine ⟨before ++ (written ++ first), second, ?_, ⟨before, written, first, rfl, blank, token,
          front⟩, back⟩
        rw [List.append_assoc, List.append_assoc]
      · rintro ⟨first, second, rfl, ⟨before, written, behind, rfl, blank, token, rest⟩, spelled⟩
        refine ⟨before, written, behind ++ second, ?_, blank, token,
          ih.mpr ⟨behind, second, rfl, rest, spelled⟩⟩
        rw [List.append_assoc, List.append_assoc]

/-! ## Closing brackets behind a comma -/

def isClosing : Token → Bool
  | .punctuation symbol => symbol == '}' || symbol == ']'
  | _ => false

def isComma : Token → Bool
  | .punctuation symbol => symbol == ','
  | _ => false

/-- The tokens where commas stand before closing brackets. -/
inductive WithTrailing : List Token → List Token → Prop where
  | nil : WithTrailing [] []
  | keep {token : Token} {first second : List Token} :
      WithTrailing first second → WithTrailing (token :: first) (token :: second)
  | comma {token : Token} {first second : List Token} :
      isClosing token = true → WithTrailing first second →
      WithTrailing (token :: first) (.punctuation ',' :: token :: second)

private theorem WithTrailing.last {parts extended : List Token}
    (trailing : WithTrailing (parts ++ [.punctuation '\x7d']) extended) :
    ∃ middle, extended = middle ++ [.punctuation '\x7d'] := by
  induction parts generalizing extended with
  | nil =>
      rw [List.nil_append] at trailing
      cases trailing with
      | keep rest =>
          cases rest
          exact ⟨[], rfl⟩
      | comma _ rest =>
          cases rest
          exact ⟨[.punctuation ','], rfl⟩
  | cons token parts ih =>
      rw [List.cons_append] at trailing
      cases trailing with
      | keep rest =>
          obtain ⟨middle, rfl⟩ := ih rest
          exact ⟨token :: middle, rfl⟩
      | comma _ rest =>
          obtain ⟨middle, rfl⟩ := ih rest
          exact ⟨.punctuation ',' :: token :: middle, rfl⟩

/-- The braces of an object stay at its ends. -/
theorem WithTrailing.object {parts extended : List Token}
    (trailing : WithTrailing (.punctuation '\x7b' :: (parts ++ [.punctuation '\x7d'])) extended) :
    ∃ middle, extended = .punctuation '\x7b' :: (middle ++ [.punctuation '\x7d']) := by
  cases trailing with
  | keep rest =>
      obtain ⟨middle, rfl⟩ := rest.last
      exact ⟨middle, rfl⟩
  | comma closing _ => cases closing

def dropTokens : List Token → List Token
  | [] => []
  | token :: rest =>
      if isComma token && rest.head?.any isClosing then dropTokens rest
      else token :: dropTokens rest

/-- No closing bracket is behind a comma. -/
def Apart (parts : List Token) : Prop :=
  parts.IsChain fun first second => ¬(isComma first = true ∧ isClosing second = true)

private theorem withTrailing_head {first second : List Token} (trailing : WithTrailing first second)
    (closing : second.head?.any isClosing = true) : first.head?.any isClosing = true := by
  cases trailing with
  | nil => exact closing
  | keep rest => exact closing
  | comma _ rest => cases closing

theorem dropTokens_eq {first second : List Token} (trailing : WithTrailing first second)
    (apart : Apart first) : dropTokens second = first := by
  induction trailing with
  | nil => rfl
  | @keep token first second rest ih =>
      have kept : (isComma token && second.head?.any isClosing) = false := by
        rw [Bool.and_eq_false_imp]
        intro comma
        by_contra closing
        rw [Bool.not_eq_false] at closing
        have headed := withTrailing_head rest closing
        cases first with
        | nil => cases headed
        | cons next first =>
            exact (List.isChain_cons_cons.mp apart).1 ⟨comma, headed⟩
      rw [dropTokens, kept, if_neg Bool.false_ne_true, ih (List.IsChain.of_cons apart)]
  | @comma token first second closing _ ih =>
      have kept : isComma token = false := by
        cases token with
        | punctuation symbol =>
            rw [isClosing, Bool.or_eq_true, beq_iff_eq, beq_iff_eq] at closing
            rcases closing with rfl | rfl <;> decide
        | atom text => rfl
        | text characters => rfl
      have dropped : (isComma (.punctuation ',') && (token :: second).head?.any isClosing) =
          true := by
        rw [List.head?_cons, Option.any_some, closing]
        rfl
      rw [dropTokens, dropped, if_pos rfl, dropTokens, kept, Bool.false_and,
        if_neg Bool.false_ne_true, ih (List.IsChain.of_cons apart)]

/-- The tokens of one value, or of several. -/
structure Tidy (parts : List Token) : Prop where
  nonempty : parts ≠ []
  apart : Apart parts
  head : ∀ token ∈ parts.head?, isClosing token = false
  last : ∀ token ∈ parts.getLast?, isComma token = false

theorem Tidy.comma {first second : List Token} (left : Tidy first) (right : Tidy second) :
    Tidy (first ++ .punctuation ',' :: second) where
  nonempty := List.append_ne_nil_of_left_ne_nil left.nonempty _
  apart := by
    have tail : Apart (.punctuation ',' :: second) := by
      refine List.isChain_cons.mpr ⟨?_, right.apart⟩
      intro token member both
      rw [right.head token member] at both
      exact Bool.false_ne_true both.2
    refine List.isChain_append.mpr ⟨left.apart, tail, ?_⟩
    intro token member next _ both
    rw [left.last token member] at both
    exact Bool.false_ne_true both.1
  head := by
    rw [List.head?_append_of_ne_nil _ left.nonempty]
    exact left.head
  last := by
    rw [List.getLast?_append_of_ne_nil _ (List.cons_ne_nil _ _),
      List.getLast?_cons_of_ne_nil right.nonempty]
    exact right.last

theorem Tidy.bracketed {opening closing : Char} {parts : List Token}
    (opens : opening = '[' ∨ opening = '{') (closes : closing = ']' ∨ closing = '}')
    (inner : parts = [] ∨ Tidy parts) :
    Tidy (.punctuation opening :: (parts ++ [.punctuation closing])) where
  nonempty := List.cons_ne_nil _ _
  apart := by
    have first : isComma (.punctuation opening) = false := by
      rcases opens with rfl | rfl <;> decide
    refine List.isChain_cons.mpr ⟨?_, ?_⟩
    · intro token _ both
      rw [first] at both
      exact Bool.false_ne_true both.1
    · rcases inner with rfl | tidy
      · exact List.isChain_singleton _
      · refine List.isChain_append.mpr ⟨tidy.apart, List.isChain_singleton _, ?_⟩
        intro token member next _ both
        rw [tidy.last token member] at both
        exact Bool.false_ne_true both.1
  head := by
    intro token member
    cases member
    rcases opens with rfl | rfl <;> decide
  last := by
    intro token member
    rw [← List.cons_append, List.getLast?_concat] at member
    cases member
    rcases closes with rfl | rfl <;> decide

theorem Tidy.atom (text : List Char) : Tidy [.atom text] :=
  ⟨List.cons_ne_nil _ _, List.isChain_singleton _, fun _ member => by cases member; rfl,
    fun _ member => by cases member; rfl⟩

theorem Tidy.text (characters : List Char) : Tidy [.text characters] :=
  ⟨List.cons_ne_nil _ _, List.isChain_singleton _, fun _ member => by cases member; rfl,
    fun _ member => by cases member; rfl⟩

theorem Tidy.member {parts : List Token} (value : Tidy parts) (name : List Char) :
    Tidy (.text name :: .punctuation ':' :: parts) where
  nonempty := List.cons_ne_nil _ _
  apart := by
    refine List.isChain_cons.mpr ⟨fun _ _ both => Bool.false_ne_true both.1, ?_⟩
    refine List.isChain_cons.mpr ⟨fun _ _ both => ?_, value.apart⟩
    exact absurd both.1 (by decide)
  head := fun _ member => by cases member; rfl
  last := by
    rw [List.getLast?_cons_of_ne_nil (List.cons_ne_nil _ _),
      List.getLast?_cons_of_ne_nil value.nonempty]
    exact value.last

mutual

theorem tokens_tidy : ∀ value : Value, Tidy (tokens value)
  | .null => Tidy.atom _
  | .boolean true => Tidy.atom _
  | .boolean false => Tidy.atom _
  | .number literal => Tidy.atom _
  | .string text => Tidy.text _
  | .array items => by
      rw [tokens]
      refine Tidy.bracketed (.inl rfl) (.inl rfl) ?_
      by_cases none : items = []
      · exact .inl (none ▸ rfl)
      · exact .inr (itemTokens_tidy items none)
  | .object members => by
      rw [tokens]
      refine Tidy.bracketed (.inr rfl) (.inr rfl) ?_
      by_cases none : members = []
      · exact .inl (none ▸ rfl)
      · exact .inr (memberTokens_tidy members none)

theorem itemTokens_tidy : ∀ items : List Value, items ≠ [] → Tidy (itemTokens items)
  | [], nonempty => absurd rfl nonempty
  | item :: rest, _ => by
      have first := tokens_tidy item
      have others := itemTokens_tidy rest
      cases rest with
      | nil =>
          rw [itemTokens]
          exact first
      | cons second rest =>
          rw [itemTokens.eq_3 _ _ (by simp)]
          exact first.comma (others (List.cons_ne_nil _ _))

theorem memberTokens_tidy : ∀ members : List (String × Value), members ≠ [] →
    Tidy (memberTokens members)
  | [], nonempty => absurd rfl nonempty
  | (name, value) :: rest, _ => by
      have first := (tokens_tidy value).member name.toList
      have others := memberTokens_tidy rest
      cases rest with
      | nil =>
          rw [memberTokens]
          exact first
      | cons second rest =>
          rw [memberTokens.eq_3 _ _ _ (by simp)]
          exact first.comma (others (List.cons_ne_nil _ _))

end

/-! ## Symbols and atoms -/

def Token.Fine : Token → Prop
  | .punctuation symbol => symbol ∈ ['\x7b', '\x7d', '[', ']', ':', ',']
  | .atom written => written ≠ [] ∧ ∀ character ∈ written, character.isAlphanum = true ∨
      character ∈ ['-', '+', '.']
  | .text _ => True

theorem Token.fine_punctuation {symbol : Char}
    (one : symbol ∈ ['\x7b', '\x7d', '[', ']', ':', ',']) : (Token.punctuation symbol).Fine := one

theorem Token.fine_text (characters : List Char) : (Token.text characters).Fine := trivial

theorem Token.fine_word {written : List Char} (nonempty : written.isEmpty = false)
    (letters : written.all Char.isAlphanum = true) : (Token.atom written).Fine :=
  ⟨List.isEmpty_eq_false_iff.mp nonempty,
    fun character member => .inl (List.all_eq_true.mp letters character member)⟩

mutual

theorem tokens_fine : ∀ value : Value, value.wellFormed = true → ∀ token ∈ tokens value, token.Fine
  | .null, _ => by
      simp only [tokens, List.mem_singleton, forall_eq]
      exact Token.fine_word rfl rfl
  | .boolean true, _ => by
      simp only [tokens, List.mem_singleton, forall_eq]
      exact Token.fine_word rfl rfl
  | .boolean false, _ => by
      simp only [tokens, List.mem_singleton, forall_eq]
      exact Token.fine_word rfl rfl
  | .number literal, wellFormed => by
      simp only [tokens, List.mem_singleton, forall_eq]
      rw [Value.wellFormed, Bool.and_eq_true, Bool.not_eq_true', List.isEmpty_eq_false_iff,
        List.all_eq_true] at wellFormed
      refine ⟨wellFormed.1, fun character member => ?_⟩
      have found := wellFormed.2 character member
      simp only [numeral, Bool.or_eq_true, beq_iff_eq] at found
      rcases found with ((((digit | rfl) | rfl) | rfl) | rfl) | rfl
      · left
        have either : character.isAlphanum = (character.isAlpha || character.isDigit) := rfl
        rw [either, digit, Bool.or_true]
      all_goals decide
  | .string text, _ => by
      simp only [tokens, List.mem_singleton, forall_eq]
      exact Token.fine_text _
  | .array items, wellFormed => by
      rw [Value.wellFormed] at wellFormed
      have inner := itemTokens_fine items wellFormed
      intro token member
      rw [tokens, List.mem_cons, List.mem_append, List.mem_singleton] at member
      rcases member with rfl | member | rfl
      · exact Token.fine_punctuation (by decide)
      · exact inner token member
      · exact Token.fine_punctuation (by decide)
  | .object members, wellFormed => by
      rw [Value.wellFormed] at wellFormed
      have inner := memberTokens_fine members wellFormed
      intro token member
      rw [tokens, List.mem_cons, List.mem_append, List.mem_singleton] at member
      rcases member with rfl | member | rfl
      · exact Token.fine_punctuation (by decide)
      · exact inner token member
      · exact Token.fine_punctuation (by decide)

theorem itemTokens_fine : ∀ items : List Value, Value.wellFormedItems items = true →
    ∀ token ∈ itemTokens items, token.Fine
  | [], _ => fun _ member => (List.not_mem_nil member).elim
  | item :: rest, wellFormed => by
      rw [Value.wellFormedItems, Bool.and_eq_true] at wellFormed
      have first := tokens_fine item wellFormed.1
      have others := itemTokens_fine rest wellFormed.2
      cases rest with
      | nil =>
          rw [itemTokens]
          exact first
      | cons second rest =>
          rw [itemTokens.eq_3 _ _ (by simp)]
          intro token member
          rw [List.mem_append, List.mem_cons] at member
          rcases member with member | rfl | member
          · exact first token member
          · exact Token.fine_punctuation (by decide)
          · exact others token member

theorem memberTokens_fine : ∀ members : List (String × Value),
    Value.wellFormedMembers members = true → ∀ token ∈ memberTokens members, token.Fine
  | [], _ => fun _ member => (List.not_mem_nil member).elim
  | (name, value) :: rest, wellFormed => by
      rw [Value.wellFormedMembers, Bool.and_eq_true] at wellFormed
      have first : ∀ token ∈ Token.text name.toList :: .punctuation ':' :: tokens value,
          token.Fine := by
        intro token member
        rw [List.mem_cons, List.mem_cons] at member
        rcases member with rfl | rfl | member
        · exact Token.fine_text _
        · exact Token.fine_punctuation (by decide)
        · exact tokens_fine value wellFormed.1 token member
      have others := memberTokens_fine rest wellFormed.2
      cases rest with
      | nil =>
          rw [memberTokens]
          exact first
      | cons second rest =>
          rw [memberTokens.eq_3 _ _ _ (by simp)]
          intro token member
          rcases List.mem_append.mp (show token ∈ (Token.text name.toList :: .punctuation ':' ::
              tokens value) ++ .punctuation ',' :: memberTokens (second :: rest) from member)
            with member | member
          · exact first token member
          rcases List.mem_cons.mp member with rfl | member
          · exact Token.fine_punctuation (by decide)
          · exact others token member

end

theorem WithTrailing.fine {first second : List Token} (trailing : WithTrailing first second)
    (fine : ∀ token ∈ first, token.Fine) : ∀ token ∈ second, token.Fine := by
  induction trailing with
  | nil => exact fine
  | keep _ ih =>
      obtain ⟨head, rest⟩ := List.forall_mem_cons.mp fine
      exact List.forall_mem_cons.mpr ⟨head, ih rest⟩
  | comma _ _ ih =>
      obtain ⟨head, rest⟩ := List.forall_mem_cons.mp fine
      refine List.forall_mem_cons.mpr ⟨?_, List.forall_mem_cons.mpr ⟨head, ih rest⟩⟩
      exact Token.fine_punctuation (by decide)

/-! ## Inside strings -/

def Mode.next : Mode → Char → Mode
  | .outside, character => if character = '"' then .text else .outside
  | .text, character =>
      if character = '"' then .outside else if character = '\\' then .escaped else .text
  | .escaped, _ => .text

/-- The characters, each with the mode in which it is read. -/
def marked : Mode → List Char → List (Mode × Char)
  | _, [] => []
  | mode, character :: rest => (mode, character) :: marked (mode.next character) rest

def endMode (mode : Mode) (text : List Char) : Mode := text.foldl Mode.next mode

/-- What stands inside the strings of a text, with the closing quotation marks. -/
def inside (mode : Mode) (text : List Char) : List (Mode × Char) :=
  (marked mode text).filter fun part => part.1 != .outside

theorem marked_append (mode : Mode) (front back : List Char) :
    marked mode (front ++ back) = marked mode front ++ marked (endMode mode front) back := by
  induction front generalizing mode with
  | nil => rfl
  | cons character front ih => exact congrArg ((mode, character) :: ·) (ih _)

theorem endMode_append (mode : Mode) (front back : List Char) :
    endMode mode (front ++ back) = endMode (endMode mode front) back :=
  List.foldl_append

theorem inside_append (mode : Mode) (front back : List Char) :
    inside mode (front ++ back) = inside mode front ++ inside (endMode mode front) back := by
  rw [inside, marked_append, List.filter_append]
  rfl

theorem outside_of_plain {text : List Char} (plain : '"' ∉ text) :
    endMode .outside text = .outside ∧ inside .outside text = [] ∧
      marked .outside text = text.map fun character => (Mode.outside, character) := by
  induction text with
  | nil => exact ⟨rfl, rfl, rfl⟩
  | cons character rest ih =>
      rw [List.mem_cons, not_or] at plain
      obtain ⟨ends, none, all⟩ := ih plain.2
      have next : Mode.next .outside character = .outside := if_neg (Ne.symm plain.1)
      refine ⟨?_, ?_, ?_⟩
      · rw [endMode, List.foldl_cons, next]
        exact ends
      · rw [inside, marked, next, List.filter_cons_of_neg Bool.false_ne_true]
        exact none
      · rw [marked, next, all, List.map_cons]

/-- Without a quotation mark no string is left. -/
theorem endMode_ne_outside {mode : Mode} {text : List Char} (opened : mode ≠ .outside)
    (plain : '"' ∉ text) : endMode mode text ≠ .outside := by
  induction text generalizing mode with
  | nil => exact opened
  | cons character rest ih =>
      rw [List.mem_cons, not_or] at plain
      refine ih ?_ plain.2
      cases mode with
      | outside => exact absurd rfl opened
      | text =>
          rw [Mode.next, if_neg (Ne.symm plain.1)]
          split <;> exact Mode.noConfusion
      | escaped => exact Mode.noConfusion

/-- Nothing inside is lost with an end that has no quotation mark. -/
theorem outside_before {front back : List Char}
    (ends : endMode .outside (front ++ back) = .outside) (plain : '"' ∉ back) :
    endMode .outside front = .outside ∧
      inside .outside (front ++ back) = inside .outside front := by
  rw [endMode_append] at ends
  have before : endMode .outside front = .outside := by
    by_contra opened
    exact endMode_ne_outside opened plain ends
  refine ⟨before, ?_⟩
  rw [inside_append, before, (outside_of_plain plain).2.1, List.append_nil]

end Kvist.Json
