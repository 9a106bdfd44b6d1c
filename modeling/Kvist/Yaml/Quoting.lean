import Mathlib.Data.List.Basic

/-!
# Double-quoted scalars

The reading of the text between the quotes of a one-line double-quoted scalar: escape
sequences are decoded, and a line break that is not a line feed is folded together with the
blanks around it. The folding rules are stated on the decoded pieces of the text, so that an
emitter is verified by giving the pieces its output stands for.
-/

set_option autoImplicit false

namespace Kvist.Yaml

/-- The characters a document may contain. -/
def isPrintable (character : Char) : Bool :=
  let code := character.toNat
  code == 0x09 || code == 0x0A || code == 0x0D || (0x20 ≤ code && code ≤ 0x7E) || code == 0x85 ||
    (0xA0 ≤ code && code ≤ 0xD7FF) || (0xE000 ≤ code && code ≤ 0xFFFD) || 0x10000 ≤ code

/-- The line breaks other than line feed and carriage return: next line, and the line and
paragraph separators. -/
def isSeparator (character : Char) : Bool :=
  let code := character.toNat
  code == 0x85 || code == 0x2028 || code == 0x2029

/-- What one character or escape sequence of the quoted text stands for. -/
inductive Piece where
  | text (character : Char)
  | blank (character : Char)
  | lineBreak
  deriving DecidableEq, Repr

def hexDigit (character : Char) : Option Nat :=
  let code := character.toNat
  if 48 ≤ code ∧ code ≤ 57 then some (code - 48)
  else if 97 ≤ code ∧ code ≤ 102 then some (code - 87)
  else if 65 ≤ code ∧ code ≤ 70 then some (code - 55)
  else none

def unicodeEscape (first second third fourth : Char) : Option Char := do
  let first ← hexDigit first
  let second ← hexDigit second
  let third ← hexDigit third
  let fourth ← hexDigit fourth
  let code := ((first * 16 + second) * 16 + third) * 16 + fourth
  if code < 0xD800 ∨ 0xDFFF < code then some (Char.ofNat code) else none

def simpleEscape : Char → Option Char
  | '0' => some (Char.ofNat 0)
  | 'a' => some (Char.ofNat 7)
  | 'b' => some (Char.ofNat 8)
  | 't' => some '\t'
  | 'n' => some '\n'
  | 'v' => some (Char.ofNat 11)
  | 'f' => some (Char.ofNat 12)
  | 'r' => some '\r'
  | 'e' => some (Char.ofNat 27)
  | ' ' => some ' '
  | '"' => some '"'
  | '/' => some '/'
  | '\\' => some '\\'
  | 'N' => some (Char.ofNat 0x85)
  | '_' => some (Char.ofNat 0xA0)
  | 'L' => some (Char.ofNat 0x2028)
  | 'P' => some (Char.ofNat 0x2029)
  | _ => none

/-- A character that stands for itself. A quotation mark would end the scalar, and a line
feed or carriage return would leave the line. -/
def plainPiece (character : Char) : Option Piece :=
  if character = '"' ∨ character = '\n' ∨ character = '\r' then none
  else if character = ' ' ∨ character = '\t' then some (.blank character)
  else if isSeparator character then some .lineBreak
  else some (.text character)

/-- The pieces of a quoted text, when it is one. -/
def pieces : List Char → Option (List Piece)
  | [] => some []
  | '\\' :: 'u' :: first :: second :: third :: fourth :: rest => do
      let character ← unicodeEscape first second third fourth
      let others ← pieces rest
      some (.text character :: others)
  | '\\' :: letter :: rest => do
      let character ← simpleEscape letter
      let others ← pieces rest
      some (.text character :: others)
  | character :: rest => do
      if character = '\\' then none
      let piece ← plainPiece character
      let others ← pieces rest
      some (piece :: others)

/-- Blanks or line breaks whose meaning depends on what follows. -/
inductive Pending where
  | blanks (characters : List Char)
  | breaks (further : Nat)

/-- One line break is a space, and `further` more are as many line feeds. -/
def foldedBreaks : Nat → List Char
  | 0 => [' ']
  | further + 1 => List.replicate (further + 1) '\n'

def fold : Pending → List Piece → List Char
  | .blanks characters, [] => characters
  | .blanks characters, .text character :: rest => characters ++ character :: fold (.blanks []) rest
  | .blanks characters, .blank character :: rest => fold (.blanks (characters ++ [character])) rest
  | .blanks _, .lineBreak :: rest => fold (.breaks 0) rest
  | .breaks further, [] => foldedBreaks further
  | .breaks further, .text character :: rest =>
      foldedBreaks further ++ character :: fold (.blanks []) rest
  | .breaks further, .blank _ :: rest => fold (.breaks further) rest
  | .breaks further, .lineBreak :: rest => fold (.breaks (further + 1)) rest

/-- The value of a double-quoted scalar with this text between its quotes. -/
def unquote (raw : List Char) : Option (List Char) := (pieces raw).map (fold (.blanks []))

/-! ## Folding -/

def Piece.characters : Piece → List Char
  | .text character | .blank character => [character]
  | .lineBreak => []

theorem fold_eq_of_no_break {items : List Piece} (free : Piece.lineBreak ∉ items)
    (before : List Char) :
    fold (.blanks before) items = before ++ items.flatMap Piece.characters := by
  induction items generalizing before with
  | nil => simp [fold]
  | cons piece rest ih =>
      have freeRest : Piece.lineBreak ∉ rest := fun member => free (by simp [member])
      cases piece with
      | text character => simp [fold, ih freeRest, Piece.characters]
      | blank character => simp [fold, ih freeRest, Piece.characters]
      | lineBreak => simp at free

private theorem mem_foldedBreaks {further : Nat} {character : Char}
    (member : character ∈ foldedBreaks further) : character = ' ' ∨ character = '\n' := by
  cases further with
  | zero => exact .inl (by simpa [foldedBreaks] using member)
  | succ further => exact .inr (List.eq_of_mem_replicate member)

private def Pending.Within (known : Char → Prop) : Pending → Prop
  | .blanks characters => ∀ character ∈ characters, known character
  | .breaks _ => True

theorem mem_fold {known : Char → Prop} (space : known ' ') (lineFeed : known '\n')
    {items : List Piece} (within : ∀ piece ∈ items, ∀ character ∈ piece.characters, known character)
    {pending : Pending} (before : pending.Within known) :
    ∀ character ∈ fold pending items, known character := by
  have folded : ∀ further, ∀ character ∈ foldedBreaks further, known character := by
    intro further character member
    rcases mem_foldedBreaks member with rfl | rfl
    · exact space
    · exact lineFeed
  induction items generalizing pending with
  | nil =>
      cases pending with
      | blanks characters => exact before
      | breaks further => exact folded further
  | cons piece rest ih =>
      have withinRest : ∀ piece ∈ rest, ∀ character ∈ piece.characters, known character :=
        fun other member => within other (by simp [member])
      have here := within piece (by simp)
      cases pending with
      | blanks characters =>
          cases piece with
          | text character =>
              intro other member
              rw [fold, List.mem_append, List.mem_cons] at member
              rcases member with member | rfl | member
              · exact before other member
              · exact here other (by simp [Piece.characters])
              · exact ih withinRest (by simp [Pending.Within]) other member
          | blank character =>
              refine ih withinRest fun other member => ?_
              rcases List.mem_append.mp member with member | member
              · exact before other member
              · exact here other member
          | lineBreak => exact ih withinRest trivial
      | breaks further =>
          cases piece with
          | text character =>
              intro other member
              rw [fold, List.mem_append, List.mem_cons] at member
              rcases member with member | rfl | member
              · exact folded further other member
              · exact here other (by simp [Piece.characters])
              · exact ih withinRest (by simp [Pending.Within]) other member
          | blank character => exact ih withinRest trivial
          | lineBreak => exact ih withinRest trivial

/-! ## The pieces of an emitted text -/

/-- The pieces of a concatenation, one emitted fragment at a time. -/
def Spells (raw : List Char) (piece : Piece) : Prop :=
  ∀ rest, pieces (raw ++ rest) = (pieces rest).map (piece :: ·)

theorem spells_plain {character : Char} {piece : Piece} (notEscape : character ≠ '\\')
    (stands : plainPiece character = some piece) : Spells [character] piece := by
  intro rest
  rw [List.singleton_append, pieces]
  · simp only [notEscape, if_false, stands]
    cases pieces rest <;> rfl
  · rintro _ _ _ _ _ rfl
    exact absurd rfl notEscape
  · rintro _ _ rfl
    exact absurd rfl notEscape

theorem spells_simple {letter character : Char} (notUnicode : letter ≠ 'u')
    (stands : simpleEscape letter = some character) : Spells ['\\', letter] (.text character) := by
  intro rest
  rw [List.cons_append, List.singleton_append, pieces]
  · simp only [stands]
    cases pieces rest <;> rfl
  · rintro _ _ _ _ _ rfl
    exact absurd rfl notUnicode

theorem spells_unicode {first second third fourth character : Char}
    (stands : unicodeEscape first second third fourth = some character) :
    Spells ['\\', 'u', first, second, third, fourth] (.text character) := by
  intro rest
  rw [show ['\\', 'u', first, second, third, fourth] ++ rest =
    '\\' :: 'u' :: first :: second :: third :: fourth :: rest from rfl, pieces]
  simp only [stands]
  cases pieces rest <;> rfl

theorem pieces_flatMap {emit : Char → List Char} {stands : Char → Piece}
    (spells : ∀ character, Spells (emit character) (stands character)) (value : List Char) :
    pieces (value.flatMap emit) = some (value.map stands) := by
  induction value with
  | nil => rfl
  | cons character rest ih =>
      rw [List.flatMap_cons, spells character, ih]
      rfl

private theorem hexDigit_single {character : Char} {digit : Nat}
    (stands : hexDigit character = some digit) : character ≠ '\n' ∧ character ≠ '\r' := by
  constructor <;> rintro rfl <;> simp [hexDigit] at stands

private theorem simpleEscape_single {letter character : Char}
    (stands : simpleEscape letter = some character) : letter ≠ '\n' ∧ letter ≠ '\r' := by
  constructor <;> rintro rfl <;> simp [simpleEscape] at stands

/-- A quoted text stays on its line. -/
theorem pieces_single {raw : List Char} {found : List Piece} (read : pieces raw = some found) :
    ∀ character ∈ raw, character ≠ '\n' ∧ character ≠ '\r' := by
  induction raw using pieces.induct generalizing found with
  | case1 => simp
  | case2 first second third fourth rest ih =>
      rw [pieces] at read
      simp only [unicodeEscape, Option.bind_eq_bind, Option.bind_eq_some_iff] at read
      obtain ⟨_, ⟨_, one, _, two, _, three, _, four, _⟩, others, readRest, _⟩ := read
      intro character member
      simp only [List.mem_cons] at member
      rcases member with rfl | rfl | rfl | rfl | rfl | rfl | member
      · decide
      · decide
      · exact hexDigit_single one
      · exact hexDigit_single two
      · exact hexDigit_single three
      · exact hexDigit_single four
      · exact ih readRest character member
  | case3 letter rest notUnicode ih =>
      rw [pieces] at read
      · simp only [Option.bind_eq_bind, Option.bind_eq_some_iff] at read
        obtain ⟨_, stands, others, readRest, _⟩ := read
        intro character member
        simp only [List.mem_cons] at member
        rcases member with rfl | rfl | member
        · decide
        · exact simpleEscape_single stands
        · exact ih readRest character member
      · exact notUnicode
  | case4 rest notUnicode notEscape =>
      rw [pieces] at read
      · simp at read
      · exact notUnicode
      · exact notEscape
  | case5 character rest notUnicode notEscape ordinary ih =>
      rw [pieces] at read
      · simp only [ordinary, if_false, Option.bind_eq_bind, Option.bind_eq_some_iff] at read
        obtain ⟨piece, stands, others, readRest, _⟩ := read
        intro other member
        rcases List.mem_cons.mp member with rfl | member
        · constructor <;> rintro rfl <;> simp [plainPiece] at stands
        · exact ih readRest other member
      · exact notUnicode
      · exact notEscape

end Kvist.Yaml
