import Kvist.Discovery.Ignore
import Kvist.Utf8
import Mathlib.Logic.Relation

/-!
# What a pattern matches

The loop goes back to the last star only. That is enough, since what stands between two stars can
be read at the first place where it fits. The loop answers rightly as long as no star of the
pattern faces a star of the text, and no question mark a byte of a character of several bytes.
-/

set_option autoImplicit false

namespace Kvist.Discovery

open Json (utf8 utf8Bytes)
open Wildcards

/-! ## Patterns over bytes -/

def byteSymbol (byte : UInt8) : Symbol UInt8 :=
  if byte = starByte then .many else if byte = questionByte then .one else .literal byte

def IsCharacter (piece : List UInt8) : Prop := ∃ character, piece = String.utf8EncodeChar character

def SpellsBytes (pattern text : List UInt8) : Prop :=
  Matches IsCharacter (pattern.map byteSymbol) text

private theorem character_nonempty (piece : List UInt8) (isCharacter : IsCharacter piece) :
    piece ≠ [] := by
  obtain ⟨character, rfl⟩ := isCharacter
  obtain ⟨first, others, encoded, -⟩ := Utf8.next_utf8EncodeChar character []
  rw [encoded]
  exact List.cons_ne_nil _ _

@[simp] private theorem byteSymbol_star : byteSymbol starByte = .many := rfl

@[simp] private theorem byteSymbol_question : byteSymbol questionByte = .one := rfl

private theorem byteSymbol_literal {byte : UInt8} (other : byte ≠ starByte)
    (another : byte ≠ questionByte) : byteSymbol byte = .literal byte := by
  rw [byteSymbol, if_neg other, if_neg another]

private theorem byteSymbol_eq_many_iff {byte : UInt8} : byteSymbol byte = .many ↔ byte = starByte := by
  rw [byteSymbol]
  split
  · next here => simp [here]
  · next other =>
      split
      · simp [other]
      · simp [other]

private theorem narrow_of_starless {front : List UInt8} (starless : starByte ∉ front) :
    Symbol.many ∉ front.map byteSymbol := by
  intro member
  obtain ⟨byte, present, many⟩ := List.mem_map.mp member
  exact starless (byteSymbol_eq_many_iff.mp many ▸ present)

private theorem character_ascii {byte : UInt8} {piece : List UInt8} (ascii : byte.toNat < 128) :
    IsCharacter (byte :: piece) ↔ piece = [] := by
  have single : String.utf8EncodeChar (Char.ofNat byte.toNat) = [byte] := by
    have narrow : Utf8.width byte.toNat = 1 := by rw [Utf8.width, if_pos ascii]
    have read : Utf8.next byte [] = (some (Char.ofNat byte.toNat), []) := by
      rw [Utf8.next, if_neg (by omega), if_pos narrow]
    simpa using (Utf8.next_sound read).symm
  constructor
  · rintro ⟨character, encoded⟩
    have same : String.utf8EncodeChar (Char.ofNat byte.toNat) ++ piece =
        String.utf8EncodeChar character ++ [] := by
      rw [single, ← encoded, List.singleton_append, List.append_nil]
    exact (Utf8.utf8EncodeChar_append_inj same).2
  · rintro rfl
    exact ⟨_, single.symm⟩

private theorem spells_question {behind rest : List UInt8} {byte : UInt8}
    (ascii : byte.toNat < 128) :
    SpellsBytes (questionByte :: behind) (byte :: rest) ↔ SpellsBytes behind rest := by
  rw [SpellsBytes, List.map_cons, byteSymbol_question, matches_one_iff]
  constructor
  · rintro ⟨piece, remaining, same, isCharacter, matched⟩
    cases piece with
    | nil => exact absurd rfl (character_nonempty [] isCharacter)
    | cons first piece =>
        obtain ⟨rfl, tails⟩ := List.cons.inj same
        obtain rfl := (character_ascii ascii).mp isCharacter
        obtain rfl : rest = remaining := tails
        exact matched
  · intro matched
    exact ⟨[byte], rest, rfl, (character_ascii ascii).mpr rfl, matched⟩

private theorem spells_literal {behind rest : List UInt8} {symbol byte : UInt8}
    (other : symbol ≠ starByte) (another : symbol ≠ questionByte) :
    SpellsBytes (symbol :: behind) (byte :: rest) ↔ symbol = byte ∧ SpellsBytes behind rest := by
  rw [SpellsBytes, List.map_cons, byteSymbol_literal other another, matches_literal_iff]
  constructor
  · rintro ⟨remaining, same, matched⟩
    obtain ⟨rfl, rfl⟩ := List.cons.inj same
    exact ⟨rfl, matched⟩
  · rintro ⟨rfl, matched⟩
    exact ⟨rest, rfl, matched⟩

private theorem not_spells {behind rest : List UInt8} {symbol byte : UInt8}
    (missed : ¬(symbol = questionByte ∨ symbol = byte)) (unstarred : symbol ≠ starByte) :
    ¬SpellsBytes (symbol :: behind) (byte :: rest) := by
  rw [spells_literal unstarred fun question => missed (.inl question)]
  exact fun matched => missed (.inr matched.1)

private theorem not_spells_more {rest : List UInt8} {byte : UInt8} :
    ¬SpellsBytes [] (byte :: rest) := by
  simp [SpellsBytes]

private theorem spells_empty {pattern : List UInt8} :
    SpellsBytes pattern [] ↔ (pattern.dropWhile (· == starByte)).isEmpty = true := by
  rw [SpellsBytes, matches_empty_iff character_nonempty, List.isEmpty_iff,
    List.dropWhile_eq_nil_iff]
  simp [byteSymbol_eq_many_iff]

/-! ## The loop -/

/-- No star faces a star, and no question mark a byte of a character of several bytes. -/
def Cursor.Plain (cursor : Cursor) : Prop :=
  ∀ symbol behind byte rest, cursor.pattern = symbol :: behind → cursor.text = byte :: rest →
    ¬(symbol = starByte ∧ byte = starByte) ∧ ¬(symbol = questionByte ∧ 128 ≤ byte.toNat)

def Cursor.Standing (cursor : Cursor) : Prop :=
  ∀ behind, cursor.star = some behind → ∃ front before, behind = front ++ cursor.pattern ∧
    cursor.mark = before ++ cursor.text ∧ starByte ∉ front ∧ front.length = before.length

/-- What the loop has still to find: a match from here, or one further on for the last star. -/
def Cursor.Open (cursor : Cursor) : Prop :=
  SpellsBytes cursor.pattern cursor.text ∨ ∃ behind, cursor.star = some behind ∧
    Matches IsCharacter (.many :: behind.map byteSymbol) cursor.mark.tail

/-- The loop passes through this state. -/
def Cursor.Visits : Cursor → Cursor → Prop :=
  Relation.ReflTransGen fun cursor next => cursor.turn = .inl next

private theorem many_step {pattern : List (Symbol UInt8)} {text : List UInt8} :
    Matches IsCharacter (.many :: pattern) text ↔
      Matches IsCharacter pattern text ∨ Matches IsCharacter (.many :: pattern) text.tail := by
  cases text with
  | nil =>
      simp only [List.tail_nil, matches_many_iff, List.suffix_nil, exists_eq_left, or_self]
  | cons value text => exact matches_many_cons

private theorem Cursor.Standing.exchange {cursor : Cursor} (standing : cursor.Standing)
    {behind pattern : List UInt8} (found : cursor.star = some behind)
    (here : cursor.pattern = starByte :: pattern)
    (matched : Matches IsCharacter (.many :: behind.map byteSymbol) cursor.mark.tail) :
    SpellsBytes cursor.pattern cursor.text := by
  obtain ⟨front, before, rfl, marked, starless, read⟩ := standing behind found
  obtain ⟨later, within, matched⟩ := matches_many_iff.mp matched
  rw [here, List.map_append, List.map_cons, byteSymbol_star] at matched
  rw [SpellsBytes, here, List.map_cons, byteSymbol_star]
  have after : later <:+ before ++ cursor.text := marked ▸ within.trans (List.tail_suffix _)
  exact matched.exchange character_nonempty (narrow_of_starless starless)
    (by rw [List.length_map, read]) after

/-- With no text left, what the last star could take further on leaves nothing either. -/
private theorem Cursor.Standing.exhausted {cursor : Cursor} (standing : cursor.Standing)
    {behind : List UInt8} (found : cursor.star = some behind) (done : cursor.text = [])
    (matched : Matches IsCharacter (.many :: behind.map byteSymbol) cursor.mark.tail) :
    SpellsBytes cursor.pattern [] := by
  obtain ⟨front, before, rfl, marked, starless, read⟩ := standing behind found
  obtain ⟨later, within, matched⟩ := matches_many_iff.mp matched
  rw [List.map_append] at matched
  obtain ⟨taken, rest, rfl, frontMatched, matched⟩ := matched.split
  have long := frontMatched.length_le character_nonempty (narrow_of_starless starless)
  have short := (within.trans (List.tail_suffix _)).length_le
  rw [marked, done, List.append_nil] at short
  rw [List.length_map] at long
  rw [List.length_append] at short
  have nothing : rest = [] := List.eq_nil_of_length_eq_zero (by omega)
  rw [nothing] at matched
  exact matched

theorem Cursor.backtrack_open {cursor next : Cursor} (turned : cursor.backtrack = .inl next) :
    next.Standing ∧ (next.Open ↔ ∃ behind, cursor.star = some behind ∧
      Matches IsCharacter (.many :: behind.map byteSymbol) cursor.mark.tail) := by
  rw [backtrack] at turned
  cases found : cursor.star with
  | none =>
      rw [found] at turned
      cases turned
  | some behind =>
      rw [found] at turned
      cases turned
      constructor
      · intro other same
        cases same
        exact ⟨[], [], rfl, rfl, List.not_mem_nil, rfl⟩
      · simp only [Open, Option.some.injEq, exists_eq_left', SpellsBytes]
        exact many_step.symm

/-- One turn keeps what is still to be found. -/
theorem Cursor.turn_open {cursor next : Cursor} (standing : cursor.Standing) (plain : cursor.Plain)
    (turned : cursor.turn = .inl next) : next.Standing ∧ (next.Open ↔ cursor.Open) := by
  obtain ⟨pattern, text, star, mark, ahead⟩ := cursor
  cases text with
  | nil => cases turned
  | cons byte rest =>
      cases pattern with
      | nil =>
          obtain ⟨stands, same⟩ := backtrack_open turned
          refine ⟨stands, same.trans ?_⟩
          simp only [Open, not_spells_more, false_or]
      | cons symbol behind =>
          obtain ⟨starless, ascii⟩ := plain symbol behind byte rest rfl rfl
          simp only [turn] at turned
          split at turned
          · next reads =>
              cases turned
              have literal : symbol ≠ starByte := by
                rintro rfl
                rcases reads with question | same
                · cases question
                · exact starless ⟨rfl, same.symm⟩
              constructor
              · intro other found
                obtain ⟨front, before, rfl, marked, without, read⟩ := standing other found
                refine ⟨front ++ [symbol], before ++ [byte], by simp, by simpa using marked, ?_,
                  by simp [read]⟩
                simp [without, literal.symm]
              · have same : SpellsBytes (symbol :: behind) (byte :: rest) ↔
                    SpellsBytes behind rest := by
                  by_cases question : symbol = questionByte
                  · subst question
                    exact spells_question (by simpa using ascii)
                  · rw [spells_literal literal question]
                    exact and_iff_right (reads.resolve_left question)
                simp only [Open, same]
          · next missed =>
              split at turned
              · next here =>
                  -- The star stands for nothing at first, and goes on from the place it was met at.
                  subst here
                  cases turned
                  constructor
                  · intro other same
                    cases same
                    exact ⟨[], [], rfl, rfl, List.not_mem_nil, rfl⟩
                  · have wide : SpellsBytes (starByte :: behind) (byte :: rest) ↔
                        SpellsBytes behind (byte :: rest) ∨
                          Matches IsCharacter (.many :: behind.map byteSymbol) rest :=
                      matches_many_cons
                    simp only [Open, Option.some.injEq, exists_eq_left', List.tail_cons]
                    rw [← wide]
                    constructor
                    · exact .inl
                    · rintro (matched | ⟨earlier, found, matched⟩)
                      · exact matched
                      · exact standing.exchange found rfl matched
              · next unstarred =>
                  obtain ⟨stands, same⟩ := backtrack_open turned
                  refine ⟨stands, same.trans ?_⟩
                  simp only [Open, not_spells missed unstarred, false_or]

private theorem Cursor.backtrack_answer {cursor : Cursor} {answer : Bool}
    (turned : cursor.backtrack = .inr answer) : answer = false ∧ cursor.star = none := by
  rw [backtrack] at turned
  cases found : cursor.star with
  | none =>
      rw [found] at turned
      cases turned
      exact ⟨rfl, rfl⟩
  | some behind =>
      rw [found] at turned
      cases turned

/-- The answer of the loop is whether there was still something to be found. -/
theorem Cursor.answer_open {cursor : Cursor} {answer : Bool} (standing : cursor.Standing)
    (turned : cursor.turn = .inr answer) : answer = true ↔ cursor.Open := by
  obtain ⟨pattern, text, star, mark, ahead⟩ := cursor
  cases text with
  | nil =>
      cases turned
      rw [← spells_empty]
      constructor
      · exact .inl
      · rintro (matched | ⟨behind, found, matched⟩)
        · exact matched
        · exact standing.exhausted found rfl matched
  | cons byte rest =>
      cases pattern with
      | nil =>
          obtain ⟨rfl, starless⟩ := backtrack_answer turned
          simp only at starless
          simp [Open, not_spells_more, starless]
      | cons symbol behind =>
          simp only [turn] at turned
          split at turned
          · cases turned
          · next missed =>
              split at turned
              · cases turned
              · next unstarred =>
                  obtain ⟨rfl, starless⟩ := backtrack_answer turned
                  simp only at starless
                  simp [Open, not_spells missed unstarred, starless]

theorem globLoop_open (cursor : Cursor) (standing : cursor.Standing)
    (plain : ∀ visited, cursor.Visits visited → visited.Plain) :
    globLoop cursor = true ↔ cursor.Open := by
  induction cursor using globLoop.induct with
  | case1 cursor next turned ih =>
      obtain ⟨nextStanding, same⟩ := Cursor.turn_open standing (plain cursor .refl) turned
      rw [globLoop_next turned, ← same]
      exact ih nextStanding fun visited visits => plain visited (.head turned visits)
  | case2 cursor answer turned =>
      rw [globLoop_answer turned]
      exact Cursor.answer_open standing turned

/-! ## Characters -/

/-- What a character of the pattern may stand for, but a star. -/
def StandsFor (character other : Char) : Prop := character = '?' ∨ character = other

/-- The bytes of a character that is no wildcard stand for themselves. -/
private theorem symbols_literal {character : Char} (unstarred : character ≠ '*')
    (other : character ≠ '?') :
    (String.utf8EncodeChar character).map byteSymbol =
      (String.utf8EncodeChar character).map .literal := by
  refine List.map_congr_left fun byte member => byteSymbol_literal ?_ ?_
  · rintro rfl
    exact unstarred (Char.toNat_inj.mp (Json.utf8EncodeChar_ascii (by decide) member))
  · rintro rfl
    exact other (Char.toNat_inj.mp (Json.utf8EncodeChar_ascii (by decide) member))

private theorem spellsBytes_cons_iff {character : Char} {pattern : List Char} {part : List UInt8}
    (unstarred : character ≠ '*') :
    SpellsBytes (utf8 (character :: pattern)) part ↔
      ∃ other rest, part = String.utf8EncodeChar other ++ rest ∧ StandsFor character other ∧
        SpellsBytes (utf8 pattern) rest := by
  by_cases question : character = '?'
  · subst question
    change Matches IsCharacter (.one :: (utf8 pattern).map byteSymbol) part ↔ _
    rw [matches_one_iff]
    constructor
    · rintro ⟨_, rest, rfl, ⟨other, rfl⟩, matched⟩
      exact ⟨other, rest, rfl, .inl rfl, matched⟩
    · rintro ⟨other, rest, rfl, -, matched⟩
      exact ⟨_, rest, rfl, ⟨other, rfl⟩, matched⟩
  · rw [SpellsBytes, utf8, List.flatMap_cons, List.map_append, symbols_literal unstarred question,
      matches_literals_iff]
    constructor
    · rintro ⟨rest, rfl, matched⟩
      exact ⟨character, rest, rfl, .inr rfl, matched⟩
    · rintro ⟨other, rest, rfl, fits, matched⟩
      obtain rfl := fits.resolve_left question
      exact ⟨rest, rfl, matched⟩

private theorem spells_cons_iff {character : Char} {pattern text : List Char}
    (unstarred : character ≠ '*') :
    Spells (character :: pattern) text ↔
      ∃ other rest, text = other :: rest ∧ StandsFor character other ∧ Spells pattern rest := by
  rw [Spells, List.map_cons, symbolOf, if_neg unstarred]
  by_cases question : character = '?'
  · rw [if_pos question, matches_one_iff]
    constructor
    · rintro ⟨_, rest, rfl, ⟨other, rfl⟩, matched⟩
      exact ⟨other, rest, rfl, .inl question, matched⟩
    · rintro ⟨other, rest, rfl, -, matched⟩
      exact ⟨[other], rest, rfl, ⟨other, rfl⟩, matched⟩
  · rw [if_neg question, matches_literal_iff]
    constructor
    · rintro ⟨rest, rfl, matched⟩
      exact ⟨character, rest, rfl, .inr rfl, matched⟩
    · rintro ⟨other, rest, rfl, fits, matched⟩
      obtain rfl := fits.resolve_left question
      exact ⟨rest, rfl, matched⟩

private theorem spellsBytes_star_iff {pattern : List Char} {part : List UInt8} :
    SpellsBytes (utf8 ('*' :: pattern)) part ↔
      ∃ rest, rest <:+ part ∧ SpellsBytes (utf8 pattern) rest := by
  change Matches IsCharacter (.many :: (utf8 pattern).map byteSymbol) part ↔ _
  exact matches_many_iff

private theorem spells_star_iff {pattern text : List Char} :
    Spells ('*' :: pattern) text ↔ ∃ rest, rest <:+ text ∧ Spells pattern rest :=
  matches_many_iff

/-- What a star leaves need not begin at a character, but it does where the next symbol of the
pattern is no star. -/
private theorem spells_of_part {pattern text : List Char} {part : List UInt8}
    (here : ∀ back, back <:+ pattern → ∀ text,
      SpellsBytes (utf8 back) (utf8 text) → Spells back text)
    (behind : part <:+ utf8 text) (matched : SpellsBytes (utf8 pattern) part) :
    Spells ('*' :: pattern) text := by
  induction pattern generalizing part with
  | nil => exact spells_star_iff.mpr ⟨[], List.nil_suffix, .nil⟩
  | cons character pattern ih =>
      by_cases star : character = '*'
      · subst star
        obtain ⟨rest, within, remaining⟩ := spellsBytes_star_iff.mp matched
        have inner := ih (fun back later => here back (later.trans (List.suffix_cons _ _)))
          (within.trans behind) remaining
        exact spells_star_iff.mpr ⟨text, List.suffix_refl _, inner⟩
      · obtain ⟨other, rest, rfl, fits, -⟩ := (spellsBytes_cons_iff star).mp matched
        obtain ⟨first, others, encoded, -⟩ := Utf8.next_utf8EncodeChar other []
        have begins : first.IsUTF8FirstByte := by
          have place : 0 < (String.utf8EncodeChar other).length := by simp [encoded]
          have zero : (String.utf8EncodeChar other)[0] = first := by simp [encoded]
          rw [← zero]
          exact UInt8.isUTF8FirstByte_getElem_utf8EncodeChar.mpr rfl
        rw [encoded, List.cons_append] at matched behind
        obtain ⟨remaining, within, same⟩ := Utf8.exists_suffix_of_firstByte begins behind
        rw [same] at matched
        exact spells_star_iff.mpr ⟨remaining, within, here _ (List.suffix_refl _) remaining matched⟩

private theorem spells_of_utf8 {pattern back : List Char} (later : back <:+ pattern)
    {text : List Char} (matched : SpellsBytes (utf8 back) (utf8 text)) : Spells back text := by
  induction pattern generalizing back text with
  | nil =>
      obtain rfl := List.suffix_nil.mp later
      obtain rfl : text = [] := Json.utf8_injective (matches_nil_iff.mp matched)
      exact .nil
  | cons character pattern ih =>
      rcases List.suffix_cons_iff.mp later with rfl | inner
      · by_cases star : character = '*'
        · subst star
          obtain ⟨rest, within, remaining⟩ := spellsBytes_star_iff.mp matched
          exact spells_of_part (fun back inner text => ih inner) within remaining
        · obtain ⟨other, rest, whole, fits, remaining⟩ := (spellsBytes_cons_iff star).mp matched
          cases text with
          | nil => exact absurd whole (by simp [utf8])
          | cons first text =>
              rw [utf8, List.flatMap_cons] at whole
              obtain ⟨rfl, rfl⟩ := Utf8.utf8EncodeChar_append_inj whole
              exact (spells_cons_iff star).mpr
                ⟨first, text, rfl, fits, ih (List.suffix_refl _) remaining⟩
      · exact ih inner matched

private theorem spellsBytes_of_spells {pattern text : List Char} (matched : Spells pattern text) :
    SpellsBytes (utf8 pattern) (utf8 text) := by
  induction pattern generalizing text with
  | nil =>
      obtain rfl := matches_nil_iff.mp matched
      exact .nil
  | cons character pattern ih =>
      by_cases star : character = '*'
      · subst star
        obtain ⟨rest, ⟨part, rfl⟩, remaining⟩ := spells_star_iff.mp matched
        refine spellsBytes_star_iff.mpr ⟨utf8 rest, ?_, ih remaining⟩
        rw [Json.utf8_append]
        exact List.suffix_append _ _
      · obtain ⟨other, rest, rfl, fits, remaining⟩ := (spells_cons_iff star).mp matched
        exact (spellsBytes_cons_iff star).mpr ⟨other, utf8 rest, rfl, fits, ih remaining⟩

/-- Over the bytes, where a piece is a character, the wildcards stand for what they stand for over
the characters. -/
theorem spellsBytes_utf8 (pattern text : List Char) :
    SpellsBytes (utf8 pattern) (utf8 text) ↔ Spells pattern text :=
  ⟨spells_of_utf8 (List.suffix_refl _), spellsBytes_of_spells⟩

/-! ## When the answer is right -/

def Exact (pattern text : List Char) : Prop := globMatch pattern text = true ↔ Spells pattern text

theorem exact_of_plain {pattern text : List Char}
    (plain : ∀ cursor, (startOf pattern text).Visits cursor → cursor.Plain) :
    Exact pattern text := by
  rw [Exact, globMatch, globLoop_open _ (fun behind found => by cases found) plain,
    ← spellsBytes_utf8]
  simp [Cursor.Open, startOf]

/-- The bytes at a state are those of the pattern and those of the text. -/
def Cursor.Within (patternBytes textBytes : List UInt8) (cursor : Cursor) : Prop :=
  (cursor.pattern ⊆ patternBytes ∧ ∀ behind, cursor.star = some behind → behind ⊆ patternBytes) ∧
    cursor.text ⊆ textBytes ∧ cursor.mark ⊆ textBytes

theorem Cursor.Within.backtrack {patternBytes textBytes : List UInt8} {cursor next : Cursor}
    (within : cursor.Within patternBytes textBytes) (turned : cursor.backtrack = .inl next) :
    next.Within patternBytes textBytes := by
  rw [Cursor.backtrack] at turned
  cases found : cursor.star with
  | none =>
      rw [found] at turned
      cases turned
  | some behind =>
      rw [found] at turned
      cases turned
      have inside := within.1.2 behind found
      have marked := List.Subset.trans (List.tail_subset _) within.2.2
      exact ⟨⟨inside, fun other same => Option.some.inj same ▸ inside⟩, marked, marked⟩

theorem Cursor.Within.turn {patternBytes textBytes : List UInt8} {cursor next : Cursor}
    (within : cursor.Within patternBytes textBytes) (turned : cursor.turn = .inl next) :
    next.Within patternBytes textBytes := by
  obtain ⟨pattern, text, star, mark, ahead⟩ := cursor
  cases text with
  | nil => cases turned
  | cons byte rest =>
      cases pattern with
      | nil => exact within.backtrack turned
      | cons symbol behind =>
          have inside := List.Subset.trans (List.subset_cons_self symbol behind) within.1.1
          simp only [Cursor.turn] at turned
          split at turned
          · cases turned
            exact ⟨⟨inside, within.1.2⟩,
              List.Subset.trans (List.subset_cons_self byte rest) within.2.1, within.2.2⟩
          · split at turned
            · cases turned
              exact ⟨⟨inside, fun other same => Option.some.inj same ▸ inside⟩, within.2.1,
                within.2.1⟩
            · exact within.backtrack turned

theorem Cursor.Within.visits {patternBytes textBytes : List UInt8} {cursor visited : Cursor}
    (within : cursor.Within patternBytes textBytes) (visits : cursor.Visits visited) :
    visited.Within patternBytes textBytes := by
  induction visits with
  | refl => exact within
  | tail _ turned ih => exact ih.turn turned

theorem within_startOf (pattern text : List Char) :
    (startOf pattern text).Within (utf8 pattern) (utf8 text) :=
  ⟨⟨List.Subset.refl _, fun _ found => by cases found⟩, List.Subset.refl _, List.Subset.refl _⟩

private theorem mem_utf8_ascii {text : List Char} {byte : UInt8} {character : Char}
    (ascii : byte.toNat < 128) (same : character.toNat = byte.toNat) (member : byte ∈ utf8 text) :
    character ∈ text := by
  obtain ⟨other, present, inside⟩ := List.mem_flatMap.mp member
  rw [Char.toNat_inj.mp (same.trans (Json.utf8EncodeChar_ascii ascii inside).symm)]
  exact present

theorem plain_of_wildless {pattern text : List Char} (starless : '*' ∉ pattern)
    (unasked : '?' ∉ pattern) (cursor : Cursor) (visits : (startOf pattern text).Visits cursor) :
    cursor.Plain := by
  intro symbol behind byte rest patternHere textHere
  have inside := ((within_startOf pattern text).visits visits).1.1
  rw [patternHere] at inside
  have member := inside List.mem_cons_self
  constructor
  · rintro ⟨rfl, -⟩
    exact starless (mem_utf8_ascii (by decide) (by decide) member)
  · rintro ⟨rfl, -⟩
    exact unasked (mem_utf8_ascii (by decide) (by decide) member)

theorem plain_of_ascii {pattern text : List Char} (starless : '*' ∉ text)
    (ascii : ∀ character ∈ text, character.toNat < 128) (cursor : Cursor)
    (visits : (startOf pattern text).Visits cursor) : cursor.Plain := by
  intro symbol behind byte rest patternHere textHere
  have inside := ((within_startOf pattern text).visits visits).2.1
  rw [textHere] at inside
  have member := inside List.mem_cons_self
  constructor
  · rintro ⟨-, rfl⟩
    exact starless (mem_utf8_ascii (by decide) (by decide) member)
  · rintro ⟨-, large⟩
    obtain ⟨character, present, encoded⟩ := List.mem_flatMap.mp member
    have small : character.val.toNat < 128 := ascii character present
    rw [String.utf8EncodeChar, if_pos (by omega), List.mem_singleton] at encoded
    rw [encoded, UInt8.toNat_ofNat', Nat.mod_eq_of_lt (by omega)] at large
    omega

/-! ## Where the answer is wrong -/

/-- Without a star, a pattern takes as many bytes as it has. -/
private theorem length_of_globLoop {pattern text : List UInt8} {mark : List UInt8}
    (ahead : text.length ≤ mark.length) (starless : starByte ∉ pattern)
    (found : globLoop ⟨pattern, text, none, mark, ahead⟩ = true) :
    pattern.length = text.length := by
  induction pattern generalizing text with
  | nil =>
      cases text with
      | nil => rfl
      | cons byte rest =>
          have failed : Cursor.turn ⟨[], byte :: rest, none, mark, ahead⟩ = .inr false := rfl
          rw [globLoop_answer failed] at found
          cases found
  | cons symbol behind ih =>
      have unstarred : symbol ≠ starByte := fun here => starless (here ▸ List.mem_cons_self)
      cases text with
      | nil =>
          rw [globLoop_answer rfl, List.dropWhile_cons_of_neg (by simpa using unstarred)] at found
          cases found
      | cons byte rest =>
          by_cases reads : symbol = questionByte ∨ symbol = byte
          · have advanced : Cursor.turn ⟨symbol :: behind, byte :: rest, none, mark, ahead⟩ =
                .inl ⟨behind, rest, none, mark, Nat.le_of_succ_le ahead⟩ := by
              simp only [Cursor.turn, if_pos reads]
            rw [globLoop_next advanced] at found
            exact congrArg Nat.succ
              (ih _ (fun member => starless (List.mem_cons_of_mem _ member)) found)
          · have failed : Cursor.turn ⟨symbol :: behind, byte :: rest, none, mark, ahead⟩ =
                .inr false := by
              simp only [Cursor.turn, if_neg reads, if_neg unstarred, Cursor.backtrack]
            rw [globLoop_answer failed] at found
            cases found

/-- What stands equally in front of both is read off, stars and all. -/
private theorem globLoop_same (front pattern text : List UInt8) {mark : List UInt8}
    (ahead : (front ++ text).length ≤ mark.length) (rest : text.length ≤ mark.length) :
    globLoop ⟨front ++ pattern, front ++ text, none, mark, ahead⟩ =
      globLoop ⟨pattern, text, none, mark, rest⟩ := by
  induction front with
  | nil => rfl
  | cons byte front ih =>
      refine Eq.trans (globLoop_next ?_) (ih (Nat.le_of_succ_le ahead))
      simp only [Cursor.turn, List.cons_append, or_true, if_true]

private theorem length_of_globMatch {front pattern text : List Char} (starless : '*' ∉ pattern)
    (found : globMatch (front ++ pattern) (front ++ text) = true) :
    (utf8 pattern).length = (utf8 text).length := by
  have ahead : (utf8 front ++ utf8 text).length ≤ (utf8 (front ++ text)).length := by simp
  have rest : (utf8 text).length ≤ (utf8 (front ++ text)).length := by simp
  have begins : startOf (front ++ pattern) (front ++ text) =
      ⟨utf8 front ++ utf8 pattern, utf8 front ++ utf8 text, none, utf8 (front ++ text), ahead⟩ := by
    simp [startOf]
  rw [globMatch, begins, globLoop_same _ _ _ ahead rest] at found
  refine length_of_globLoop rest (fun member => ?_) found
  exact starless (mem_utf8_ascii (by decide) (by decide) member)

/-- A text spells itself, whatever wildcards it contains. -/
private theorem spells_self (text : List Char) : Spells text text := by
  induction text with
  | nil => exact .nil
  | cons character text ih =>
      by_cases star : character = '*'
      · subst star
        exact spells_star_iff.mpr ⟨text, List.suffix_cons _ _, ih⟩
      · exact (spells_cons_iff star).mpr ⟨character, text, rfl, .inr rfl, ih⟩

private theorem spells_append {front pattern before text : List Char}
    (frontSpelled : Spells front before) (spelled : Spells pattern text) :
    Spells (front ++ pattern) (before ++ text) := by
  rw [Spells, List.map_append]
  exact Matches.append frontSpelled spelled

private theorem exists_last {value : Char} {text : List Char} (member : value ∈ text) :
    ∃ front back, text = front ++ value :: back ∧ value ∉ back := by
  obtain ⟨back, front, reversed, absent⟩ := List.eq_append_cons_of_mem (List.mem_reverse.mpr member)
  refine ⟨front.reverse, back.reverse, ?_, by simpa using absent⟩
  rw [← List.reverse_reverse text, reversed]
  simp

/-- Behind an equal front, a pattern and a text of different length are not matched, whatever the
pattern spells. -/
private theorem not_exact (front : List Char) {pattern text : List Char} (starless : '*' ∉ pattern)
    (lengths : utf8Bytes pattern ≠ utf8Bytes text)
    (spelled : Spells (front ++ pattern) (front ++ text)) :
    ¬Exact (front ++ pattern) (front ++ text) := by
  intro exact
  have same := length_of_globMatch starless (exact.mpr spelled)
  rw [Json.length_utf8, Json.length_utf8] at same
  exact lengths same

/-- All stars but the last face themselves, and the last one faces a star with one character more
behind it. -/
theorem exists_text_of_star {pattern : List Char} (star : '*' ∈ pattern) :
    ∃ text, ¬Exact pattern text := by
  obtain ⟨front, back, rfl, starless⟩ := exists_last star
  have spelled : Spells ('*' :: back) ('*' :: 'x' :: back) :=
    spells_star_iff.mpr ⟨back, ⟨['*', 'x'], rfl⟩, spells_self back⟩
  have lengths : utf8Bytes back ≠ utf8Bytes ('x' :: back) := by
    have one : 'x'.utf8Size = 1 := by decide
    rw [utf8Bytes]
    omega
  have wrong := not_exact (front ++ ['*']) starless lengths
    (by simpa using spells_append (spells_self front) spelled)
  exact ⟨_, by simpa using wrong⟩

/-- A question mark faces a character of two bytes. -/
theorem exists_text_of_question {pattern : List Char} (starless : '*' ∉ pattern)
    (question : '?' ∈ pattern) : ∃ text, ¬Exact pattern text := by
  obtain ⟨front, back, rfl⟩ := List.append_of_mem question
  have spelled : Spells ('?' :: back) ('é' :: back) :=
    (spells_cons_iff (by decide)).mpr ⟨'é', back, rfl, .inl rfl, spells_self back⟩
  have lengths : utf8Bytes ('?' :: back) ≠ utf8Bytes ('é' :: back) := by
    have one : '?'.utf8Size = 1 := by decide
    have two : 'é'.utf8Size = 2 := by decide
    rw [utf8Bytes, utf8Bytes]
    omega
  exact ⟨_, not_exact front (fun member => starless (List.mem_append_right _ member)) lengths
    (spells_append (spells_self front) spelled)⟩

theorem exists_pattern_of_star {text : List Char} (star : '*' ∈ text) :
    ∃ pattern, ¬Exact pattern text := by
  obtain ⟨front, back, rfl, starless⟩ := exists_last star
  have spelled : Spells ('*' :: '?' :: back) ('*' :: back) :=
    spells_star_iff.mpr ⟨'*' :: back, List.suffix_refl _,
      (spells_cons_iff (by decide)).mpr ⟨'*', back, rfl, .inl rfl, spells_self back⟩⟩
  have lengths : utf8Bytes ('?' :: back) ≠ utf8Bytes back := by
    have one : '?'.utf8Size = 1 := by decide
    rw [utf8Bytes]
    omega
  have wrong := not_exact (front ++ ['*']) (by simp [starless]) lengths
    (by simpa using spells_append (spells_self front) spelled)
  exact ⟨_, by simpa using wrong⟩

theorem exists_pattern_of_large {text : List Char} (starless : '*' ∉ text) {character : Char}
    (member : character ∈ text) (large : 128 ≤ character.toNat) :
    ∃ pattern, ¬Exact pattern text := by
  obtain ⟨front, back, rfl⟩ := List.append_of_mem member
  have spelled : Spells ('?' :: back) (character :: back) :=
    (spells_cons_iff (by decide)).mpr ⟨character, back, rfl, .inl rfl, spells_self back⟩
  have clear : '*' ∉ '?' :: back := by
    simp only [List.mem_append, List.mem_cons, not_or] at starless ⊢
    exact ⟨by decide, starless.2.2⟩
  have lengths : utf8Bytes ('?' :: back) ≠ utf8Bytes (character :: back) := by
    have one : '?'.utf8Size = 1 := by decide
    have more : character.utf8Size ≠ 1 := by
      rw [Ne, Char.utf8Size_eq_one_iff]
      intro small
      have least : character.toNat ≤ 127 := small
      omega
    rw [utf8Bytes, utf8Bytes]
    omega
  exact ⟨_, not_exact front clear lengths (spells_append (spells_self front) spelled)⟩

theorem spells_wildless_iff {pattern : List Char} (starless : '*' ∉ pattern)
    (unasked : '?' ∉ pattern) (text : List Char) : Spells pattern text ↔ text = pattern := by
  induction pattern generalizing text with
  | nil => exact matches_nil_iff
  | cons character pattern ih =>
      simp only [List.mem_cons, not_or] at starless unasked
      rw [spells_cons_iff (Ne.symm starless.1)]
      simp only [ih starless.2 unasked.2]
      constructor
      · rintro ⟨other, rest, rfl, fits, rfl⟩
        rw [fits.resolve_left (Ne.symm unasked.1)]
      · rintro rfl
        exact ⟨character, pattern, rfl, .inr rfl, rfl⟩

/-- A rule without wildcards names its path, and where it is not anchored each path that ends in
its name. -/
theorem GitIgnoreRule.matchesPath_wildless {rule : GitIgnoreRule} (starless : '*' ∉ rule.pattern)
    (unasked : '?' ∉ rule.pattern) (relPath : List Char) (isDir : Bool) :
    rule.matchesPath relPath isDir = true ↔ (rule.dirOnly = true → isDir = true) ∧
      (relPath = rule.pattern ∨ rule.anchored = false ∧ fileName relPath = rule.pattern) := by
  have named (text : List Char) : globMatch rule.pattern text = true ↔ text = rule.pattern :=
    (exact_of_plain (plain_of_wildless starless unasked)).trans
      (spells_wildless_iff starless unasked text)
  rw [matchesPath]
  split
  · next foreign => simp_all
  · next fits =>
      have wanted : rule.dirOnly = true → isDir = true := by simpa using fits
      rw [and_iff_right wanted]
      split
      · next anchored => simp [named, anchored]
      · next loose => simp [named, loose, or_comm]

/-- The matching of a pattern with a text is right if no wildcard comes to face what it is confused
with. It is right for all texts exactly if the pattern has no wildcards, and for all patterns
exactly if the text is ASCII without a star. -/
theorem globMatch_exact (pattern text : List Char) :
    ((∀ cursor, (startOf pattern text).Visits cursor → cursor.Plain) →
      (globMatch pattern text = true ↔ Spells pattern text)) ∧
    ((∀ text, globMatch pattern text = true ↔ Spells pattern text) ↔
      '*' ∉ pattern ∧ '?' ∉ pattern) ∧
    ((∀ pattern, globMatch pattern text = true ↔ Spells pattern text) ↔
      '*' ∉ text ∧ ∀ character ∈ text, character.toNat < 128) := by
  refine ⟨fun plain => exact_of_plain plain, ?_, ?_⟩
  · constructor
    · intro exact
      have starless : '*' ∉ pattern := by
        intro star
        obtain ⟨text, wrong⟩ := exists_text_of_star star
        exact wrong (exact text)
      refine ⟨starless, fun question => ?_⟩
      obtain ⟨text, wrong⟩ := exists_text_of_question starless question
      exact wrong (exact text)
    · rintro ⟨starless, unasked⟩
      exact fun text => exact_of_plain (plain_of_wildless starless unasked)
  · constructor
    · intro exact
      have starless : '*' ∉ text := by
        intro star
        obtain ⟨pattern, wrong⟩ := exists_pattern_of_star star
        exact wrong (exact pattern)
      refine ⟨starless, fun character member => Nat.lt_of_not_ge fun large => ?_⟩
      obtain ⟨pattern, wrong⟩ := exists_pattern_of_large starless member large
      exact wrong (exact pattern)
    · rintro ⟨starless, ascii⟩
      exact fun pattern => exact_of_plain (plain_of_ascii starless ascii)

theorem globMatch_exact_sources :
    globMatch "src/*.r?".toList "src/lib.rs".toList = true ↔
      Spells "src/*.r?".toList "src/lib.rs".toList := by
  have ascii : ("src/lib.rs".toList.all fun character => character.toNat < 128) = true := by decide
  simp only [List.all_eq_true, decide_eq_true_iff] at ascii
  exact (globMatch_exact _ _).1 (plain_of_ascii (by decide) ascii)

/-- A star of the pattern that faces a star of the text is taken for that star only. -/
theorem star_text_unmatched :
    ¬(globMatch "*".toList "*a".toList = true ↔ Spells "*".toList "*a".toList) := by
  have spelled : Spells "*".toList "*a".toList :=
    spells_star_iff.mpr ⟨[], List.nil_suffix, .nil⟩
  have unmatched : globMatch "*".toList "*a".toList = false := by
    rw [globMatch, globLoop_next rfl, globLoop_answer rfl]
  intro exact
  rw [unmatched] at exact
  cases exact.mpr spelled

end Kvist.Discovery
