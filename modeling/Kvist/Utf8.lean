import Mathlib.Data.List.Basic
import Mathlib.Tactic.SplitIfs
import Kvist.Json.Bytes

/-!
# Text from bytes

Bytes need not be UTF-8. A strict reader refuses them then, and a lossy one puts a replacement
character in the place of each part that is no character. What is UTF-8 both read back.
-/

set_option autoImplicit false

namespace Kvist.Utf8

open Json (utf8)

/-- The bytes of a character that begins with this byte, or zero where no character does. -/
def width (first : Nat) : Nat :=
  if first < 0x80 then 1
  else if 0xc2 ≤ first ∧ first ≤ 0xdf then 2
  else if 0xe0 ≤ first ∧ first ≤ 0xef then 3
  else if 0xf0 ≤ first ∧ first ≤ 0xf4 then 4
  else 0

def isContinuation (byte : Nat) : Bool := 0x80 ≤ byte && byte ≤ 0xbf

/-- Overlong forms, surrogates and what is above the last character are excluded here. -/
def secondFits (first second : Nat) : Bool :=
  (if first = 0xe0 then 0xa0 else if first = 0xf0 then 0x90 else 0x80) ≤ second &&
    second ≤ (if first = 0xed then 0x9f else if first = 0xf4 then 0x8f else 0xbf)

/-- The bits of the first byte that belong to the character. -/
def leading (first : Nat) : Nat :=
  if width first = 2 then first - 0xc0
  else if width first = 3 then first - 0xe0
  else first - 0xf0

def continued : Nat → Nat → List UInt8 → Option Char × List UInt8
  | 0, code, rest => (some (Char.ofNat code), rest)
  | _ + 1, _, [] => (none, [])
  | count + 1, code, byte :: rest =>
      if isContinuation byte.toNat then continued count (code * 64 + (byte.toNat - 0x80)) rest
      else (none, byte :: rest)

/-- One character and what follows it. Without a character, the longest part that could begin one
is left out. -/
def next (first : UInt8) (rest : List UInt8) : Option Char × List UInt8 :=
  if width first.toNat = 0 then (none, rest)
  else if width first.toNat = 1 then (some (Char.ofNat first.toNat), rest)
  else if rest.head?.any fun second => secondFits first.toNat second.toNat then
    continued (width first.toNat - 1) (leading first.toNat) rest
  else (none, rest)

def pieces : Nat → List UInt8 → List (Option Char)
  | 0, _ => []
  | _ + 1, [] => []
  | fuel + 1, first :: rest => (next first rest).1 :: pieces fuel (next first rest).2

def fromUtf8 (bytes : List UInt8) : Option (List Char) :=
  (pieces bytes.length bytes).mapM id

def fromUtf8Lossy (bytes : List UInt8) : List Char :=
  (pieces bytes.length bytes).map fun piece => piece.getD '\uFFFD'

/-- The characters at the front that the number of bytes holds, whole ones only. -/
def takeBytes : Nat → List Char → List Char
  | _, [] => []
  | limit, character :: rest =>
      if character.utf8Size ≤ limit then
        character :: takeBytes (limit - character.utf8Size) rest
      else []

/-! ## UTF-8 is read back -/

private theorem toNat_ofNat_small {value : Nat} (small : value < 256) :
    (UInt8.ofNat value).toNat = value := by
  rw [UInt8.toNat_ofNat', Nat.mod_eq_of_lt small]

private theorem continued_byte {count code bits : Nat} {rest : List UInt8} (small : bits < 64) :
    continued (count + 1) code (UInt8.ofNat (bits + 0x80) :: rest) =
      continued count (code * 64 + bits) rest := by
  have fits : isContinuation (bits + 0x80) = true := by
    simp only [isContinuation, Bool.and_eq_true, decide_eq_true_eq]
    omega
  rw [continued, toNat_ofNat_small (by omega), if_pos fits, Nat.add_sub_cancel]

private theorem next_wide {first second : Nat} {rest : List UInt8} {count : Nat}
    (firstSmall : first < 256) (secondSmall : second < 256) (wide : width first = count + 2)
    (fits : secondFits first second = true) :
    next (UInt8.ofNat first) (UInt8.ofNat second :: rest) =
      continued (count + 1) (leading first) (UInt8.ofNat second :: rest) := by
  have head : (List.head? (UInt8.ofNat second :: rest)).any
      (fun second => secondFits first second.toNat) = true := by
    rw [List.head?_cons, Option.any_some, toNat_ofNat_small secondSmall]
    exact fits
  rw [next, toNat_ofNat_small firstSmall, if_neg (by omega), if_neg (by omega), if_pos head, wide]
  rfl

private theorem width_two {bits : Nat} (low : 2 ≤ bits) (high : bits < 32) :
    width (bits + 0xc0) = 2 := by
  rw [width, if_neg (by omega), if_pos (by omega)]

private theorem width_three {bits : Nat} (high : bits < 16) : width (bits + 0xe0) = 3 := by
  rw [width, if_neg (by omega), if_neg (by omega), if_pos (by omega)]

private theorem width_four {bits : Nat} (high : bits < 5) : width (bits + 0xf0) = 4 := by
  rw [width, if_neg (by omega), if_neg (by omega), if_neg (by omega), if_pos (by omega)]

theorem next_utf8EncodeChar (character : Char) (rest : List UInt8) :
    ∃ first others, String.utf8EncodeChar character = first :: others ∧
      next first (others ++ rest) = (some character, rest) := by
  have valid : character.toNat < 0xd800 ∨ 0xdfff < character.toNat ∧ character.toNat < 0x110000 :=
    character.valid
  have same : Char.ofNat character.toNat = character := Char.ofNat_toNat character
  have value : character.val.toNat = character.toNat := rfl
  simp only [String.utf8EncodeChar]
  rw [value]
  generalize character.toNat = code at valid same
  by_cases one : code ≤ 0x7f
  · rw [if_pos one]
    refine ⟨_, _, rfl, ?_⟩
    have wide : width code = 1 := by rw [width, if_pos (by omega)]
    rw [next, toNat_ofNat_small (by omega), if_neg (by omega), if_pos wide, same]
    rfl
  · rw [if_neg one]
    by_cases two : code ≤ 0x7ff
    · rw [if_pos two]
      refine ⟨_, _, rfl, ?_⟩
      have wide : width (code / 64 % 32 + 0xc0) = 2 := width_two (by omega) (by omega)
      have fits : secondFits (code / 64 % 32 + 0xc0) (code % 64 + 0x80) = true := by
        rw [secondFits, if_neg (by omega), if_neg (by omega), if_neg (by omega), if_neg (by omega)]
        simp only [Bool.and_eq_true, decide_eq_true_eq]
        omega
      have bits : leading (code / 64 % 32 + 0xc0) = code / 64 % 32 := by
        rw [leading, if_pos wide, Nat.add_sub_cancel]
      simp only [List.cons_append, List.nil_append]
      rw [next_wide (by omega) (by omega) wide fits, bits, continued_byte (by omega), continued,
        show code / 64 % 32 * 64 + code % 64 = code by omega, same]
    · rw [if_neg two]
      by_cases three : code ≤ 0xffff
      · rw [if_pos three]
        refine ⟨_, _, rfl, ?_⟩
        have wide : width (code / 4096 % 16 + 0xe0) = 3 := width_three (by omega)
        have fits : secondFits (code / 4096 % 16 + 0xe0) (code / 64 % 64 + 0x80) = true := by
          simp only [secondFits, Bool.and_eq_true, decide_eq_true_eq]
          constructor
          · split
            · omega
            · rw [if_neg (by omega)]
              omega
          · split
            · omega
            · rw [if_neg (by omega)]
              omega
        have bits : leading (code / 4096 % 16 + 0xe0) = code / 4096 % 16 := by
          rw [leading, if_neg (by omega), if_pos wide, Nat.add_sub_cancel]
        simp only [List.cons_append, List.nil_append]
        rw [next_wide (by omega) (by omega) wide fits, bits, continued_byte (by omega),
          continued_byte (by omega), continued,
          show (code / 4096 % 16 * 64 + code / 64 % 64) * 64 + code % 64 = code by omega, same]
      · rw [if_neg three]
        refine ⟨_, _, rfl, ?_⟩
        have wide : width (code / 262144 % 8 + 0xf0) = 4 := width_four (by omega)
        have fits : secondFits (code / 262144 % 8 + 0xf0) (code / 4096 % 64 + 0x80) = true := by
          simp only [secondFits, Bool.and_eq_true, decide_eq_true_eq]
          constructor
          · rw [if_neg (by omega)]
            split <;> omega
          · rw [if_neg (by omega)]
            split <;> omega
        have bits : leading (code / 262144 % 8 + 0xf0) = code / 262144 % 8 := by
          rw [leading, if_neg (by omega), if_neg (by omega), Nat.add_sub_cancel]
        simp only [List.cons_append, List.nil_append]
        rw [next_wide (by omega) (by omega) wide fits, bits, continued_byte (by omega),
          continued_byte (by omega), continued_byte (by omega), continued,
          show ((code / 262144 % 8 * 64 + code / 4096 % 64) * 64 + code / 64 % 64) * 64 +
            code % 64 = code by omega, same]

theorem pieces_utf8 {text : List Char} {fuel : Nat} (enough : (utf8 text).length ≤ fuel) :
    pieces fuel (utf8 text) = text.map some := by
  induction text generalizing fuel with
  | nil => cases fuel <;> rfl
  | cons character rest ih =>
      obtain ⟨first, others, encoded, read⟩ := next_utf8EncodeChar character (utf8 rest)
      have whole : utf8 (character :: rest) = first :: (others ++ utf8 rest) := by
        rw [utf8, List.flatMap_cons, encoded]
        rfl
      rw [whole] at enough ⊢
      cases fuel with
      | zero => cases enough
      | succ fuel =>
          have shorter : (utf8 rest).length ≤ fuel := by
            simp only [List.length_cons, List.length_append] at enough
            omega
          rw [pieces, read, ih shorter, List.map_cons]

theorem fromUtf8Lossy_utf8 (text : List Char) : fromUtf8Lossy (utf8 text) = text := by
  rw [fromUtf8Lossy, pieces_utf8 (Nat.le_refl _), List.map_map]
  exact List.map_id' text

/-- What the lossy reader writes back is what it read, exactly if that is UTF-8. -/
theorem utf8_fromUtf8Lossy_iff (bytes : List UInt8) :
    utf8 (fromUtf8Lossy bytes) = bytes ↔ ∃ text, utf8 text = bytes := by
  constructor
  · exact fun same => ⟨_, same⟩
  · intro valid
    obtain ⟨text, rfl⟩ := valid
    rw [fromUtf8Lossy_utf8]

example : fromUtf8Lossy [0x61, 0xff, 0xe2, 0x82, 0x62] = ['a', '\uFFFD', '\uFFFD', 'b'] := by
  decide

/-! ## What is read strictly was UTF-8 -/

private theorem continued_some {count code : Nat} {bytes others : List UInt8} {character : Char}
    (read : continued (count + 1) code bytes = (some character, others)) :
    ∃ byte rest, bytes = byte :: rest ∧ 0x80 ≤ byte.toNat ∧ byte.toNat ≤ 0xbf ∧
      continued count (code * 64 + (byte.toNat - 0x80)) rest = (some character, others) := by
  cases bytes with
  | nil => cases read
  | cons byte rest =>
    rw [continued] at read
    split at read
    · rename_i continuation
      rw [isContinuation, Bool.and_eq_true, decide_eq_true_eq, decide_eq_true_eq] at continuation
      exact ⟨byte, rest, rfl, continuation.1, continuation.2, read⟩
    · cases read

private theorem continued_zero {code : Nat} {bytes others : List UInt8} {character : Char}
    (read : continued 0 code bytes = (some character, others)) :
    Char.ofNat code = character ∧ bytes = others := by
  rw [continued, Prod.mk.injEq, Option.some.injEq] at read
  exact read

private theorem ofNat_toNat (code : Nat)
    (valid : code < 0xd800 ∨ 0xdfff < code ∧ code < 0x110000) :
    (Char.ofNat code).val.toNat = code := by
  have isValid : code.isValidChar := valid
  rw [Char.ofNat, dif_pos isValid]
  rfl

private theorem byte_eq (byte : UInt8) {value : Nat} (same : byte.toNat = value) :
    UInt8.ofNat value = byte := by
  rw [← same]
  exact UInt8.ofNat_toNat

private theorem encode_one {first : UInt8} (low : first.toNat < 0x80) :
    String.utf8EncodeChar (Char.ofNat first.toNat) = [first] := by
  have code := ofNat_toNat first.toNat (by omega)
  simp only [String.utf8EncodeChar]
  rw [code, if_pos (by omega), byte_eq first rfl]

private theorem encode_two {first second : UInt8} (firstLow : 0xc2 ≤ first.toNat)
    (firstHigh : first.toNat ≤ 0xdf) (low : 0x80 ≤ second.toNat) (high : second.toNat ≤ 0xbf) :
    String.utf8EncodeChar (Char.ofNat ((first.toNat - 0xc0) * 64 + (second.toNat - 0x80))) =
      [first, second] := by
  have code := ofNat_toNat ((first.toNat - 0xc0) * 64 + (second.toNat - 0x80)) (by omega)
  simp only [String.utf8EncodeChar]
  rw [code, if_neg (by omega), if_pos (by omega), byte_eq first (by omega),
    byte_eq second (by omega)]

private theorem encode_three {first second third : UInt8} (firstLow : 0xe0 ≤ first.toNat)
    (firstHigh : first.toNat ≤ 0xef) (fits : secondFits first.toNat second.toNat = true)
    (low : 0x80 ≤ third.toNat) (high : third.toNat ≤ 0xbf) :
    String.utf8EncodeChar (Char.ofNat
        (((first.toNat - 0xe0) * 64 + (second.toNat - 0x80)) * 64 + (third.toNat - 0x80))) =
      [first, second, third] := by
  rw [secondFits, Bool.and_eq_true, decide_eq_true_eq, decide_eq_true_eq] at fits
  have code := ofNat_toNat
    (((first.toNat - 0xe0) * 64 + (second.toNat - 0x80)) * 64 + (third.toNat - 0x80))
    (by split_ifs at fits <;> omega)
  simp only [String.utf8EncodeChar]
  rw [code, if_neg (by split_ifs at fits <;> omega), if_neg (by split_ifs at fits <;> omega),
    if_pos (by split_ifs at fits <;> omega), byte_eq first (by split_ifs at fits <;> omega),
    byte_eq second (by split_ifs at fits <;> omega), byte_eq third (by omega)]

private theorem encode_four {first second third fourth : UInt8} (firstLow : 0xf0 ≤ first.toNat)
    (firstHigh : first.toNat ≤ 0xf4) (fits : secondFits first.toNat second.toNat = true)
    (thirdLow : 0x80 ≤ third.toNat) (thirdHigh : third.toNat ≤ 0xbf)
    (low : 0x80 ≤ fourth.toNat) (high : fourth.toNat ≤ 0xbf) :
    String.utf8EncodeChar (Char.ofNat
        ((((first.toNat - 0xf0) * 64 + (second.toNat - 0x80)) * 64 + (third.toNat - 0x80)) * 64 +
          (fourth.toNat - 0x80))) =
      [first, second, third, fourth] := by
  rw [secondFits, Bool.and_eq_true, decide_eq_true_eq, decide_eq_true_eq] at fits
  have code := ofNat_toNat
    ((((first.toNat - 0xf0) * 64 + (second.toNat - 0x80)) * 64 + (third.toNat - 0x80)) * 64 +
      (fourth.toNat - 0x80)) (by split_ifs at fits <;> omega)
  simp only [String.utf8EncodeChar]
  rw [code, if_neg (by split_ifs at fits <;> omega), if_neg (by split_ifs at fits <;> omega),
    if_neg (by split_ifs at fits <;> omega), byte_eq first (by split_ifs at fits <;> omega),
    byte_eq second (by split_ifs at fits <;> omega), byte_eq third (by omega),
    byte_eq fourth (by omega)]

private theorem width_cases (first : Nat) :
    width first = 0 ∨ (width first = 1 ∧ first < 0x80) ∨
      (width first = 2 ∧ 0xc2 ≤ first ∧ first ≤ 0xdf) ∨
      (width first = 3 ∧ 0xe0 ≤ first ∧ first ≤ 0xef) ∨
      (width first = 4 ∧ 0xf0 ≤ first ∧ first ≤ 0xf4) := by
  rw [width]
  split_ifs <;> omega

theorem next_sound {first : UInt8} {rest others : List UInt8} {character : Char}
    (read : next first rest = (some character, others)) :
    first :: rest = String.utf8EncodeChar character ++ others := by
  rw [next] at read
  rcases width_cases first.toNat with none | ⟨one, low⟩ | more
  · rw [if_pos none] at read
    cases read
  · rw [if_neg (by omega), if_pos one] at read
    cases read
    rw [encode_one low]
    rfl
  · rw [if_neg (by omega), if_neg (by omega)] at read
    split at read
    · rename_i fits
      cases rest with
      | nil => cases fits
      | cons second tail =>
        rw [List.head?_cons, Option.any_some] at fits
        rcases more with ⟨two, low, high⟩ | ⟨three, low, high⟩ | ⟨four, low, high⟩
        · have bits : leading first.toNat = first.toNat - 0xc0 := by rw [leading, if_pos two]
          rw [two, bits] at read
          obtain ⟨_, _, same, byteLow, byteHigh, last⟩ := continued_some read
          obtain ⟨rfl, rfl⟩ := List.cons.inj same
          obtain ⟨rfl, rfl⟩ := continued_zero last
          rw [encode_two low high byteLow byteHigh]
          rfl
        · have bits : leading first.toNat = first.toNat - 0xe0 := by
            rw [leading, if_neg (by omega), if_pos three]
          rw [three, bits] at read
          obtain ⟨_, _, same, _, _, more⟩ := continued_some read
          obtain ⟨rfl, rfl⟩ := List.cons.inj same
          obtain ⟨third, _, rfl, thirdLow, thirdHigh, last⟩ := continued_some more
          obtain ⟨rfl, rfl⟩ := continued_zero last
          rw [encode_three low high fits thirdLow thirdHigh]
          rfl
        · have bits : leading first.toNat = first.toNat - 0xf0 := by
            rw [leading, if_neg (by omega), if_neg (by omega)]
          rw [four, bits] at read
          obtain ⟨_, _, same, _, _, more⟩ := continued_some read
          obtain ⟨rfl, rfl⟩ := List.cons.inj same
          obtain ⟨third, _, rfl, thirdLow, thirdHigh, more⟩ := continued_some more
          obtain ⟨fourth, _, rfl, fourthLow, fourthHigh, last⟩ := continued_some more
          obtain ⟨rfl, rfl⟩ := continued_zero last
          rw [encode_four low high fits thirdLow thirdHigh fourthLow fourthHigh]
          rfl
    · cases read

theorem pieces_sound {text : List Char} {fuel : Nat} {bytes : List UInt8}
    (enough : bytes.length ≤ fuel) (read : pieces fuel bytes = text.map some) :
    utf8 text = bytes := by
  induction text generalizing fuel bytes with
  | nil =>
    cases bytes with
    | nil => rfl
    | cons first rest =>
      cases fuel with
      | zero => cases enough
      | succ fuel => cases read
  | cons character text texts =>
    cases bytes with
    | nil => cases fuel <;> cases read
    | cons first rest =>
      cases fuel with
      | zero => cases enough
      | succ fuel =>
        rw [pieces, List.map_cons, List.cons.injEq] at read
        generalize stepped : next first rest = step at read
        obtain ⟨piece, others⟩ := step
        obtain ⟨rfl, read⟩ := read
        have whole := next_sound stepped
        have shorter : others.length ≤ fuel := by
          have lengths := congrArg List.length whole
          have positive := Char.utf8Size_pos character
          simp only [List.length_cons, List.length_append, String.length_utf8EncodeChar] at lengths
          simp only [List.length_cons] at enough
          omega
        rw [whole, ← texts shorter read]
        rfl

private theorem mapM_id_eq_some {found : List (Option Char)} {text : List Char} :
    found.mapM id = some text ↔ found = text.map some := by
  induction found generalizing text with
  | nil => cases text <;> simp
  | cons piece rest rests =>
    cases piece with
    | none => cases text <;> simp
    | some character =>
      rw [List.mapM_cons]
      cases text with
      | nil => cases rest.mapM id <;> simp
      | cons other others =>
        have tail := @rests others
        cases read : rest.mapM id with
        | none =>
          rw [read] at tail
          simpa using fun _ same => absurd (tail.mpr same) (by simp)
        | some found =>
          rw [read, Option.some.injEq] at tail
          simp [tail]

theorem fromUtf8_eq_some_iff {bytes : List UInt8} {text : List Char} :
    fromUtf8 bytes = some text ↔ utf8 text = bytes := by
  rw [fromUtf8, mapM_id_eq_some]
  constructor
  · exact pieces_sound (Nat.le_refl _)
  · intro same
    rw [← same, pieces_utf8 (Nat.le_refl _)]

/-! ## Places of characters -/

/-- A character is told by the bytes that begin a text. -/
theorem utf8EncodeChar_append_inj {character other : Char} {rest more : List UInt8}
    (same : String.utf8EncodeChar character ++ rest = String.utf8EncodeChar other ++ more) :
    character = other ∧ rest = more := by
  obtain ⟨first, others, encoded, read⟩ := next_utf8EncodeChar character rest
  obtain ⟨otherFirst, otherOthers, otherEncoded, otherRead⟩ := next_utf8EncodeChar other more
  rw [encoded, otherEncoded, List.cons_append, List.cons_append] at same
  obtain ⟨rfl, tails⟩ := List.cons.inj same
  rw [tails, otherRead, Prod.mk.injEq, Option.some.injEq] at read
  exact ⟨read.1.symm, read.2.symm⟩

theorem exists_suffix_of_firstByte {text : List Char} {byte : UInt8} {rest : List UInt8}
    (first : byte.IsUTF8FirstByte) (behind : byte :: rest <:+ utf8 text) :
    ∃ remaining, remaining <:+ text ∧ byte :: rest = utf8 remaining := by
  induction text with
  | nil => exact absurd behind (by simp [utf8])
  | cons character text ih =>
      obtain ⟨before, whole⟩ := behind
      rw [utf8, List.flatMap_cons, ← utf8] at whole
      rcases List.append_eq_append_iff.mp whole with
        ⟨inside, encoded, same⟩ | ⟨inside, same, others⟩
      · cases before with
        | nil =>
            rw [List.nil_append] at encoded whole
            exact ⟨character :: text, List.suffix_refl _, by rw [whole]; rfl⟩
        | cons start before =>
            -- Behind its first byte, a character has no further first byte.
            cases inside with
            | nil =>
                obtain ⟨remaining, within, equal⟩ := ih ⟨[], by simpa using same⟩
                exact ⟨remaining, within.trans (List.suffix_cons _ _), equal⟩
            | cons next inside =>
                obtain ⟨rfl, -⟩ := List.cons.inj same
                have place : before.length + 1 < (String.utf8EncodeChar character).length := by
                  rw [encoded]
                  simp
                have here : (String.utf8EncodeChar character)[before.length + 1] = byte := by
                  simp [encoded]
                have zero := UInt8.isUTF8FirstByte_getElem_utf8EncodeChar.mp (here.symm ▸ first)
                cases zero
      · obtain ⟨remaining, within, equal⟩ := ih ⟨inside, others.symm⟩
        exact ⟨remaining, within.trans (List.suffix_cons _ _), equal⟩

end Kvist.Utf8
