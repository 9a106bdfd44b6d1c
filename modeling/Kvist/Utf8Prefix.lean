import Kvist.Utf8

/-!
# The valid part of bytes

Bytes that are no UTF-8 have a longest part at the front that is. What stands behind it is either the
beginning of a character, or no bytes behind it make it one.
-/

set_option autoImplicit false

namespace Kvist.Utf8

open Json (utf8)

/-- The characters at the front, and what is behind them. -/
def validPart : Nat → List UInt8 → List Char × List UInt8
  | 0, bytes => ([], bytes)
  | _ + 1, [] => ([], [])
  | fuel + 1, first :: rest =>
      match next first rest with
      | (some character, others) =>
          (character :: (validPart fuel others).1, (validPart fuel others).2)
      | (none, _) => ([], first :: rest)

/-- How many bytes are continuations until one is not, if there are fewer than it takes. -/
def brokenAt : Nat → Nat → List UInt8 → Option Nat
  | _, 0, _ => none
  | _, _ + 1, [] => none
  | read, count + 1, byte :: rest =>
      if isContinuation byte.toNat then brokenAt (read + 1) count rest else some read

/-- `Utf8Error::error_len`. There is none where the bytes end too early. -/
def errorLen (first : UInt8) (rest : List UInt8) : Option Nat :=
  if width first.toNat = 0 then some 1
  else
    match rest with
    | [] => none
    | second :: behind =>
        if secondFits first.toNat second.toNat then brokenAt 2 (width first.toNat - 2) behind
        else some 1

structure Utf8Error where
  validUpTo : Nat
  errorLen : Option Nat
  deriving DecidableEq, Repr

/-- `std::str::from_utf8`. -/
def readUtf8 (bytes : List UInt8) : Except Utf8Error (List Char) :=
  match validPart bytes.length bytes with
  | (text, []) => .ok text
  | (text, first :: rest) => .error ⟨(utf8 text).length, errorLen first rest⟩

example : readUtf8 [0x61, 0xe2, 0x82] = .error ⟨1, none⟩ ∧
    readUtf8 [0x61, 0xe2, 0x62, 0x62] = .error ⟨1, some 1⟩ := by decide

/-! ## Where no character begins -/

variable {bytes left : List UInt8} {text other : List Char}

/-- No character begins here. -/
def Stuck (bytes : List UInt8) : Prop :=
  ∀ character rest, bytes ≠ String.utf8EncodeChar character ++ rest

theorem stuck_nil : Stuck [] := by
  intro character rest same
  have lengths := congrArg List.length same
  have positive := Char.utf8Size_pos character
  rw [List.length_append, String.length_utf8EncodeChar, List.length_nil] at lengths
  omega

theorem stuck_cons_iff {first : UInt8} {rest : List UInt8} :
    Stuck (first :: rest) ↔ (next first rest).1 = none := by
  constructor
  · intro stuck
    cases read : next first rest with
    | mk found others =>
        cases found with
        | none => rfl
        | some character => exact absurd (next_sound read) (stuck character others)
  · intro none character behind same
    obtain ⟨start, others, encoded, read⟩ := next_utf8EncodeChar character behind
    rw [encoded, List.cons_append] at same
    obtain ⟨rfl, rfl⟩ := List.cons.inj same
    rw [read] at none
    cases none

theorem utf8_cons (character : Char) (rest : List Char) :
    utf8 (character :: rest) = String.utf8EncodeChar character ++ utf8 rest := List.flatMap_cons

theorem utf8_append (front back : List Char) : utf8 (front ++ back) = utf8 front ++ utf8 back :=
  List.flatMap_append

/-- A text that the bytes begin with is a part of the one in front of where no character begins. -/
theorem prefix_of_stuck (stuck : Stuck left) (begins : utf8 other <+: utf8 text ++ left) :
    other <+: text := by
  induction other generalizing text with
  | nil => exact List.nil_prefix
  | cons character others ih =>
      obtain ⟨behind, whole⟩ := begins
      rw [utf8_cons, List.append_assoc] at whole
      cases text with
      | nil => exact absurd whole.symm (stuck character _)
      | cons first rest =>
          rw [utf8_cons, List.append_assoc] at whole
          obtain ⟨rfl, same⟩ := utf8EncodeChar_append_inj whole
          exact List.cons_prefix_cons.mpr ⟨rfl, ih ⟨behind, same⟩⟩

theorem valid_iff_of_stuck (stuck : Stuck left) :
    (∃ whole, utf8 whole = utf8 text ++ left) ↔ left = [] := by
  constructor
  · rintro ⟨whole, same⟩
    obtain ⟨more, rfl⟩ := prefix_of_stuck stuck ⟨[], (List.append_nil _).trans same⟩
    rw [utf8_append, List.append_assoc, List.self_eq_append_right] at same
    exact (List.append_eq_nil_iff.mp same).2
  · rintro rfl
    exact ⟨text, (List.append_nil _).symm⟩

theorem validPart_spec {fuel : Nat} (enough : bytes.length ≤ fuel) :
    utf8 (validPart fuel bytes).1 ++ (validPart fuel bytes).2 = bytes ∧
      Stuck (validPart fuel bytes).2 := by
  induction fuel generalizing bytes with
  | zero =>
      obtain rfl := List.length_eq_zero_iff.mp (Nat.le_zero.mp enough)
      exact ⟨rfl, stuck_nil⟩
  | succ fuel ih =>
      cases bytes with
      | nil => exact ⟨rfl, stuck_nil⟩
      | cons first rest =>
          rw [validPart]
          cases read : next first rest with
          | mk found others =>
              cases found with
              | none =>
                  refine ⟨rfl, stuck_cons_iff.mpr ?_⟩
                  rw [read]
              | some character =>
                  have whole := next_sound read
                  have shorter : others.length ≤ fuel := by
                    have lengths := congrArg List.length whole
                    have positive := Char.utf8Size_pos character
                    simp only [List.length_cons, List.length_append,
                      String.length_utf8EncodeChar] at lengths enough
                    omega
                  obtain ⟨parts, stuck⟩ := ih shorter
                  refine ⟨?_, stuck⟩
                  dsimp only
                  rw [utf8_cons, List.append_assoc, parts, whole]

/-! ## Where the bytes end too early -/

variable {count code read : Nat} {first : UInt8} {rest : List UInt8}

theorem length_of_brokenAt_none (failed : (continued count code bytes).1 = none)
    (early : brokenAt read count bytes = none) : bytes.length < count := by
  induction count generalizing code read bytes with
  | zero => cases failed
  | succ count ih =>
      cases bytes with
      | nil => exact Nat.succ_pos count
      | cons byte rest =>
          rw [continued] at failed
          rw [brokenAt] at early
          split at failed
          · rename_i continuation
            rw [if_pos continuation] at early
            exact Nat.succ_lt_succ (ih failed early)
          · rename_i other
            rw [if_neg other] at early
            cases early

theorem continued_of_brokenAt {place : Nat} (broken : brokenAt read count bytes = some place)
    (more : List UInt8) : (continued count code (bytes ++ more)).1 = none := by
  induction count generalizing code read bytes with
  | zero => cases bytes <;> cases broken
  | succ count ih =>
      cases bytes with
      | nil => cases broken
      | cons byte rest =>
          rw [brokenAt] at broken
          rw [List.cons_append, continued]
          split at broken
          · rename_i continuation
            rw [if_pos continuation]
            exact ih broken
          · rename_i other
            rw [if_neg other]

theorem isContinuation_of_secondFits {second : UInt8}
    (fits : secondFits first.toNat second.toNat = true) :
    isContinuation second.toNat = true := by
  rw [secondFits, Bool.and_eq_true, decide_eq_true_eq, decide_eq_true_eq] at fits
  rw [isContinuation, Bool.and_eq_true, decide_eq_true_eq, decide_eq_true_eq]
  obtain ⟨low, high⟩ := fits
  constructor
  · split_ifs at low <;> omega
  · split_ifs at high <;> omega

theorem next_second {second : UInt8} {behind : List UInt8} (wide : 2 ≤ width first.toNat)
    (fits : secondFits first.toNat second.toNat = true) :
    next first (second :: behind) = continued (width first.toNat - 2)
      (leading first.toNat * 64 + (second.toNat - 0x80)) behind := by
  obtain ⟨more, count⟩ := Nat.exists_eq_add_of_le wide
  have inner : width first.toNat - 1 = more + 1 := by omega
  rw [next, if_neg (by omega), if_neg (by omega), List.head?_cons, Option.any_some, if_pos fits,
    inner, continued, if_pos (isContinuation_of_secondFits fits), count, Nat.add_sub_cancel_left]

theorem width_le (first : Nat) : width first ≤ 4 := by
  rw [width]
  split_ifs <;> omega

theorem width_of_stuck (stuck : (next first rest).1 = none) (other : width first.toNat ≠ 0) :
    2 ≤ width first.toNat := by
  by_contra small
  have one : width first.toNat = 1 := by omega
  rw [next, if_neg other, if_pos one] at stuck
  cases stuck

/-- Where bytes end too early, at most three of a character are there. -/
theorem length_of_errorLen_none (stuck : (next first rest).1 = none)
    (early : errorLen first rest = none) : (first :: rest).length ≤ 3 := by
  rw [errorLen.eq_def] at early
  split at early
  · cases early
  · rename_i other
    have wide := width_of_stuck stuck other
    have bound := width_le first.toNat
    cases rest with
    | nil => exact Nat.succ_le_succ (Nat.zero_le 2)
    | cons second behind =>
        dsimp only at early
        split at early
        · rename_i fits
          rw [next_second wide fits] at stuck
          have short := length_of_brokenAt_none stuck early
          simp only [List.length_cons]
          omega
        · cases early

/-- Bytes that are no beginning of a character become none by what follows. -/
theorem stuck_of_errorLen {place : Nat} (stuck : (next first rest).1 = none)
    (broken : errorLen first rest = some place) (more : List UInt8) :
    Stuck (first :: rest ++ more) := by
  rw [List.cons_append, stuck_cons_iff]
  rw [errorLen.eq_def] at broken
  split at broken
  · rename_i none
    rw [next, if_pos none]
  · rename_i other
    have wide := width_of_stuck stuck other
    cases rest with
    | nil => cases broken
    | cons second behind =>
        dsimp only at broken
        rw [List.cons_append]
        split at broken
        · rename_i fits
          rw [next_second wide fits]
          exact continued_of_brokenAt broken more
        · rename_i apart
          rw [next, if_neg other, if_neg (by omega), List.head?_cons, Option.any_some,
            if_neg apart]

/-! ## What the strict reader says -/

theorem readUtf8_ok (valid : readUtf8 bytes = .ok text) : utf8 text = bytes := by
  obtain ⟨parts, _⟩ := validPart_spec (Nat.le_refl bytes.length)
  rw [readUtf8] at valid
  split at valid
  · rename_i whole same
    rw [same] at parts
    obtain rfl := Except.ok.inj valid
    rw [← parts, List.append_nil]
  · cases valid

/-- The bytes that an error is about come behind a text, and no character begins with them. -/
theorem readUtf8_error {error : Utf8Error} (failed : readUtf8 bytes = .error error) :
    ∃ text first rest, bytes = utf8 text ++ first :: rest ∧ (next first rest).1 = none ∧
      error = ⟨(utf8 text).length, errorLen first rest⟩ := by
  obtain ⟨parts, stuck⟩ := validPart_spec (Nat.le_refl bytes.length)
  rw [readUtf8] at failed
  split at failed
  · cases failed
  · rename_i text first rest same
    rw [same] at parts stuck
    exact ⟨text, first, rest, parts.symm, stuck_cons_iff.mp stuck, (Except.error.inj failed).symm⟩

theorem readUtf8_utf8 (text : List Char) : readUtf8 (utf8 text) = .ok text := by
  cases read : readUtf8 (utf8 text) with
  | ok other =>
      have same := readUtf8_ok read
      have within := prefix_of_stuck stuck_nil ⟨[], congrArg (· ++ []) same⟩
      have around := prefix_of_stuck stuck_nil ⟨[], congrArg (· ++ []) same.symm⟩
      rw [within.eq_of_length (Nat.le_antisymm within.length_le around.length_le)]
  | error error =>
      obtain ⟨front, first, rest, parts, stuck, _⟩ := readUtf8_error read
      have none := (valid_iff_of_stuck (stuck_cons_iff.mpr stuck)).mp ⟨text, parts⟩
      cases none

end Kvist.Utf8
