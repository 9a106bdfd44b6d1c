import Mathlib
import Kvist.Address

/-!
# Numbers

Unsigned numbers as the standard library reads them.
-/

set_option autoImplicit false

namespace Kvist.Radix

open Address Text

def usizeMax : Nat := 2 ^ 64 - 1

def isAsciiDigit (character : Char) : Bool := '0' ≤ character && character ≤ '9'

def valueOf (radix : Nat) (digits : List Char) : Option Nat :=
  (digits.mapM (digitValue radix)).map (ofDigits radix)

/-- A number of at most `limit`, also behind a plus sign. -/
def fromStrRadix (radix limit : Nat) (text : List Char) : Option Nat :=
  let digits := (stripLeading ['+'] text).getD text
  if digits.isEmpty then none else (valueOf radix digits).filter (· ≤ limit)

theorem fromStrRadix_of_unsigned {radix limit : Nat} {text : List Char} (nonempty : text ≠ [])
    (unsigned : '+' ∉ text) :
    fromStrRadix radix limit text = (valueOf radix text).filter (· ≤ limit) := by
  have noSign : stripLeading ['+'] text = none := by
    cases stripped : stripLeading ['+'] text with
    | none => rfl
    | some rest =>
        rw [stripLeading_eq_some_iff.mp stripped] at unsigned
        exact absurd List.mem_cons_self unsigned
  rw [fromStrRadix, noSign, Option.getD_none, List.isEmpty_eq_false_iff.mpr nonempty]
  exact if_neg Bool.false_ne_true

theorem digitValue_of_digit {digit : Char} (decimal : isAsciiDigit digit = true) :
    digitValue 10 digit = some (digit.toNat - '0'.toNat) := by
  rw [isAsciiDigit, Bool.and_eq_true, decide_eq_true_eq, decide_eq_true_eq] at decimal
  have high : digit.toNat ≤ '9'.toNat := decimal.2
  have zero : '0'.toNat = 48 := rfl
  have nine : '9'.toNat = 57 := rfl
  rw [digitValue, if_pos decimal, Option.filter_some, if_pos]
  rw [decide_eq_true_eq]
  omega

theorem isAsciiDigit_eq (character : Char) : isAsciiDigit character = character.isDigit := by
  simp [isAsciiDigit, Char.isDigit, Char.le_def]

theorem isAsciiDigit_of_mem_toString {value : Nat} {digit : Char}
    (member : digit ∈ (toString value).toList) : isAsciiDigit digit = true := by
  have digits : (toString value).toList = Nat.toDigits 10 value := Nat.toList_repr
  rw [isAsciiDigit_eq]
  exact Nat.isDigit_of_mem_toDigits (by decide) (by decide) (digits ▸ member)

theorem valueOf_digits {digits : List Char} (decimal : ∀ digit ∈ digits, isAsciiDigit digit = true) :
    valueOf 10 digits = some (Nat.ofDigitChars 10 digits 0) := by
  have values : digits.mapM (digitValue 10) =
      some (digits.map fun digit => digit.toNat - '0'.toNat) := by
    induction digits with
    | nil => rfl
    | cons digit rest ih =>
        obtain ⟨first, others⟩ := List.forall_mem_cons.mp decimal
        rw [List.mapM_cons, digitValue_of_digit first, ih others]
        rfl
  have folded : ∀ (digits : List Char) (start : Nat),
      (digits.map fun digit => digit.toNat - '0'.toNat).foldl
        (fun value digit => value * 10 + digit) start = Nat.ofDigitChars 10 digits start := by
    intro digits
    induction digits with
    | nil => intro start; rfl
    | cons digit rest ih =>
        intro start
        rw [List.map_cons, List.foldl_cons, ih, Nat.ofDigitChars_cons, Nat.mul_comm]
  rw [valueOf, values, Option.map_some, ofDigits, folded]

theorem toString_injective {left right : Nat}
    (same : (toString left).toList = (toString right).toList) : left = right := by
  have leftDigits : (toString left).toList = Nat.toDigits 10 left := Nat.toList_repr
  have rightDigits : (toString right).toList = Nat.toDigits 10 right := Nat.toList_repr
  have value := @Nat.ofDigitChars_ten_toDigits left
  rwa [← leftDigits, same, rightDigits, Nat.ofDigitChars_ten_toDigits, eq_comm] at value

/-- A number is read back from its digits. -/
theorem fromStrRadix_toString {value limit : Nat} (fits : value ≤ limit) :
    fromStrRadix 10 limit (toString value).toList = some value := by
  have digits : (toString value).toList = Nat.toDigits 10 value := Nat.toList_repr
  have nonempty : (toString value).toList ≠ [] := digits ▸ Nat.toDigits_ne_nil
  have unsigned : '+' ∉ (toString value).toList := fun member =>
    absurd (isAsciiDigit_of_mem_toString member) (by decide)
  rw [fromStrRadix_of_unsigned nonempty unsigned,
    valueOf_digits fun _ member => isAsciiDigit_of_mem_toString member, digits,
    Nat.ofDigitChars_ten_toDigits, Option.filter_some, if_pos (by simpa using fits)]

end Kvist.Radix
