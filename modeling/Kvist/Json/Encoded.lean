import Kvist.Json.Parser
import Kvist.Utf8

/-!
# Encoded values in front of other bytes

The bytes of a value are told from the bytes behind them, if these do not begin like the rest of a
number.
-/

set_option autoImplicit false

namespace Kvist.Json

/-- Bytes that no number literal goes on with. -/
def Breaks (bytes : List UInt8) : Prop :=
  ∀ byte rest, bytes = byte :: rest → byte.toNat < 128 ∧ numeral (Char.ofNat byte.toNat) = false

/-- Of two texts in front of the same bytes, one begins with the other. -/
theorem utf8_append_cases {left right : List Char} {rest more : List UInt8}
    (same : utf8 left ++ rest = utf8 right ++ more) :
    (∃ between, right = left ++ between ∧ rest = utf8 between ++ more) ∨
      ∃ between, left = right ++ between ∧ more = utf8 between ++ rest := by
  induction left generalizing right with
  | nil => exact .inl ⟨right, rfl, same⟩
  | cons character left ih =>
      cases right with
      | nil => exact .inr ⟨character :: left, rfl, same.symm⟩
      | cons other right =>
          simp only [utf8, List.flatMap_cons, List.append_assoc] at same
          obtain ⟨rfl, remaining⟩ := Utf8.utf8EncodeChar_append_inj same
          rcases ih remaining with ⟨between, whole, bytes⟩ | ⟨between, whole, bytes⟩
          · exact .inl ⟨between, by rw [whole]; rfl, bytes⟩
          · exact .inr ⟨between, by rw [whole]; rfl, bytes⟩

theorem ends_of_breaks {between : List Char} {rest : List UInt8}
    (breaks : Breaks (utf8 between ++ rest)) : Ends between := by
  rintro character others rfl
  obtain ⟨first, bytes, encoded, -⟩ := Utf8.next_utf8EncodeChar character []
  obtain ⟨ascii, other⟩ := breaks first (bytes ++ utf8 others ++ rest) (by
    rw [utf8, List.flatMap_cons, encoded, ← utf8]
    simp only [List.cons_append, List.append_assoc])
  have code := utf8EncodeChar_ascii ascii (encoded ▸ List.mem_cons_self)
  rwa [← code, Char.ofNat_toNat] at other

/-- A value whose text another one begins with is that other one. -/
theorem eq_of_compact_append {left right : Value} (leftFormed : left.wellFormed = true)
    (rightFormed : right.wellFormed = true) {between : List Char} (ends : Ends between)
    (whole : compact right = compact left ++ between) : left = right ∧ between = [] := by
  have leftRead := parseValue_compact left leftFormed (compact right).length (by simp [whole])
    between ends
  have rightRead := parseValue_compact right rightFormed (compact right).length (Nat.le_refl _) []
    (fun _ _ empty => nomatch empty)
  rw [List.append_nil, whole] at rightRead
  rw [whole, rightRead] at leftRead
  obtain ⟨same, empty⟩ := Prod.mk.inj (Option.some.inj leftRead)
  exact ⟨same.symm, empty.symm⟩

theorem encode_unique {left right : Value} (leftFormed : left.wellFormed = true)
    (rightFormed : right.wellFormed = true) {rest more : List UInt8} (breaks : Breaks rest)
    (moreBreaks : Breaks more) (same : encode left ++ rest = encode right ++ more) :
    left = right ∧ rest = more := by
  rcases utf8_append_cases same with ⟨between, whole, bytes⟩ | ⟨between, whole, bytes⟩
  · have ends := ends_of_breaks (bytes ▸ breaks)
    obtain ⟨equal, rfl⟩ := eq_of_compact_append leftFormed rightFormed ends whole
    exact ⟨equal, bytes⟩
  · have ends := ends_of_breaks (bytes ▸ moreBreaks)
    obtain ⟨equal, rfl⟩ := eq_of_compact_append rightFormed leftFormed ends whole
    exact ⟨equal.symm, bytes.symm⟩

end Kvist.Json
