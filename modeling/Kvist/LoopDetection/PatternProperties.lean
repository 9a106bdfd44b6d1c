import Kvist.LoopDetection.Pattern
import Kvist.RollingHash
import Mathlib.Data.UInt

/-!
# Exact periods

The search that compares hashes first finds what the search that compares words finds: two equal
passages have the same hash wherever they stand.
-/

set_option autoImplicit false

namespace Kvist.LoopDetection

open RollingHash
open scoped UInt64.CommRing

namespace Signatures

variable {values : List (UInt64 × Bool)}

theorem hashes_getD {index : Nat} (inside : index ≤ values.length) :
    (new values).hashes.getD index 0 = polynomial base ((values.map (·.1)).take index) := by
  rw [new, List.getD_eq_getElem?_getD, List.getElem?_scanl, if_pos (by simpa using inside)]
  rfl

theorem powers_getD {index : Nat} (inside : index ≤ values.length) :
    (new values).powers.getD index 0 = base ^ index := by
  have width : (values.take index).length = index := by
    rw [List.length_take]
    omega
  rw [new, List.getD_eq_getElem?_getD, List.getElem?_scanl, if_pos inside, Option.getD_some,
    foldl_powers, width, one_mul]

/-- Wherever a passage stands, its hash is the polynomial of its signatures. -/
theorem hash_eq_polynomial {start length : Nat} (inside : start + length ≤ values.length) :
    (new values).hash start length =
      polynomial base (window (values.map (·.1)) start length) := by
  have covered : start + length ≤ (values.map (·.1)).length := by simpa using inside
  rw [hash, hashes_getD inside, hashes_getD (by omega), powers_getD (by omega)]
  exact polynomial_window base _ covered

/-- Equal passages have equal hashes. -/
theorem hash_eq_of_window_eq {Item : Type} {items : List Item} (signature : Item → UInt64 × Bool)
    {start other length : Nat} (inside : start + length ≤ items.length)
    (otherInside : other + length ≤ items.length)
    (same : window items start length = window items other length) :
    (new (items.map signature)).hash start length =
      (new (items.map signature)).hash other length := by
  rw [hash_eq_polynomial (by simpa using inside), hash_eq_polynomial (by simpa using otherInside)]
  simp only [window, List.map_map, ← List.map_drop, ← List.map_take] at same ⊢
  rw [same]

end Signatures

section Naive

variable {Item : Type} [DecidableEq Item]

def endsWithCopies (values : List Item) (period copies : Nat) : Bool :=
  (List.replicate copies (values.drop (values.length - period))).flatten.isSuffixOf values

/-- The search that compares words only. -/
def naivePeriod (values : List Item) (copies : Nat → Nat) : Option (Nat × Nat) :=
  ((List.range' 1 (min maxPeriod (values.length / 2))).find? fun period =>
    endsWithCopies values period (copies period)).map fun period => (period, copies period)

variable {values : List Item} {period copies : Nat}

/-- The last copy is the last words, so that the first is compared in their place. -/
theorem endsWithCopies_iff (whole : period ≤ values.length)
    (long : period * copies ≤ values.length) :
    endsWithCopies values period copies = true ↔
      ∀ copy ∈ List.range' 1 (copies - 1),
        window values (values.length - period * copies) period =
          window values (values.length - period * copies + copy * period) period := by
  generalize atStart : values.length - period * copies = start
  have lastLength : (values.drop (values.length - period)).length = period := by
    rw [List.length_drop]
    omega
  have tailLength : (values.drop start).length =
      (values.drop (values.length - period)).length * copies := by
    rw [lastLength, List.length_drop]
    omega
  rw [endsWithCopies, List.isSuffixOf_iff_suffix, List.suffix_iff_eq_drop, copies_length, lastLength,
    Nat.mul_comm copies, atStart, eq_comm, eq_copies_iff tailLength, lastLength]
  simp only [window_drop, List.mem_range'_1]
  cases copies with
  | zero =>
    constructor
    · intro _ copy range
      omega
    · intro _ copy inside
      exact absurd inside (Nat.not_lt_zero copy)
  | succ before =>
    have last : values.drop (values.length - period) =
        window values (start + before * period) period := by
      have reached : start + before * period = values.length - period := by
        rw [Nat.mul_succ, Nat.mul_comm] at atStart long
        omega
      rw [reached, window, List.take_of_length_le (Nat.le_of_eq lastLength)]
    rw [last]
    constructor
    · intro every copy range
      have first := every 0 (Nat.succ_pos before)
      rw [Nat.zero_mul, Nat.add_zero] at first
      rw [first, every copy (by omega)]
    · intro same copy inside
      have asFirst (copy : Nat) (inside : copy < before + 1) :
          window values (start + copy * period) period = window values start period := by
        cases copy with
        | zero => rw [Nat.zero_mul, Nat.add_zero]
        | succ copy => exact (same (copy + 1) (by omega)).symm
      rw [asFirst copy inside, asFirst before (Nat.lt_succ_self before)]

theorem endsWithCopies_short (whole : period ≤ values.length)
    (short : values.length < period * copies) : endsWithCopies values period copies = false := by
  apply Bool.eq_false_iff.mpr
  intro ends
  rw [endsWithCopies, List.isSuffixOf_iff_suffix] at ends
  have covered := ends.length_le
  rw [copies_length, List.length_drop, Nat.sub_sub_self whole,
    Nat.mul_comm] at covered
  omega

/-- The hashes never reject a copy: one test of a period finds what comparing words finds. -/
theorem exactPeriod_test (signature : Item → UInt64 × Bool) (whole : period ≤ values.length)
    (long : period * copies ≤ values.length) :
    ((List.range' 1 (copies - 1)).all fun copy =>
        (Signatures.new (values.map signature)).hash
              (values.length - period * copies + copy * period) period ==
            (Signatures.new (values.map signature)).hash (values.length - period * copies) period &&
          window values (values.length - period * copies) period ==
            window values (values.length - period * copies + copy * period) period) =
      endsWithCopies values period copies := by
  apply Bool.eq_iff_iff.mpr
  rw [List.all_eq_true, endsWithCopies_iff whole long]
  apply forall₂_congr
  intro copy range
  rw [List.mem_range'_1] at range
  rw [Bool.and_eq_true, beq_iff_eq, beq_iff_eq]
  apply and_iff_right_of_imp
  intro same
  have inside : copy * period + period ≤ period * copies := by
    rw [← Nat.succ_mul, Nat.mul_comm]
    exact Nat.mul_le_mul_left period (by omega)
  exact Signatures.hash_eq_of_window_eq signature (by omega) (by omega) same.symm

theorem findSome?_eq_find? {Value : Type} {search : Nat → Option Value} {test : Nat → Bool}
    {found : Nat → Value} {places : List Nat}
    (tested : ∀ place ∈ places, search place = if test place then some (found place) else none) :
    places.findSome? search = (places.find? test).map found := by
  induction places with
  | nil => rfl
  | cons place rest rests =>
    rw [List.findSome?_cons, List.find?_cons, tested place List.mem_cons_self]
    cases test place with
    | true => rfl
    | false => exact rests fun other member => tested other (List.mem_cons_of_mem place member)

/-- The search that compares hashes first is the search that compares words. -/
theorem exactPeriod_eq_naivePeriod (signature : Item → UInt64 × Bool) (values : List Item)
    (copies : Nat → Nat) :
    exactPeriod values (Signatures.new (values.map signature)) copies =
      naivePeriod values copies := by
  rw [exactPeriod, naivePeriod]
  apply findSome?_eq_find?
  intro period range
  have whole : period ≤ values.length := by
    rw [List.mem_range'_1] at range
    omega
  by_cases short : values.length < period * copies period
  · rw [if_pos short, endsWithCopies_short whole short]
    rfl
  · rw [if_neg short, ← exactPeriod_test signature whole (Nat.le_of_not_lt short)]
    rfl

example : naivePeriod [0, 1, 2, 1, 2, 1, 2] (fun _ => 3) = some (2, 3) := by decide

end Naive

end Kvist.LoopDetection
