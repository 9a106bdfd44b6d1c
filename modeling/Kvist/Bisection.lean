import Mathlib.Data.List.Basic
import Mathlib.Order.Nat

/-!
# Bisection

The largest place that passes a test is looked for by halving an interval. The last place that
passed is kept. It is the largest one if the places that pass come before those that do not.
-/

set_option autoImplicit false

namespace Kvist.Bisection

variable {Candidate : Type}

/-- The interval has at most as many places as there is fuel. -/
def bisect (test : Nat → Option Candidate) :
    Nat → Nat → Nat → Option Candidate → Option Candidate
  | 0, _, _, fitted => fitted
  | fuel + 1, lower, upper, fitted =>
      if lower ≤ upper then
        let middle := lower + (upper - lower) / 2
        match test middle with
        | some candidate => bisect test fuel (middle + 1) upper (some candidate)
        | none => bisect test fuel lower (middle - 1) fitted
      else fitted

variable {test : Nat → Option Candidate} {fuel lower upper : Nat} {fitted : Option Candidate}

/-- What is found passed at a place of the interval, or was there before. -/
theorem bisect_sound {found : Candidate} (ran : bisect test fuel lower upper fitted = some found) :
    fitted = some found ∨ ∃ middle, lower ≤ middle ∧ middle ≤ upper ∧ test middle = some found := by
  induction fuel generalizing lower upper fitted with
  | zero => exact .inl ran
  | succ fuel ih =>
      rw [bisect] at ran
      split at ran
      · rename_i ordered
        dsimp only at ran
        split at ran
        · rename_i candidate passed
          rcases ih ran with here | ⟨middle, low, high, passed⟩
          · exact .inr ⟨lower + (upper - lower) / 2, by omega, by omega, passed.trans here⟩
          · exact .inr ⟨middle, by omega, high, passed⟩
        · rcases ih ran with here | ⟨middle, low, high, passed⟩
          · exact .inl here
          · exact .inr ⟨middle, low, by omega, passed⟩
      · exact .inl ran

/-- What is kept is lost only to something better. -/
theorem bisect_isSome (kept : fitted.isSome) : (bisect test fuel lower upper fitted).isSome := by
  induction fuel generalizing lower upper fitted with
  | zero => exact kept
  | succ fuel ih =>
      rw [bisect]
      split
      · dsimp only
        split
        · exact ih rfl
        · exact ih kept
      · exact kept

/-- Something is found if the first place passes, whatever the other places do. -/
theorem bisect_of_first (positive : 0 < lower) (ordered : lower ≤ upper)
    (enough : upper + 1 ≤ fuel + lower) (passes : (test lower).isSome) :
    (bisect test fuel lower upper fitted).isSome := by
  induction fuel generalizing upper fitted with
  | zero => omega
  | succ fuel ih =>
      rw [bisect, if_pos ordered]
      dsimp only
      split
      · exact bisect_isSome rfl
      · rename_i failed
        have moved : lower ≠ lower + (upper - lower) / 2 := by
          intro same
          rw [← same] at failed
          rw [failed] at passes
          cases passes
        exact ih (by omega) (by omega)

/-! ## The least place -/

/-- The first place of an interval that passes, or its end. -/
def least (test : Nat → Bool) : Nat → Nat → Nat → Nat
  | 0, low, _ => low
  | fuel + 1, low, high =>
      if low < high then
        let middle := low + (high - low) / 2
        if test middle then least test fuel low middle else least test fuel (middle + 1) high
      else low

/-- The places that pass come behind those that do not. -/
def Rising (test : Nat → Bool) : Prop :=
  ∀ near far, near ≤ far → test near = true → test far = true

/-- What is found ends the places that do not pass. -/
theorem least_spec {test : Nat → Bool} (rising : Rising test) {fuel low high : Nat}
    (ordered : low ≤ high) (enough : high ≤ low + fuel) :
    low ≤ least test fuel low high ∧ least test fuel low high ≤ high ∧
      (∀ place, low ≤ place → place < least test fuel low high → test place = false) ∧
      (least test fuel low high < high → test (least test fuel low high) = true) := by
  induction fuel generalizing low high with
  | zero =>
      obtain rfl : low = high := by omega
      exact ⟨le_rfl, le_rfl, fun place above below => by rw [least] at below; omega,
        fun below => by rw [least] at below; omega⟩
  | succ fuel ih =>
      rw [least]
      split
      · rename_i apart
        dsimp only
        have lower : low ≤ low + (high - low) / 2 := Nat.le_add_right _ _
        have upper : low + (high - low) / 2 < high := by omega
        generalize low + (high - low) / 2 = middle at lower upper
        split
        · rename_i passes
          obtain ⟨above, below, fails, found⟩ := @ih low middle lower (by omega)
          refine ⟨above, below.trans upper.le, fails, fun _ => ?_⟩
          rcases Nat.lt_or_eq_of_le below with inside | last
          · exact found inside
          · rw [last]
            exact passes
        · rename_i failed
          obtain ⟨above, below, fails, found⟩ := @ih (middle + 1) high upper (by omega)
          refine ⟨by omega, below, fun place from_low inside => ?_, found⟩
          by_cases behind : middle + 1 ≤ place
          · exact fails place behind inside
          · refine Bool.eq_false_iff.mpr fun passes => failed ?_
            exact rising place middle (by omega) passes
      · exact ⟨le_rfl, ordered, fun place above below => by omega, fun below => by omega⟩

/-- A place of the interval is at or behind the least one exactly if it passes or is the end. -/
theorem least_le_iff {test : Nat → Bool} (rising : Rising test) {fuel low high place : Nat}
    (ordered : low ≤ high) (enough : high ≤ low + fuel) :
    least test fuel low high ≤ place ↔ low ≤ place ∧ (high ≤ place ∨ test place = true) := by
  obtain ⟨above, below, fails, found⟩ := @least_spec test rising fuel low high ordered enough
  constructor
  · intro inside
    refine ⟨above.trans inside, ?_⟩
    rcases Nat.lt_or_eq_of_le below with early | last
    · exact .inr (rising _ _ inside (found early))
    · exact .inl (last.symm.le.trans inside)
  · rintro ⟨low_le, last | passes⟩
    · exact below.trans last
    · by_contra outside
      exact absurd (fails place low_le (Nat.lt_of_not_le outside)) (by rw [passes]; decide)

end Kvist.Bisection
