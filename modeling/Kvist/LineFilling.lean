import Mathlib

/-!
# Filling lines

Words are put on a line as long as they fit behind a space, and else start the next line. Wider
lines never need more breaks.
-/

set_option autoImplicit false

namespace Kvist.LineFilling

/-- How many lines are begun behind a first one, of which some columns are used. -/
def breaks (width : Nat) : Nat → List Nat → Nat
  | _, [] => 0
  | used, word :: rest =>
      if width < used + 1 + word then breaks width word rest + 1
      else breaks width (used + 1 + word) rest

/-- A wider line with fewer columns used needs no more breaks, and with any used at most one. -/
theorem breaks_wider {narrow wide : Nat} (order : narrow ≤ wide) (words : List Nat) :
    (∀ {less more}, less ≤ more → breaks wide less words ≤ breaks narrow more words) ∧
      ∀ first second, breaks wide first words ≤ breaks narrow second words + 1 := by
  induction words with
  | nil => exact ⟨fun _ => le_rfl, fun _ _ => Nat.zero_le _⟩
  | cons word rest ih =>
      obtain ⟨fewer, any⟩ := ih
      constructor
      · intro less more used
        rw [breaks, breaks]
        split
        · rw [if_pos (by omega)]
          exact Nat.succ_le_succ (fewer le_rfl)
        · split
          · exact any _ _
          · exact fewer (by omega)
      · intro first second
        rw [breaks, breaks]
        split
        · split
          · exact Nat.succ_le_succ ((fewer le_rfl).trans (Nat.le_succ _))
          · exact Nat.succ_le_succ (fewer (by omega))
        · split
          · exact (any _ _).trans (Nat.le_succ _)
          · exact any _ _

theorem breaks_antitone {narrow wide : Nat} (order : narrow ≤ wide) (used : Nat)
    (words : List Nat) : breaks wide used words ≤ breaks narrow used words :=
  (breaks_wider order words).1 le_rfl

/-- The columns of words with a space in front of each. -/
def spaced (words : List Nat) : Nat := (words.map (· + 1)).sum

/-- A line that is wide enough is never broken. -/
theorem breaks_eq_zero {width used : Nat} {words : List Nat}
    (fits : used + spaced words ≤ width) : breaks width used words = 0 := by
  induction words generalizing used with
  | nil => rfl
  | cons word rest ih =>
      rw [spaced, List.map_cons, List.sum_cons, ← spaced] at fits
      rw [breaks, if_neg (by omega)]
      exact ih (by omega)

end Kvist.LineFilling
