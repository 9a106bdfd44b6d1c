import Mathlib

/-!
# Proportional shares

An amount is shared out in proportion to weights that it does not exceed. Each share is rounded
down, and what is left over goes, one for each, to the largest remainders.
-/

set_option autoImplicit false

namespace Kvist.Apportionment

variable {amount total : Nat}

/-- The shares with what is rounded off are the whole. -/
theorem sum_shares (weights : List Nat) (amount total : Nat) :
    total * (weights.map fun weight => weight * amount / total).sum +
        (weights.map fun weight => weight * amount % total).sum = weights.sum * amount := by
  induction weights with
  | nil => simp
  | cons weight rest ih =>
      have here := Nat.div_add_mod (weight * amount) total
      simp only [List.map_cons, List.sum_cons, Nat.mul_add, Nat.add_mul]
      omega

theorem sum_shares_le (weights : List Nat) (positive : 0 < weights.sum) (amount : Nat) :
    (weights.map fun weight => weight * amount / weights.sum).sum ≤ amount := by
  have whole := sum_shares weights amount weights.sum
  refine Nat.le_of_mul_le_mul_left ?_ positive
  omega

theorem left_over (weights : List Nat) (amount : Nat) :
    weights.sum * (amount - (weights.map fun weight => weight * amount / weights.sum).sum) =
      (weights.map fun weight => weight * amount % weights.sum).sum := by
  have whole := sum_shares weights amount weights.sum
  rw [Nat.mul_sub]
  omega

theorem share_lt {weight : Nat} (bounded : amount ≤ total)
    (rounded : 0 < weight * amount % total) : weight * amount / total < weight := by
  have positive : 0 < total := by
    by_contra none
    have nothing : amount = 0 := by omega
    rw [nothing, Nat.mul_zero, Nat.zero_mod] at rounded
    exact absurd rounded (lt_irrefl 0)
  have whole := Nat.div_add_mod (weight * amount) total
  have product : weight * amount ≤ weight * total := Nat.mul_le_mul_left weight bounded
  by_contra full
  have least : total * weight ≤ total * (weight * amount / total) :=
    Nat.mul_le_mul_left total (Nat.le_of_not_lt full)
  rw [Nat.mul_comm total weight] at least
  omega

theorem share_le {weight : Nat} (bounded : amount ≤ total) :
    weight * amount / total ≤ weight := by
  rcases Nat.eq_zero_or_pos total with rfl | positive
  · rw [Nat.div_zero]
    exact Nat.zero_le _
  · refine Nat.div_le_of_le_mul ?_
    rw [Nat.mul_comm total]
    exact Nat.mul_le_mul_left weight bounded

theorem sum_le_length_mul {items : List Nat} {bound : Nat} (each : ∀ item ∈ items, item ≤ bound) :
    items.sum ≤ items.length * bound := by
  induction items with
  | nil => exact Nat.zero_le _
  | cons item rest ih =>
      rw [List.forall_mem_cons] at each
      have later := ih each.2
      rw [List.sum_cons, List.length_cons, Nat.succ_mul]
      omega

/-- The largest remainders, as many as are left over, are all rounded off. -/
theorem positive_of_mem_take {remainders : List Nat} {count : Nat} (positive : 0 < total)
    (descending : remainders.Pairwise (· ≥ ·)) (small : ∀ item ∈ remainders, item ≤ total)
    (enough : total * count ≤ remainders.sum) : ∀ item ∈ remainders.take count, 0 < item := by
  induction remainders generalizing count with
  | nil =>
      rw [List.take_nil]
      exact nofun
  | cons first rest ih =>
      cases count with
      | zero => exact nofun
      | succ count =>
          obtain ⟨largest, remaining⟩ := List.pairwise_cons.mp descending
          rw [List.forall_mem_cons] at small
          rw [List.sum_cons, Nat.mul_succ] at enough
          rw [List.take_succ_cons, List.forall_mem_cons]
          refine ⟨?_, ih remaining small.2 (by omega)⟩
          by_contra none
          obtain rfl : first = 0 := by omega
          have nothing := sum_le_length_mul largest
          rw [Nat.mul_zero] at nothing
          omega

/-- There are no more left over than remainders. -/
theorem count_le_length {remainders : List Nat} {count : Nat} (positive : 0 < total)
    (small : ∀ item ∈ remainders, item ≤ total) (enough : total * count ≤ remainders.sum) :
    count ≤ remainders.length := by
  have bound := enough.trans (sum_le_length_mul small)
  rw [Nat.mul_comm remainders.length] at bound
  exact Nat.le_of_mul_le_mul_left bound positive

end Kvist.Apportionment
