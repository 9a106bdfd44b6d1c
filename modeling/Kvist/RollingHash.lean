import Mathlib.Data.List.Basic
import Mathlib.Data.Finset.Card
import Mathlib.Tactic.Choose
import Mathlib.Tactic.Ring

/-!
# Rolling hashes

A list is hashed as the polynomial whose coefficients it holds. The hashes of the initial parts
give the hash of every window. A list repeats a passage when every window of that length is it.
-/

set_option autoImplicit false

namespace Kvist.RollingHash

section Polynomials

variable {Ring : Type} [CommRing Ring] (base : Ring)

def step (hash value : Ring) : Ring := hash * base + value

def polynomial (values : List Ring) : Ring := values.foldl (step base) 0

theorem foldl_step (values : List Ring) (hash : Ring) :
    values.foldl (step base) hash = hash * base ^ values.length + polynomial base values := by
  induction values generalizing hash with
  | nil => simp [polynomial]
  | cons value rest rests =>
    rw [polynomial, List.foldl_cons, List.foldl_cons, rests (step base hash value),
      rests (step base 0 value), List.length_cons]
    simp only [step]
    ring

theorem polynomial_append (left right : List Ring) :
    polynomial base (left ++ right) =
      polynomial base left * base ^ right.length + polynomial base right := by
  rw [polynomial, List.foldl_append, foldl_step]
  rfl

/-- The hash of a window depends on its values alone. -/
theorem polynomial_window (values : List Ring) {start length : Nat}
    (inside : start + length ≤ values.length) :
    polynomial base (values.take (start + length)) -
        polynomial base (values.take start) * base ^ length =
      polynomial base ((values.drop start).take length) := by
  have width : ((values.drop start).take length).length = length := by
    rw [List.length_take, List.length_drop]
    omega
  rw [List.take_add, polynomial_append, width, add_sub_cancel_left]

theorem foldl_powers {Item : Type} (values : List Item) (power : Ring) :
    values.foldl (fun power _ => power * base) power = power * base ^ values.length := by
  induction values generalizing power with
  | nil => simp
  | cons value rest rests =>
    rw [List.foldl_cons, rests, List.length_cons]
    ring

end Polynomials

section Repetitions

variable {Item : Type}

def window (values : List Item) (start length : Nat) : List Item :=
  (values.drop start).take length

theorem window_length {values : List Item} {start length : Nat}
    (inside : start + length ≤ values.length) : (window values start length).length = length := by
  rw [window, List.length_take, List.length_drop]
  omega

theorem window_drop (values : List Item) (before start length : Nat) :
    window (values.drop before) start length = window values (before + start) length := by
  rw [window, window, List.drop_drop]

theorem copies_length (copies : Nat) (passage : List Item) :
    (List.replicate copies passage).flatten.length = copies * passage.length := by
  rw [List.length_flatten, List.map_replicate, List.sum_replicate_nat]

/-- The copies stand one after another. -/
theorem eq_copies_iff {values passage : List Item} {copies : Nat}
    (long : values.length = passage.length * copies) :
    values = (List.replicate copies passage).flatten ↔
      ∀ copy < copies, window values (copy * passage.length) passage.length = passage := by
  induction copies generalizing values with
  | zero =>
    have empty : values = [] := List.length_eq_zero_iff.mp (by simpa using long)
    simp [empty]
  | succ copies copied =>
    have remaining : (values.drop passage.length).length = passage.length * copies := by
      rw [List.length_drop, long, Nat.mul_succ]
      omega
    have parts : values = window values 0 passage.length ++ values.drop passage.length := by
      rw [window, List.drop_zero, List.take_append_drop]
    have width : (window values 0 passage.length).length = passage.length := by
      apply window_length
      rw [long, Nat.mul_succ]
      omega
    have later (copy : Nat) : window (values.drop passage.length) (copy * passage.length)
        passage.length = window values ((copy + 1) * passage.length) passage.length := by
      rw [window_drop, Nat.succ_mul, Nat.add_comm]
    rw [List.replicate_succ, List.flatten_cons]
    constructor
    · intro same copy inside
      have split := List.append_inj (parts.symm.trans same) width
      cases copy with
      | zero => simpa using split.1
      | succ copy =>
        rw [← later]
        exact (copied remaining).mp split.2 copy (Nat.lt_of_succ_lt_succ inside)
    · intro every
      have first : window values 0 passage.length = passage := by
        simpa using every 0 (Nat.succ_pos copies)
      have rest : values.drop passage.length = (List.replicate copies passage).flatten := by
        apply (copied remaining).mpr
        intro copy inside
        rw [later]
        exact every (copy + 1) (Nat.succ_lt_succ inside)
      rw [parts, first, rest]

theorem window_eq_of_places {values : List Item} {start other length : Nat}
    (same : ∀ place < length, values[start + place]? = values[other + place]?) :
    window values start length = window values other length := by
  apply List.ext_getElem?
  intro place
  rw [window, window, List.getElem?_take, List.getElem?_take, List.getElem?_drop,
    List.getElem?_drop]
  by_cases inside : place < length
  · rw [if_pos inside, if_pos inside, same place inside]
  · rw [if_neg inside, if_neg inside]

theorem exists_clear_window {bad : Nat → Bool} {offset : Nat → Nat} {count width length : Nat}
    (few : (List.range length).countP bad < count)
    (inside : ∀ index < count, offset index + width ≤ length)
    (apart : ∀ left right, left < right → right < count → offset left + width ≤ offset right) :
    ∃ index < count, ∀ place, offset index ≤ place → place < offset index + width →
      bad place = false := by
  by_contra crowded
  have hit (index : Nat) (within : index < count) :
      ∃ place, offset index ≤ place ∧ place < offset index + width ∧ bad place = true := by
    by_contra clear
    apply crowded
    refine ⟨index, within, fun place lower upper => Bool.eq_false_iff.mpr fun isBad => ?_⟩
    exact clear ⟨place, lower, upper, isBad⟩
  choose! chosen chosenInside using hit
  have places : ((List.range length).filter bad).toFinset.card < (Finset.range count).card := by
    rw [List.toFinset_card_of_nodup (List.nodup_range.filter bad), Finset.card_range,
      ← List.countP_eq_length_filter]
    exact few
  have intoPlaces : ∀ index ∈ Finset.range count,
      chosen index ∈ ((List.range length).filter bad).toFinset := by
    intro index member
    have within := Finset.mem_range.mp member
    obtain ⟨lower, upper, isBad⟩ := chosenInside index within
    rw [List.mem_toFinset, List.mem_filter, List.mem_range]
    exact ⟨Nat.lt_of_lt_of_le upper (inside index within), isBad⟩
  obtain ⟨left, leftMember, right, rightMember, different, same⟩ :=
    Finset.exists_ne_map_eq_of_card_lt_of_maps_to places intoPlaces
  have leftWithin := Finset.mem_range.mp leftMember
  have rightWithin := Finset.mem_range.mp rightMember
  obtain ⟨leftLower, leftUpper, _⟩ := chosenInside left leftWithin
  obtain ⟨rightLower, rightUpper, _⟩ := chosenInside right rightWithin
  cases Nat.lt_or_gt_of_ne different with
  | inl before =>
    have separate := apart left right before rightWithin
    omega
  | inr after =>
    have separate := apart right left after leftWithin
    omega

end Repetitions

end Kvist.RollingHash
