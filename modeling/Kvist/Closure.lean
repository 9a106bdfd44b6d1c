import Mathlib.Data.Finset.Card
import Mathlib.Data.Finset.Basic
import Mathlib.Order.Bounds.Defs

/-!
# Closing a set under dependants

A list of nodes with what each of them needs is gone through again and again, and each time a node
that needs one of the set joins it. When a pass adds nothing, the set is the least one that holds
the start and every node that needs one of it.
-/

set_option autoImplicit false

namespace Kvist.Closure

variable {Node : Type} [DecidableEq Node]

def visit (reached : Finset Node) (node : Node × List Node) : Finset Node :=
  if node.2.any (· ∈ reached) then insert node.1 reached else reached

/-- One pass over the nodes. A node that joins is seen by the nodes behind it. -/
def pass (nodes : List (Node × List Node)) (reached : Finset Node) : Finset Node :=
  nodes.foldl visit reached

def grow (nodes : List (Node × List Node)) : Nat → Finset Node → Option (Finset Node)
  | 0, _ => none
  | fuel + 1, reached =>
      let next := pass nodes reached
      if next.card = reached.card then some next else grow nodes fuel next

/-- Every pass but the last one adds a node. -/
def closure (nodes : List (Node × List Node)) (start : Finset Node) : Finset Node :=
  (grow nodes (nodes.length + 1) start).getD start

def Closed (nodes : List (Node × List Node)) (set : Set Node) : Prop :=
  ∀ node ∈ nodes, (∃ needed ∈ node.2, needed ∈ set) → node.1 ∈ set

variable {nodes : List (Node × List Node)} {reached start : Finset Node} {set : Set Node}

/-! ## A pass -/

theorem subset_visit (node : Node × List Node) : reached ⊆ visit reached node := by
  unfold visit
  split
  · exact Finset.subset_insert _ _
  · exact Finset.Subset.refl _

theorem subset_pass : reached ⊆ pass nodes reached := by
  induction nodes generalizing reached with
  | nil => exact Finset.Subset.refl _
  | cons node rest ih => exact (subset_visit node).trans ih

theorem pass_subset : pass nodes reached ⊆ reached ∪ (nodes.map (·.1)).toFinset := by
  induction nodes generalizing reached with
  | nil => exact Finset.subset_union_left
  | cons node rest ih =>
      refine (@ih (visit reached node)).trans ?_
      rw [List.map_cons, List.toFinset_cons]
      refine Finset.union_subset ?_ ?_
      · unfold visit
        split
        · refine Finset.insert_subset ?_ Finset.subset_union_left
          exact Finset.mem_union_right _ (Finset.mem_insert_self _ _)
        · exact Finset.subset_union_left
      · exact (Finset.subset_insert _ _).trans Finset.subset_union_right

theorem pass_inside (closed : Closed nodes set) (inside : ↑reached ⊆ set) :
    ↑(pass nodes reached) ⊆ set := by
  induction nodes generalizing reached with
  | nil => exact inside
  | cons node rest ih =>
      refine ih (fun other member => closed other (List.mem_cons_of_mem _ member)) ?_
      unfold visit
      split
      · rename_i needs
        obtain ⟨needed, member, present⟩ := List.any_eq_true.mp needs
        rw [Finset.coe_insert]
        refine Set.insert_subset ?_ inside
        exact closed node List.mem_cons_self
          ⟨needed, member, inside (of_decide_eq_true present)⟩
      · exact inside

theorem closed_of_pass (unchanged : pass nodes reached = reached) : Closed nodes ↑reached := by
  induction nodes with
  | nil => exact fun node member => nomatch member
  | cons node rest ih =>
      -- The first visit adds nothing either, since the visits behind it take nothing away.
      have first : visit reached node = reached := by
        refine Finset.Subset.antisymm ?_ (subset_visit node)
        conv_rhs => rw [← unchanged]
        exact subset_pass
      have remaining : pass rest reached = reached := by
        conv_lhs => rw [← first]
        exact unchanged
      intro other member needs
      rcases List.mem_cons.mp member with rfl | later
      · obtain ⟨needed, recorded, present⟩ := needs
        have joins : other.2.any (· ∈ reached) = true :=
          List.any_eq_true.mpr ⟨needed, recorded, decide_eq_true present⟩
        rw [visit, if_pos joins] at first
        rw [← first]
        exact Finset.mem_insert_self _ _
      · exact ih remaining other later needs

/-! ## All passes -/

theorem grow_isLeast {fuel : Nat} {result : Finset Node}
    (grown : grow nodes fuel start = some result) :
    IsLeast {set : Set Node | ↑start ⊆ set ∧ Closed nodes set} ↑result := by
  induction fuel generalizing start with
  | zero => cases grown
  | succ fuel ih =>
      rw [grow] at grown
      split at grown
      · rename_i same
        have unchanged : start = pass nodes start :=
          Finset.eq_of_subset_of_card_le subset_pass same.le
        rw [← unchanged, Option.some.injEq] at grown
        rw [← grown]
        exact ⟨⟨subset_rfl, closed_of_pass unchanged.symm⟩, fun set closed => closed.1⟩
      · obtain ⟨⟨inside, closed⟩, least⟩ := ih grown
        refine ⟨⟨(Finset.coe_subset.mpr subset_pass).trans inside, closed⟩, ?_⟩
        rintro set ⟨started, closed⟩
        exact least ⟨pass_inside closed started, closed⟩

theorem grow_ends (fuel : Nat) (bound : Finset Node) (started : start ⊆ bound)
    (named : (nodes.map (·.1)).toFinset ⊆ bound) (enough : bound.card < fuel + start.card) :
    ∃ result, grow nodes fuel start = some result := by
  induction fuel generalizing start with
  | zero =>
      have small := Finset.card_le_card started
      omega
  | succ fuel ih =>
      rw [grow]
      split
      · exact ⟨_, rfl⟩
      · rename_i different
        have more : start.card ≤ (pass nodes start).card := Finset.card_le_card subset_pass
        refine ih (pass_subset.trans (Finset.union_subset started named)) ?_
        omega

theorem grow_closure : grow nodes (nodes.length + 1) start = some (closure nodes start) := by
  have counted : (start ∪ (nodes.map (·.1)).toFinset).card ≤ start.card + nodes.length := by
    refine (Finset.card_union_le _ _).trans (Nat.add_le_add_left ?_ _)
    exact (List.toFinset_card_le _).trans (List.length_map _).le
  obtain ⟨result, grown⟩ := grow_ends (nodes.length + 1) (start ∪ (nodes.map (·.1)).toFinset)
    Finset.subset_union_left Finset.subset_union_right (by omega)
  rw [closure, grown, Option.getD_some]

/-- The passes end, with the least closed set that holds the start. -/
theorem closure_isLeast :
    IsLeast {set : Set Node | ↑start ⊆ set ∧ Closed nodes set} ↑(closure nodes start) :=
  grow_isLeast grow_closure

end Kvist.Closure
