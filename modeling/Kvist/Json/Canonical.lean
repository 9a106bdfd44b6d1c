import Mathlib.Data.List.Sort
import Mathlib.Data.String.Basic
import Kvist.Json.Parser

/-!
# Values up to the order of members

Two values are the same up to the order of members when sorting the members of every object makes
them equal. This needs that no object has two members of one name.
-/

set_option autoImplicit false

namespace Kvist.Json

mutual

inductive SameUpToOrder : Value → Value → Prop where
  | null : SameUpToOrder .null .null
  | boolean (value : Bool) : SameUpToOrder (.boolean value) (.boolean value)
  | number (literal : String) : SameUpToOrder (.number literal) (.number literal)
  | string (text : String) : SameUpToOrder (.string text) (.string text)
  | array {left right : List Value} :
      SameItems left right → SameUpToOrder (.array left) (.array right)
  | object {left middle right : List (String × Value)} :
      SameMembers left middle → middle.Perm right → SameUpToOrder (.object left) (.object right)

inductive SameItems : List Value → List Value → Prop where
  | nil : SameItems [] []
  | cons {left right : Value} {lefts rights : List Value} :
      SameUpToOrder left right → SameItems lefts rights →
      SameItems (left :: lefts) (right :: rights)

inductive SameMembers : List (String × Value) → List (String × Value) → Prop where
  | nil : SameMembers [] []
  | cons (name : String) {left right : Value} {lefts rights : List (String × Value)} :
      SameUpToOrder left right → SameMembers lefts rights →
      SameMembers ((name, left) :: lefts) ((name, right) :: rights)

end

def sortByName {Item : Type} (members : List (String × Item)) : List (String × Item) :=
  members.mergeSort fun left right => decide (left.1 ≤ right.1)

namespace Value

mutual

def sorted : Value → Value
  | .array items => .array (sortedItems items)
  | .object members => .object (sortByName (sortedMembers members))
  | value => value

def sortedItems : List Value → List Value
  | [] => []
  | item :: rest => sorted item :: sortedItems rest

def sortedMembers : List (String × Value) → List (String × Value)
  | [] => []
  | (name, value) :: rest => (name, sorted value) :: sortedMembers rest

end

end Value

section Sorting

variable {Item : Type} {left right : List (String × Item)}

theorem sortByName_perm (members : List (String × Item)) : (sortByName members).Perm members :=
  List.mergeSort_perm members _

theorem perm_of_sortByName (same : sortByName left = sortByName right) : left.Perm right :=
  (sortByName_perm left).symm.trans (same ▸ sortByName_perm right)

theorem sortByName_of_perm (distinct : (left.map (·.1)).Nodup) (order : left.Perm right) :
    sortByName left = sortByName right := by
  have total : ∀ first second : String × Item,
      (decide (first.1 ≤ second.1) || decide (second.1 ≤ first.1)) = true := by
    intro first second
    simpa using le_total first.1 second.1
  have transitive : ∀ first second third : String × Item,
      decide (first.1 ≤ second.1) = true → decide (second.1 ≤ third.1) = true →
        decide (first.1 ≤ third.1) = true := by
    intro first second third before after
    simpa using le_trans (of_decide_eq_true before) (of_decide_eq_true after)
  have sameItems := (sortByName_perm left).trans (order.trans (sortByName_perm right).symm)
  apply sameItems.eq_of_pairwise _ (List.pairwise_mergeSort transitive total left)
    (List.pairwise_mergeSort transitive total right)
  intro first second firstMember secondMember before after
  have names : first.1 = second.1 :=
    le_antisymm (of_decide_eq_true before) (of_decide_eq_true after)
  have firstThere := (sortByName_perm left).mem_iff.mp firstMember
  have secondThere := order.mem_iff.mpr ((sortByName_perm right).mem_iff.mp secondMember)
  exact List.inj_on_of_nodup_map distinct firstThere secondThere names

end Sorting

theorem sortedMembers_eq_map (members : List (String × Value)) :
    Value.sortedMembers members = members.map fun member => (member.1, member.2.sorted) := by
  induction members with
  | nil => rfl
  | cons member rest rests => rw [Value.sortedMembers, rests, List.map_cons]

theorem sortedMembers_names (members : List (String × Value)) :
    (Value.sortedMembers members).map (·.1) = members.map (·.1) := by
  rw [sortedMembers_eq_map, List.map_map]
  rfl

theorem exists_sortedMembers {left right : List (String × Value)}
    (order : (Value.sortedMembers left).Perm (Value.sortedMembers right)) :
    ∃ middle, Value.sortedMembers left = Value.sortedMembers middle ∧ middle.Perm right := by
  induction left generalizing right with
  | nil =>
    have none : Value.sortedMembers right = [] := order.symm.eq_nil
    rw [sortedMembers_eq_map, List.map_eq_nil_iff] at none
    exact ⟨[], rfl, none ▸ List.Perm.refl _⟩
  | cons member rest rests =>
    have first : (member.1, member.2.sorted) ∈ Value.sortedMembers right :=
      order.mem_iff.mp List.mem_cons_self
    rw [sortedMembers_eq_map] at first
    obtain ⟨partner, among, same⟩ := List.mem_map.mp first
    obtain ⟨before, after, rfl⟩ := List.append_of_mem among
    have moved : (before ++ partner :: after).Perm (partner :: (before ++ after)) :=
      List.perm_middle
    have remaining : (Value.sortedMembers rest).Perm (Value.sortedMembers (before ++ after)) := by
      have whole : (Value.sortedMembers (before ++ partner :: after)).Perm
          (Value.sortedMembers (partner :: (before ++ after))) := by
        rw [sortedMembers_eq_map, sortedMembers_eq_map]
        exact moved.map _
      have shared := order.trans whole
      rw [Value.sortedMembers, Value.sortedMembers, same] at shared
      exact List.Perm.cons_inv shared
    obtain ⟨middle, sameRest, orderRest⟩ := rests remaining
    refine ⟨partner :: middle, ?_, (orderRest.cons partner).trans moved.symm⟩
    rw [Value.sortedMembers, Value.sortedMembers, same, sameRest]

mutual

theorem sorted_of_same {left right : Value} (same : SameUpToOrder left right)
    (distinct : left.distinctNames = true) : left.sorted = right.sorted := by
  cases same with
  | null | boolean _ | number _ | string _ => rfl
  | array items =>
    rw [Value.sorted, Value.sorted, sortedItems_of_same items distinct]
  | @object left middle right members order =>
    rw [Value.distinctNames, Bool.and_eq_true, decide_eq_true_eq] at distinct
    have sameMembers := sortedMembers_of_same members distinct.2
    have distinctMiddle : ((Value.sortedMembers middle).map (·.1)).Nodup := by
      rw [← sameMembers, sortedMembers_names]
      exact distinct.1
    rw [Value.sorted, Value.sorted, sameMembers]
    congr 1
    apply sortByName_of_perm distinctMiddle
    rw [sortedMembers_eq_map, sortedMembers_eq_map]
    exact order.map _

theorem sortedItems_of_same {left right : List Value} (same : SameItems left right)
    (distinct : Value.distinctNamesOfItems left = true) :
    Value.sortedItems left = Value.sortedItems right := by
  cases same with
  | nil => rfl
  | cons first rest =>
    rw [Value.distinctNamesOfItems, Bool.and_eq_true] at distinct
    rw [Value.sortedItems, Value.sortedItems, sorted_of_same first distinct.1,
      sortedItems_of_same rest distinct.2]

theorem sortedMembers_of_same {left right : List (String × Value)} (same : SameMembers left right)
    (distinct : Value.distinctNamesOfMembers left = true) :
    Value.sortedMembers left = Value.sortedMembers right := by
  cases same with
  | nil => rfl
  | cons name first rest =>
    rw [Value.distinctNamesOfMembers, Bool.and_eq_true] at distinct
    rw [Value.sortedMembers, Value.sortedMembers, sorted_of_same first distinct.1,
      sortedMembers_of_same rest distinct.2]

end

mutual

theorem same_of_sorted {left right : Value} (same : left.sorted = right.sorted) :
    SameUpToOrder left right := by
  match left, right with
  | .null, right =>
    cases right <;> cases same
    exact .null
  | .boolean value, right =>
    cases right <;> cases same
    exact .boolean value
  | .number literal, right =>
    cases right <;> cases same
    exact .number literal
  | .string text, right =>
    cases right <;> cases same
    exact .string text
  | .array items, right =>
    cases right with
    | array others =>
      rw [Value.sorted, Value.sorted, Value.array.injEq] at same
      exact .array (sameItems_of_sorted same)
    | null | boolean _ | number _ | string _ | object _ => cases same
  | .object members, right =>
    cases right with
    | object others =>
      rw [Value.sorted, Value.sorted, Value.object.injEq] at same
      obtain ⟨middle, sameMembers, order⟩ := exists_sortedMembers (perm_of_sortByName same)
      exact .object (sameMembers_of_sorted sameMembers) order
    | null | boolean _ | number _ | string _ | array _ => cases same

theorem sameItems_of_sorted {left right : List Value}
    (same : Value.sortedItems left = Value.sortedItems right) : SameItems left right := by
  match left, right with
  | [], [] => exact .nil
  | [], _ :: _ => cases same
  | _ :: _, [] => cases same
  | first :: rest, other :: others =>
    rw [Value.sortedItems, Value.sortedItems, List.cons.injEq] at same
    exact .cons (same_of_sorted same.1) (sameItems_of_sorted same.2)

theorem sameMembers_of_sorted {left right : List (String × Value)}
    (same : Value.sortedMembers left = Value.sortedMembers right) : SameMembers left right := by
  match left, right with
  | [], [] => exact .nil
  | [], _ :: _ => cases same
  | _ :: _, [] => cases same
  | (name, value) :: rest, (other, otherValue) :: others =>
    rw [Value.sortedMembers, Value.sortedMembers, List.cons.injEq, Prod.mk.injEq] at same
    obtain ⟨⟨rfl, sameValue⟩, sameRest⟩ := same
    exact .cons name (same_of_sorted sameValue) (sameMembers_of_sorted sameRest)

end

theorem sorted_eq_iff {left right : Value} (distinct : left.distinctNames = true) :
    left.sorted = right.sorted ↔ SameUpToOrder left right :=
  ⟨same_of_sorted, fun same => sorted_of_same same distinct⟩

mutual

theorem wellFormed_sorted (value : Value) (wellFormed : value.wellFormed = true) :
    value.sorted.wellFormed = true := by
  cases value with
  | null | boolean _ | number _ | string _ => exact wellFormed
  | array items => exact wellFormed_sortedItems items wellFormed
  | object members =>
    have sorted := wellFormedMembers_iff.mp (wellFormed_sortedMembers members wellFormed)
    apply wellFormedMembers_iff.mpr
    intro member among
    exact sorted member ((sortByName_perm _).mem_iff.mp among)

theorem wellFormed_sortedItems (items : List Value)
    (wellFormed : Value.wellFormedItems items = true) :
    Value.wellFormedItems (Value.sortedItems items) = true := by
  match items with
  | [] => rfl
  | item :: rest =>
    rw [Value.wellFormedItems, Bool.and_eq_true] at wellFormed
    rw [Value.sortedItems, Value.wellFormedItems, wellFormed_sorted item wellFormed.1,
      wellFormed_sortedItems rest wellFormed.2]
    rfl

theorem wellFormed_sortedMembers (members : List (String × Value))
    (wellFormed : Value.wellFormedMembers members = true) :
    Value.wellFormedMembers (Value.sortedMembers members) = true := by
  match members with
  | [] => rfl
  | (name, value) :: rest =>
    rw [Value.wellFormedMembers, Bool.and_eq_true] at wellFormed
    rw [Value.sortedMembers, Value.wellFormedMembers, wellFormed_sorted value wellFormed.1,
      wellFormed_sortedMembers rest wellFormed.2]
    rfl

end

theorem compact_injective {left right : Value} (leftFormed : left.wellFormed = true)
    (rightFormed : right.wellFormed = true) (same : compact left = compact right) :
    left = right := by
  have ends : Ends [] := by
    intro first rest empty
    cases empty
  have leftRead := parseValue_compact left leftFormed (compact left).length (Nat.le_refl _) [] ends
  have rightRead := parseValue_compact right rightFormed (compact left).length
    (Nat.le_of_eq (by rw [same])) [] ends
  rw [same] at leftRead
  rw [same, leftRead] at rightRead
  exact (Prod.mk.inj (Option.some.inj rightRead)).1

end Kvist.Json
