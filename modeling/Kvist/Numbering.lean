import Mathlib.Data.List.Nodup
import Mathlib.Order.Nat
import Kvist.OrderedMap

/-!
# Numbers that are given out once

A table of values under numbers. A value that is not there yet gets the next number, and no number
is ever given out twice, so that what a number stands for stays the same in every later table.
-/

set_option autoImplicit false

namespace Kvist.Numbering

open OrderedMap

variable {Value : Type}

/-- Values under ascending numbers below the next one, none of them twice. -/
structure Table (Value : Type) where
  next : Nat
  entries : List (Nat × Value)
  ascending : Ascending entries
  within : ∀ entry ∈ entries, 0 < entry.1 ∧ entry.1 < next
  positive : 0 < next
  distinct : (entries.map (·.2)).Nodup

/-! ## Tables -/

namespace Table

def empty : Table Value := ⟨1, [], .nil, by simp, by decide, by simp⟩

/-- The later table has every entry of the earlier one and no lower next number. -/
structure Extends (later earlier : Table Value) : Prop where
  entries : earlier.entries <+: later.entries
  next : earlier.next ≤ later.next

theorem Extends.refl (table : Table Value) : table.Extends table :=
  ⟨List.prefix_refl _, Nat.le_refl _⟩

theorem Extends.trans {last middle first : Table Value} (later : last.Extends middle)
    (earlier : middle.Extends first) : last.Extends first :=
  ⟨earlier.entries.trans later.entries, Nat.le_trans earlier.next later.next⟩

/-- A fresh value under the next number. -/
def add (table : Table Value) (value : Value) (fresh : value ∉ table.entries.map (·.2)) :
    Table Value where
  next := table.next + 1
  entries := table.entries ++ [(table.next, value)]
  ascending := by
    rw [Ascending, List.pairwise_append]
    refine ⟨table.ascending, List.pairwise_singleton _ _, ?_⟩
    intro entry member other last
    rw [List.mem_singleton.mp last]
    exact (table.within entry member).2
  within := by
    intro entry member
    rcases List.mem_append.mp member with before | last
    · obtain ⟨positive, below⟩ := table.within entry before
      exact ⟨positive, Nat.lt_succ_of_lt below⟩
    · rw [List.mem_singleton.mp last]
      exact ⟨table.positive, Nat.lt_succ_self _⟩
  positive := Nat.succ_pos _
  distinct := by
    rw [List.map_append, List.map_singleton, List.nodup_append]
    refine ⟨table.distinct, List.nodup_singleton _, ?_⟩
    rintro other member value' last rfl
    have same : other = value := List.mem_singleton.mp last
    exact fresh (same ▸ member)

theorem add_extends (table : Table Value) {value : Value}
    (fresh : value ∉ table.entries.map (·.2)) : (table.add value fresh).Extends table :=
  ⟨List.prefix_append _ _, Nat.le_succ _⟩

theorem number_unique (table : Table Value) {number other : Nat} {value : Value}
    (left : (number, value) ∈ table.entries) (right : (other, value) ∈ table.entries) :
    number = other := by
  exact congrArg Prod.fst (List.inj_on_of_nodup_map table.distinct left right rfl)

theorem value_unique (table : Table Value) {number : Nat} {value other : Value}
    (left : (number, value) ∈ table.entries) (right : (number, other) ∈ table.entries) :
    value = other := by
  have found := (lookup_eq_some_iff table.ascending).mpr left
  rw [(lookup_eq_some_iff table.ascending).mpr right] at found
  exact (Option.some.inj found).symm

section Interning

variable [DecidableEq Value]

def numberOf (value : Value) (entries : List (Nat × Value)) : Option Nat :=
  (entries.find? (·.2 == value)).map (·.1)

theorem mem_of_numberOf {value : Value} {number : Nat} {entries : List (Nat × Value)}
    (found : numberOf value entries = some number) : (number, value) ∈ entries := by
  obtain ⟨entry, first, same⟩ := Option.map_eq_some_iff.mp found
  have equal := List.find?_some first
  rw [beq_iff_eq] at equal
  rw [← same, ← equal]
  exact List.mem_of_find?_eq_some first

theorem fresh_of_numberOf {value : Value} {entries : List (Nat × Value)}
    (missing : numberOf value entries = none) : value ∉ entries.map (·.2) := by
  rw [numberOf, Option.map_eq_none_iff, List.find?_eq_none] at missing
  intro member
  obtain ⟨entry, inside, same⟩ := List.mem_map.mp member
  exact missing entry inside (beq_iff_eq.mpr same)

end Interning

end Table

end Kvist.Numbering
