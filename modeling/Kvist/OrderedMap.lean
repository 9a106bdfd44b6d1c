import Mathlib

/-!
# Ordered maps

A finite map as the list of its entries in the order of their keys, and a map that carries this
order with it.
-/

set_option autoImplicit false

namespace Kvist.OrderedMap

variable {Key Value : Type} [LinearOrder Key]

def Ascending (entries : List (Key × Value)) : Prop :=
  entries.Pairwise fun left right => left.1 < right.1

def lookup (key : Key) (entries : List (Key × Value)) : Option Value :=
  (entries.find? (·.1 == key)).map (·.2)

def put (key : Key) (value : Value) : List (Key × Value) → List (Key × Value)
  | [] => [(key, value)]
  | entry :: rest =>
      if key < entry.1 then (key, value) :: entry :: rest
      else if key = entry.1 then (key, value) :: rest
      else entry :: put key value rest

variable {entries : List (Key × Value)} {key other : Key} {value : Value}

theorem lookup_cons (entry : Key × Value) (rest : List (Key × Value)) :
    lookup key (entry :: rest) = if entry.1 = key then some entry.2 else lookup key rest := by
  rw [lookup, List.find?_cons]
  split
  · rename_i same
    rw [if_pos (beq_iff_eq.mp same)]
    rfl
  · rename_i different
    rw [if_neg (beq_eq_false_iff_ne.mp different)]
    rfl

theorem lookup_put_same : lookup key (put key value entries) = some value := by
  induction entries with
  | nil => rw [put, lookup_cons, if_pos rfl]
  | cons entry rest ih =>
      rw [put]
      split
      · rw [lookup_cons, if_pos rfl]
      · split
        · rw [lookup_cons, if_pos rfl]
        · rename_i different
          rw [lookup_cons, if_neg fun same => different same.symm, ih]

theorem lookup_put_other (different : other ≠ key) :
    lookup other (put key value entries) = lookup other entries := by
  induction entries with
  | nil => rw [put, lookup_cons, if_neg fun same => different same.symm]
  | cons entry rest ih =>
      rw [put]
      split
      · rw [lookup_cons, if_neg fun same => different same.symm]
      · split
        · rename_i here
          rw [lookup_cons, lookup_cons, if_neg fun same => different same.symm,
            if_neg fun same => different (same.symm.trans here.symm)]
        · rw [lookup_cons, lookup_cons, ih]

theorem put_last (above : ∀ entry ∈ entries, entry.1 < key) :
    put key value entries = entries ++ [(key, value)] := by
  induction entries with
  | nil => rfl
  | cons entry rest ih =>
      have first := above entry List.mem_cons_self
      rw [put, if_neg (not_lt_of_gt first), if_neg (ne_of_gt first),
        ih fun other member => above other (List.mem_cons_of_mem _ member)]
      rfl

/-- Ascending entries are what comes of putting them in one after the other. -/
theorem foldl_put (ascending : Ascending entries) :
    entries.foldl (fun map entry => put entry.1 entry.2 map) [] = entries := by
  suffices general : ∀ front : List (Key × Value), Ascending (front ++ entries) →
      entries.foldl (fun map entry => put entry.1 entry.2 map) front = front ++ entries from
    general [] ascending
  clear ascending
  induction entries with
  | nil => exact fun front _ => (List.append_nil front).symm
  | cons entry rest ih =>
      intro front ascending
      have above : ∀ other ∈ front, other.1 < entry.1 := fun other member =>
        (List.pairwise_append.mp ascending).2.2 other member entry List.mem_cons_self
      rw [List.foldl_cons, put_last above, ih (front ++ [(entry.1, entry.2)])]
      · rw [List.append_assoc, List.singleton_append]
      · rwa [List.append_assoc, List.singleton_append]

theorem mem_put {entry : Key × Value} (member : entry ∈ put key value entries) :
    entry = (key, value) ∨ entry ∈ entries := by
  induction entries with
  | nil => exact .inl (List.mem_singleton.mp member)
  | cons first rest ih =>
      rw [put] at member
      split at member
      · exact List.mem_cons.mp member
      · split at member
        · exact (List.mem_cons.mp member).imp_right (List.mem_cons_of_mem _)
        · rcases List.mem_cons.mp member with rfl | later
          · exact .inr List.mem_cons_self
          · exact (ih later).imp_right (List.mem_cons_of_mem _)

theorem Ascending.put (ascending : Ascending entries) : Ascending (put key value entries) := by
  induction entries with
  | nil => exact List.pairwise_singleton _ _
  | cons entry rest ih =>
      obtain ⟨above, remaining⟩ := List.pairwise_cons.mp ascending
      rw [OrderedMap.put]
      split
      · rename_i small
        refine List.pairwise_cons.mpr ⟨fun other member => ?_, ascending⟩
        rcases List.mem_cons.mp member with rfl | later
        · exact small
        · exact lt_trans small (above other later)
      · rename_i notSmall
        split
        · rename_i same
          exact List.pairwise_cons.mpr ⟨fun other member => same ▸ above other member, remaining⟩
        · rename_i different
          refine List.pairwise_cons.mpr ⟨fun other member => ?_, ih remaining⟩
          rcases mem_put member with rfl | later
          · exact lt_of_le_of_ne (not_lt.mp notSmall) (Ne.symm different)
          · exact above other later

theorem mem_of_lookup (found : lookup key entries = some value) : (key, value) ∈ entries := by
  obtain ⟨entry, first, rfl⟩ := Option.map_eq_some_iff.mp found
  have same := List.find?_some first
  rw [beq_iff_eq] at same
  rw [← same]
  exact List.mem_of_find?_eq_some first

theorem lookup_eq_some_iff (ascending : Ascending entries) :
    lookup key entries = some value ↔ (key, value) ∈ entries := by
  refine ⟨mem_of_lookup, ?_⟩
  induction entries with
  | nil => exact fun impossible => nomatch impossible
  | cons entry rest ih =>
      obtain ⟨above, remaining⟩ := List.pairwise_cons.mp ascending
      intro member
      rw [lookup_cons]
      rcases List.mem_cons.mp member with rfl | later
      · rw [if_pos rfl]
      · rw [if_neg (ne_of_lt (above _ later)), ih remaining later]

theorem lookup_filter {keep : Key × Value → Bool} (ascending : Ascending entries) :
    lookup key (entries.filter keep) =
      (lookup key entries).filter fun value => keep (key, value) := by
  ext value
  rw [lookup_eq_some_iff (ascending.filter keep), Option.filter_eq_some_iff,
    lookup_eq_some_iff ascending, List.mem_filter]

theorem ascending_map_values {change : Value → Value} (ascending : Ascending entries) :
    Ascending (entries.map fun entry => (entry.1, change entry.2)) := by
  rw [Ascending, List.pairwise_map]
  exact ascending

theorem lookup_map_values {change : Value → Value} :
    lookup key (entries.map fun entry => (entry.1, change entry.2)) =
      (lookup key entries).map change := by
  induction entries with
  | nil => rfl
  | cons entry rest ih =>
      rw [List.map_cons, lookup_cons, lookup_cons, ih]
      split
      · rfl
      · rfl

theorem lookup_isSome_iff : (lookup key entries).isSome = true ↔ key ∈ entries.map (·.1) := by
  rw [lookup, Option.isSome_map, List.find?_isSome, List.mem_map]
  simp only [beq_iff_eq]

end Kvist.OrderedMap

namespace Kvist

structure OrderedMap (Key Value : Type) [LinearOrder Key] where
  entries : List (Key × Value)
  ascending : OrderedMap.Ascending entries

namespace OrderedMap

variable {Key Value : Type} [LinearOrder Key]

def empty : OrderedMap Key Value := ⟨[], List.Pairwise.nil⟩

def get (map : OrderedMap Key Value) (key : Key) : Option Value := lookup key map.entries

def insert (map : OrderedMap Key Value) (key : Key) (value : Value) : OrderedMap Key Value :=
  ⟨put key value map.entries, map.ascending.put⟩

def retain (map : OrderedMap Key Value) (keep : Key → Value → Bool) : OrderedMap Key Value :=
  ⟨map.entries.filter fun entry => keep entry.1 entry.2, map.ascending.filter _⟩

def keys (map : OrderedMap Key Value) : List Key := map.entries.map (·.1)

def values (map : OrderedMap Key Value) : List Value := map.entries.map (·.2)

variable {map : OrderedMap Key Value} {key other : Key} {value : Value}

@[simp] theorem get_empty : (empty : OrderedMap Key Value).get key = none := rfl

@[simp] theorem get_insert_same : (map.insert key value).get key = some value := lookup_put_same

theorem get_insert_other (different : other ≠ key) :
    (map.insert key value).get other = map.get other := lookup_put_other different

theorem get_retain {keep : Key → Value → Bool} :
    (map.retain keep).get key = (map.get key).filter (keep key) := lookup_filter map.ascending

theorem get_isSome_iff : (map.get key).isSome = true ↔ key ∈ map.keys := lookup_isSome_iff

theorem keys_nodup : map.keys.Nodup :=
  List.pairwise_map.mpr (map.ascending.imp fun less => ne_of_lt less)

theorem mem_keys_insert :
    other ∈ (map.insert key value).keys ↔ other = key ∨ other ∈ map.keys := by
  rw [← get_isSome_iff, ← get_isSome_iff]
  by_cases same : other = key
  · simp [same]
  · rw [get_insert_other same]
    simp [same]

end OrderedMap

end Kvist
