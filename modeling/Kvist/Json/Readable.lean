import Mathlib.Algebra.Group.Nat.Defs
import Kvist.Json.Bytes

/-!
# What a parser reads back

A parser reads back what is printed of the values that it can give: their objects have distinct
names, and their number literals are ones that it prints. Other literals of the same characters,
and members that are repeated, are no part of this.
-/

set_option autoImplicit false

namespace Kvist.Json

namespace Value

mutual

def distinctNames : Value → Bool
  | .null | .boolean _ | .number _ | .string _ => true
  | .array items => distinctNamesOfItems items
  | .object members => decide (members.map (·.1)).Nodup && distinctNamesOfMembers members

def distinctNamesOfItems : List Value → Bool
  | [] => true
  | item :: rest => distinctNames item && distinctNamesOfItems rest

def distinctNamesOfMembers : List (String × Value) → Bool
  | [] => true
  | (_, value) :: rest => distinctNames value && distinctNamesOfMembers rest

end

mutual

def literals : Value → List String
  | .null | .boolean _ | .string _ => []
  | .number literal => [literal]
  | .array items => literalsOfItems items
  | .object members => literalsOfMembers members

def literalsOfItems : List Value → List String
  | [] => []
  | item :: rest => literals item ++ literalsOfItems rest

def literalsOfMembers : List (String × Value) → List String
  | [] => []
  | (_, value) :: rest => literals value ++ literalsOfMembers rest

end

end Value

/-- A value that the parser can give: no object repeats a name, and the parser reads each number
literal, standing alone, as the number that is printed so. -/
structure Readable (fromSlice : List UInt8 → Option Value) (value : Value) : Prop where
  wellFormed : value.wellFormed = true
  distinctNames : value.distinctNames = true
  literals : ∀ literal ∈ value.literals, fromSlice (utf8 literal.toList) = some (.number literal)

abbrev Document (fromSlice : List UInt8 → Option Value) :=
  { value : Value // Readable fromSlice value }

/-- The parser reads natural numbers of 64 bits. What is printed of a value that it can give it
reads with the members in their order, up to its bound of nested arrays and objects, also where a
line feed follows. -/
structure Reads (fromSlice : List UInt8 → Option Value) : Prop where
  naturals : ∀ number < 2 ^ 64, fromSlice (encode (natural number)) = some (natural number)
  documents : ∀ document : Document fromSlice, ∀ blank ∈ [[], [newline]],
    fromSlice (encode document.val ++ blank) =
      if document.val.depth < 128 then some document.val else none

theorem wellFormedMembers_iff {members : List (String × Value)} :
    Value.wellFormedMembers members = true ↔ ∀ member ∈ members, member.2.wellFormed = true := by
  induction members with
  | nil => simp [Value.wellFormedMembers]
  | cons member rest rests =>
    rw [Value.wellFormedMembers, Bool.and_eq_true, rests, List.forall_mem_cons]

theorem wellFormedItems_iff {items : List Value} :
    Value.wellFormedItems items = true ↔ ∀ item ∈ items, item.wellFormed = true := by
  induction items with
  | nil => simp [Value.wellFormedItems]
  | cons item rest rests =>
    rw [Value.wellFormedItems, Bool.and_eq_true, rests, List.forall_mem_cons]

theorem distinctNamesOfMembers_iff {members : List (String × Value)} :
    Value.distinctNamesOfMembers members = true ↔
      ∀ member ∈ members, member.2.distinctNames = true := by
  induction members with
  | nil => simp [Value.distinctNamesOfMembers]
  | cons member rest rests =>
    rw [Value.distinctNamesOfMembers, Bool.and_eq_true, rests, List.forall_mem_cons]

theorem distinctNamesOfItems_iff {items : List Value} :
    Value.distinctNamesOfItems items = true ↔ ∀ item ∈ items, item.distinctNames = true := by
  induction items with
  | nil => simp [Value.distinctNamesOfItems]
  | cons item rest rests =>
    rw [Value.distinctNamesOfItems, Bool.and_eq_true, rests, List.forall_mem_cons]

theorem mem_literalsOfMembers {members : List (String × Value)} {literal : String} :
    literal ∈ Value.literalsOfMembers members ↔ ∃ member ∈ members, literal ∈ member.2.literals := by
  induction members with
  | nil => simp [Value.literalsOfMembers]
  | cons member rest rests =>
    simp [Value.literalsOfMembers, rests]

theorem mem_literalsOfItems {items : List Value} {literal : String} :
    literal ∈ Value.literalsOfItems items ↔ ∃ item ∈ items, literal ∈ item.literals := by
  induction items with
  | nil => simp [Value.literalsOfItems]
  | cons item rest rests =>
    simp [Value.literalsOfItems, rests]

/-! ## Values of readable parts -/

section Parts

variable {fromSlice : List UInt8 → Option Value}

theorem readable_string (text : String) : Readable fromSlice (.string text) :=
  ⟨rfl, rfl, nofun⟩

theorem readable_boolean (value : Bool) : Readable fromSlice (.boolean value) :=
  ⟨rfl, rfl, nofun⟩

theorem readable_null : Readable fromSlice .null :=
  ⟨rfl, rfl, nofun⟩

theorem readable_natural (reads : Reads fromSlice) {number : Nat} (small : number < 2 ^ 64) :
    Readable fromSlice (natural number) where
  wellFormed := wellFormed_natural number
  distinctNames := rfl
  literals := by
    intro literal member
    rw [List.mem_singleton.mp member]
    exact reads.naturals number small

theorem readable_array {items : List Value} (each : ∀ item ∈ items, Readable fromSlice item) :
    Readable fromSlice (.array items) where
  wellFormed := wellFormedItems_iff.mpr fun item member => (each item member).wellFormed
  distinctNames := distinctNamesOfItems_iff.mpr fun item member => (each item member).distinctNames
  literals := by
    intro literal member
    obtain ⟨item, inside, part⟩ := mem_literalsOfItems.mp member
    exact (each item inside).literals literal part

theorem readable_object {members : List (String × Value)} (distinct : (members.map (·.1)).Nodup)
    (each : ∀ member ∈ members, Readable fromSlice member.2) :
    Readable fromSlice (.object members) where
  wellFormed := wellFormedMembers_iff.mpr fun member inside => (each member inside).wellFormed
  distinctNames := by
    rw [Value.distinctNames, decide_eq_true distinct, Bool.true_and, distinctNamesOfMembers_iff]
    exact fun member inside => (each member inside).distinctNames
  literals := by
    intro literal member
    obtain ⟨owner, inside, part⟩ := mem_literalsOfMembers.mp member
    exact (each owner inside).literals literal part

theorem readable_record {names : List String} {values : List Value} (distinct : names.Nodup)
    (same : names.length = values.length) (each : ∀ value ∈ values, Readable fromSlice value) :
    Readable fromSlice (.object (names.zip values)) := by
  apply readable_object
  · rw [List.map_fst_zip (Nat.le_of_eq same)]
    exact distinct
  · intro member inside
    exact each member.2 (List.of_mem_zip inside).2

/-- What is printed of a readable value within the bound is read back. -/
theorem Reads.encode (reads : Reads fromSlice) {value : Value}
    (readable : Readable fromSlice value) :
    fromSlice (encode value) = if value.depth < 128 then some value else none := by
  have read := reads.documents ⟨value, readable⟩ [] List.mem_cons_self
  rwa [List.append_nil] at read

end Parts

end Kvist.Json
