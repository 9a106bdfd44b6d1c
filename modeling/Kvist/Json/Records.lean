import Mathlib.Data.List.Nodup
import Kvist.Json.Canonical

/-!
# Records in JSON

A record is read from its named fields, each of them once and no others, or from its fields in
order. An alternative of a sum is a record with one more field that names it.
-/

set_option autoImplicit false

namespace Kvist.Json

def member? (name : String) (members : List (String × Value)) : Option Value :=
  (members.find? (·.1 == name)).map (·.2)

def recordFields (names : List String) : Value → Option (List Value)
  | .object members =>
      if (members.map (·.1)).Nodup ∧ ∀ member ∈ members, member.1 ∈ names then
        names.mapM fun name => member? name members
      else none
  | .array items => if items.length = names.length then some items else none
  | _ => none

/-- The name of the alternative, and the record without it. -/
def taggedContent (tag : String) : Value → Option (String × Value)
  | .object members =>
      if (members.filter (·.1 == tag)).length = 1 then
        (((member? tag members).bind Value.asStr?).map fun name =>
          (name, .object (members.filter (·.1 != tag))))
      else none
  | .array (.string name :: items) => some (name, .array items)
  | _ => none

def insertMember (name : String) (value : Value) : Value → Value
  | .object members => .object (sortByName ((name, value) :: members.filter (·.1 != name)))
  | other => other

/-! ## Rules -/

theorem member?_zip {names : List String} {values : List Value} (distinct : names.Nodup)
    (same : names.length = values.length) :
    names.mapM (fun name => member? name (names.zip values)) = some values := by
  suffices general : ∀ front : List (String × Value), (∀ member ∈ front, member.1 ∉ names) →
      names.mapM (fun name => member? name (front ++ names.zip values)) = some values from
    general [] (by simp)
  induction names generalizing values with
  | nil =>
      intro front apart
      rw [List.length_eq_zero_iff.mp same.symm]
      rfl
  | cons name names ih =>
      intro front apart
      obtain ⟨fresh, distinct⟩ := List.nodup_cons.mp distinct
      cases values with
      | nil => cases same
      | cons value values =>
          have missed : front.find? (·.1 == name) = none := by
            rw [List.find?_eq_none]
            intro member inside equal
            exact apart member inside (by simp [beq_iff_eq.mp equal])
          have first : member? name (front ++ (name :: names).zip (value :: values)) =
              some value := by
            simp [member?, List.find?_append, missed]
          have others := ih distinct (Nat.succ.inj same) (front ++ [(name, value)]) (by
            intro member inside named
            rcases List.mem_append.mp inside with before | here
            · exact apart member before (List.mem_cons_of_mem _ named)
            · rw [List.mem_singleton.mp here] at named
              exact fresh named)
          rw [List.append_assoc, List.singleton_append] at others
          rw [List.mapM_cons, first]
          simp only [List.zip_cons_cons, others, Option.bind_eq_bind, Option.bind_some]
          rfl

theorem recordFields_zip {names : List String} {values : List Value} (distinct : names.Nodup)
    (same : names.length = values.length) :
    recordFields names (.object (names.zip values)) = some values := by
  have named : (names.zip values).map (·.1) = names := List.map_fst_zip (Nat.le_of_eq same)
  rw [recordFields, if_pos, member?_zip distinct same]
  rw [named]
  exact ⟨distinct, fun member inside => named ▸ List.mem_map_of_mem inside⟩

theorem taggedContent_cons {tag name : String} {members : List (String × Value)}
    (apart : ∀ member ∈ members, member.1 ≠ tag) :
    taggedContent tag (.object ((tag, .string name) :: members)) =
      some (name, .object members) := by
  have others : members.filter (·.1 == tag) = [] := by
    simpa [List.filter_eq_nil_iff] using fun key value member => apart (key, value) member
  have rest : members.filter (·.1 != tag) = members := by
    simpa [List.filter_eq_self] using fun key value member => apart (key, value) member
  simp [taggedContent, others, rest, member?, Value.asStr?]

/-- What is written in the place of a member does not depend on the value that was there. -/
theorem insertMember_eq {name : String} {value : Value} {left right : List (String × Value)}
    (distinct : ((left.filter (·.1 != name)).map (·.1)).Nodup)
    (others : (left.filter (·.1 != name)).Perm (right.filter (·.1 != name))) :
    insertMember name value (.object left) = insertMember name value (.object right) := by
  rw [insertMember, insertMember, sortByName_of_perm _ (others.cons _)]
  rw [List.map_cons, List.nodup_cons]
  refine ⟨fun member => ?_, distinct⟩
  obtain ⟨other, inside, same⟩ := List.mem_map.mp member
  simpa [same] using (List.mem_filter.mp inside).2

theorem sortedMembers_append (front back : List (String × Value)) :
    Value.sortedMembers (front ++ back) = Value.sortedMembers front ++ Value.sortedMembers back := by
  rw [sortedMembers_eq_map, sortedMembers_eq_map, sortedMembers_eq_map,
    List.map_append]

theorem insertMember_sorted {name : String} {value old new : Value}
    {front : List (String × Value)} (distinct : (front.map (·.1)).Nodup)
    (apart : name ∉ front.map (·.1)) :
    insertMember name value (Value.object (front ++ [(name, old)])).sorted =
      insertMember name value (Value.object (front ++ [(name, new)])).sorted := by
  have names := sortedMembers_names front
  have others : ∀ last : Value,
      ((sortByName (Value.sortedMembers (front ++ [(name, last)]))).filter (·.1 != name)).Perm
        (Value.sortedMembers front) := by
    intro last
    refine ((sortByName_perm _).filter _).trans (List.Perm.of_eq ?_)
    rw [sortedMembers_append, List.filter_append, List.filter_eq_self.mpr]
    · simp [Value.sortedMembers]
    · intro member inside
      rw [bne_iff_ne]
      rintro same
      exact apart (names ▸ same ▸ List.mem_map_of_mem inside)
  rw [Value.sorted, Value.sorted]
  apply insertMember_eq
  · exact ((others old).map _).nodup_iff.mpr (names ▸ distinct)
  · exact (others old).trans (others new).symm

end Kvist.Json
