import Kvist.Json.Balance
import Kvist.Json.Canonical

/-!
# The identity of an action

An action is hashed as its name and its arguments, whose objects are written with their keys in
order. The bytes tell the name and the arguments apart although nothing stands between them.
-/

set_option autoImplicit false

namespace Kvist.LoopDetection

open Json

/-- The parts of an array or an object, with commas between them. -/
def joined : List (List Char) → List Char
  | [] => []
  | [part] => part
  | part :: rest => part ++ ',' :: joined rest

mutual

def normalizeJson : Value → List Char
  | .null => "null".toList
  | .boolean true => "true".toList
  | .boolean false => "false".toList
  | .number literal => literal.toList
  | .string text => quote text
  | .array items => '[' :: (joined (normalizeItems items) ++ [']'])
  | .object members =>
      let sorted := sortByName (normalizeMembers members)
      '\x7b' :: (joined (sorted.map fun member => quote member.1 ++ ':' :: member.2) ++ ['\x7d'])

def normalizeItems : List Value → List (List Char)
  | [] => []
  | item :: rest => normalizeJson item :: normalizeItems rest

def normalizeMembers : List (String × Value) → List (String × List Char)
  | [] => []
  | (name, value) :: rest => (name, normalizeJson value) :: normalizeMembers rest

end

/-- The bytes that the hash of an action is made of. -/
def actionBytes (toolName : String) (arguments : Value) : List UInt8 :=
  utf8 toolName.toList ++ utf8 (normalizeJson arguments)

def hexEncode (bytes : List UInt8) : String :=
  String.ofList (bytes.flatMap fun byte => [hexDigit (byte.toNat / 16), hexDigit (byte.toNat % 16)])

def computeActionHash (sha256 : List UInt8 → List UInt8) (toolName : String) (arguments : Value) :
    String :=
  "sha256:" ++ hexEncode (sha256 (actionBytes toolName arguments))

/-- Arguments as they are read: an object, in which no object has a key twice. A number is the literal
that is printed for it, so `-0.0` and `0.0` count as different numbers. -/
structure Arguments where
  members : List (String × Value)
  wellFormed : (Value.object members).wellFormed = true
  distinctNames : (Value.object members).distinctNames = true

def Arguments.value (arguments : Arguments) : Value := .object arguments.members

/-! ## The text of the sorted value -/

theorem joined_compactItems (items : List Value) :
    joined (items.map compact) = compactItems items := by
  induction items with
  | nil => rfl
  | cons item rest rests =>
    cases rest with
    | nil => rfl
    | cons next others =>
      rw [compactItems.eq_3 _ _ (by simp), ← rests]
      rfl

theorem joined_compactMembers (members : List (String × Value)) :
    joined (members.map fun member => quote member.1 ++ ':' :: compact member.2) =
      compactMembers members := by
  induction members with
  | nil => rfl
  | cons member rest rests =>
    cases rest with
    | nil => rfl
    | cons next others =>
      rw [compactMembers.eq_3 _ _ _ (by simp), ← rests]
      simp [joined]

theorem sortByName_map {Item Other : Type} (change : Item → Other)
    (members : List (String × Item)) :
    sortByName (members.map fun member => (member.1, change member.2)) =
      (sortByName members).map fun member => (member.1, change member.2) := by
  rw [sortByName, sortByName, List.map_mergeSort]
  intro _ _ _ _
  rfl

mutual

theorem normalizeJson_eq (value : Value) : normalizeJson value = compact value.sorted := by
  cases value with
  | null | number _ | string _ => rfl
  | boolean value => cases value <;> rfl
  | array items =>
    rw [normalizeJson, normalizeItems_eq, joined_compactItems]
    rfl
  | object members =>
    have sorted := sortByName_map compact (Value.sortedMembers members)
    rw [normalizeJson, normalizeMembers_eq, sorted, List.map_map, Value.sorted, compact,
      ← joined_compactMembers]
    rfl

theorem normalizeItems_eq (items : List Value) :
    normalizeItems items = (Value.sortedItems items).map compact := by
  match items with
  | [] => rfl
  | item :: rest =>
    rw [normalizeItems, normalizeJson_eq item, normalizeItems_eq rest]
    rfl

theorem normalizeMembers_eq (members : List (String × Value)) :
    normalizeMembers members =
      (Value.sortedMembers members).map fun member => (member.1, compact member.2) := by
  match members with
  | [] => rfl
  | (name, value) :: rest =>
    rw [normalizeMembers, normalizeJson_eq value, normalizeMembers_eq rest]
    rfl

end

namespace Arguments

variable (arguments : Arguments)

def sortedMembers : List (String × Value) :=
  sortByName (Value.sortedMembers arguments.members)

theorem sorted_value : arguments.value.sorted = .object arguments.sortedMembers := rfl

theorem sorted_wellFormed : (Value.object arguments.sortedMembers).wellFormed = true :=
  wellFormed_sorted arguments.value arguments.wellFormed

end Arguments

theorem normalizeJson_eq_iff {left right : Arguments} :
    normalizeJson left.value = normalizeJson right.value ↔
      SameUpToOrder left.value right.value := by
  have sorted : left.value.sorted = right.value.sorted ↔ SameUpToOrder left.value right.value :=
    sorted_eq_iff left.distinctNames
  rw [normalizeJson_eq, normalizeJson_eq, ← sorted]
  constructor
  · exact compact_injective left.sorted_wellFormed right.sorted_wellFormed
  · exact congrArg compact

/-- A longer name would take in a part of the arguments, and what is left of them would be no
object. -/
theorem name_eq_of_shorter {leftName rightName : List Char} {left right : Arguments}
    (same : leftName ++ normalizeJson left.value = rightName ++ normalizeJson right.value)
    (shorter : leftName.length ≤ rightName.length) : leftName = rightName := by
  have start : leftName = rightName.take leftName.length := by
    have taken := congrArg (List.take leftName.length) same
    rwa [List.take_left, List.take_append_of_le_length shorter] at taken
  have rest : normalizeJson left.value =
      rightName.drop leftName.length ++ normalizeJson right.value := by
    have dropped := congrArg (List.drop leftName.length) same
    rwa [List.drop_left, List.drop_append_of_le_length shorter] at dropped
  rw [normalizeJson_eq, normalizeJson_eq, left.sorted_value, right.sorted_value] at rest
  have none := object_suffix left.sorted_wellFormed right.sorted_wellFormed rest
  rw [start, ← List.append_nil (rightName.take _), ← none, List.take_append_drop]

/-- Equal bytes are of one name and of arguments that are equal up to the order of keys. -/
theorem actionBytes_eq_iff (leftName rightName : String) (left right : Arguments) :
    actionBytes leftName left.value = actionBytes rightName right.value ↔
      leftName = rightName ∧ SameUpToOrder left.value right.value := by
  rw [actionBytes, actionBytes, ← utf8_append, ← utf8_append]
  constructor
  · intro bytes
    have same := utf8_injective bytes
    have names : leftName.toList = rightName.toList := by
      cases Nat.le_total leftName.toList.length rightName.toList.length with
      | inl shorter => exact name_eq_of_shorter same shorter
      | inr longer => exact (name_eq_of_shorter same.symm longer).symm
    refine ⟨String.toList_injective names, ?_⟩
    rw [names] at same
    exact normalizeJson_eq_iff.mp (List.append_cancel_left same)
  · intro identical
    rw [identical.1, normalizeJson_eq_iff.mpr identical.2]

/-- The lines of a file to read. -/
def pathThenRange : Arguments where
  members := [("path", .string "a.rs"), ("range", .object [("from", .number "1"), ("to", .number "2")])]
  wellFormed := by decide
  distinctNames := by decide

/-- The same lines, with the keys of both objects in another order. -/
def rangeThenPath : Arguments where
  members := [("range", .object [("to", .number "2"), ("from", .number "1")]), ("path", .string "a.rs")]
  wellFormed := by decide
  distinctNames := by decide

theorem actionBytes_eq_nested :
    actionBytes "read" pathThenRange.value = actionBytes "read" rangeThenPath.value := by
  refine (actionBytes_eq_iff "read" "read" pathThenRange rangeThenPath).mpr ⟨rfl, ?_⟩
  have range : SameUpToOrder (.object [("from", .number "1"), ("to", .number "2")])
      (.object [("to", .number "2"), ("from", .number "1")]) :=
    .object (.cons "from" (.number "1") (.cons "to" (.number "2") .nil)) (.swap _ _ _)
  exact .object (.cons "path" (.string "a.rs") (.cons "range" range .nil)) (.swap _ _ _)

end Kvist.LoopDetection
