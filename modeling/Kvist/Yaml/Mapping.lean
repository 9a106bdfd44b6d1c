import Kvist.Outcome
import Kvist.Yaml.Value

/-!
# Editing untyped documents

The operations of the YAML library on a loaded document: looking a field up, putting one in
place and dropping fields. A key is a field's name when it resolves to a text.
-/

set_option autoImplicit false

namespace Kvist.Yaml

/-- `Value::Null`. -/
def Value.null : Value := .plain "null" .null

/-- `Value::Bool`. -/
def Value.bool (value : Bool) : Value := .plain (toString value) (.boolean value)

/-- `as_str`. -/
def Value.str? (value : Value) : Option String := untypedView.text value

/-- `as_sequence`. -/
def Value.items? : Value → Option (List Value)
  | .sequence items => some items
  | _ => none

/-- `as_mapping`. -/
def Value.entries? : Value → Option (List (Value × Value))
  | .mapping entries => some entries
  | _ => none

def isNamed (name : String) (entry : Value × Value) : Bool := entry.1.str? == some name

/-- `Mapping::get`. -/
def getField (name : String) (entries : List (Value × Value)) : Option Value :=
  (entries.find? (isNamed name)).map (·.2)

/-- `Mapping::insert`: a present field keeps its place, an absent one comes last. -/
def insertField (name : String) (value : Value) : List (Value × Value) → List (Value × Value)
  | [] => [(.quoted name, value)]
  | entry :: rest =>
      if isNamed name entry then (entry.1, value) :: rest
      else entry :: insertField name value rest

/-- `entry(name).or_insert(value)`. -/
def insertMissing (name : String) (value : Value) (entries : List (Value × Value)) :
    List (Value × Value) :=
  if (getField name entries).isSome then entries else insertField name value entries

def Value.get (name : String) : Value → Option Value
  | .mapping entries => getField name entries
  | _ => none

/-- `value[name]` where the value is only read. -/
def Value.index (value : Value) (name : String) : Value := (value.get name).getD .null

/-- What the field `name` of a document is read as. -/
def Value.read {α : Type} (value : Value) (name : String) (decode : Value → Option α) : Option α :=
  (value.get name).bind decode

@[simp] theorem str?_quoted (text : String) : (Value.quoted text).str? = some text := rfl

@[simp] theorem str?_null : Value.null.str? = none := rfl

@[simp] theorem isNull_null : Value.null.isNull = true := rfl

@[simp] theorem isNull_quoted (text : String) : (Value.quoted text).isNull = false := rfl

@[simp] theorem Value.get_mapping (name : String) (entries : List (Value × Value)) :
    (Value.mapping entries).get name = getField name entries := rfl

@[simp] theorem Value.index_mapping (name : String) (entries : List (Value × Value)) :
    (Value.mapping entries).index name = (getField name entries).getD .null := rfl

theorem Value.isNull_eq_true {value : Value} (null : value.isNull = true) :
    value.str? = none := by
  unfold Value.isNull at null
  split at null
  · rfl
  · cases null

theorem getField_cons (name : String) (entry : Value × Value) (rest : List (Value × Value)) :
    getField name (entry :: rest) =
      if isNamed name entry then some entry.2 else getField name rest := by
  unfold getField
  rw [List.find?_cons]
  cases isNamed name entry <;> rfl

/-- The field put in place is the one found under its name. -/
@[simp] theorem getField_insertField (name : String) (value : Value)
    (entries : List (Value × Value)) :
    getField name (insertField name value entries) = some value := by
  induction entries with
  | nil => simp [insertField, getField_cons, isNamed]
  | cons entry rest ih =>
      unfold insertField
      by_cases named : isNamed name entry = true
      · have kept : isNamed name (entry.1, value) = true := named
        rw [if_pos named, getField_cons, if_pos kept]
      · rw [if_neg named, getField_cons, if_neg named, ih]

theorem getField_insertField_of_ne {name other : String} (different : other ≠ name)
    (value : Value) (entries : List (Value × Value)) :
    getField other (insertField name value entries) = getField other entries := by
  induction entries with
  | nil =>
      have absent : isNamed other (.quoted name, value) = false := by
        simp [isNamed, different.symm]
      simp [insertField, getField_cons, absent]
  | cons entry rest ih =>
      unfold insertField
      by_cases named : isNamed name entry = true
      · have key : entry.1.str? = some name := by simpa [isNamed] using named
        have skipped : ∀ value, isNamed other (entry.1, value) = false := by
          intro value
          simp [isNamed, key, different.symm]
        rw [if_pos named, getField_cons, getField_cons, skipped value, skipped entry.2]
        rfl
      · rw [if_neg named, getField_cons, getField_cons, ih]

/-- Dropping other fields does not change what is found under a kept name. -/
theorem getField_filter {name : String} {keep : Value × Value → Bool}
    (kept : ∀ entry, isNamed name entry = true → keep entry = true)
    (entries : List (Value × Value)) :
    getField name (entries.filter keep) = getField name entries := by
  induction entries with
  | nil => rfl
  | cons entry rest ih =>
      by_cases keeps : keep entry = true
      · rw [List.filter_cons_of_pos keeps, getField_cons, getField_cons, ih]
      · have other : ¬ isNamed name entry = true := fun named => keeps (kept entry named)
        rw [List.filter_cons_of_neg keeps, ih, getField_cons, if_neg other]

theorem lookup_untyped_fields {known : List String} {value : Value}
    {fields : List (String × Value)} (read : untypedView.fields known value = some fields)
    (name : String) : fields.lookup name = value.get name := by
  cases value with
  | plain _ _ | quoted _ | sequence _ => simp [View.fields] at read
  | mapping entries =>
      simp only [View.fields, Option.bind_eq_bind, Option.bind_eq_some_iff] at read
      obtain ⟨found, gathered, distinct⟩ := read
      split at distinct
      case isFalse => cases distinct
      case isTrue _ =>
        cases distinct
        clear * - gathered
        induction entries generalizing fields with
        | nil =>
            simp only [List.mapM_nil, Option.pure_def, Option.some.injEq] at gathered
            subst gathered
            rfl
        | cons entry rest ih =>
            simp only [List.mapM_cons, Option.bind_eq_bind, Option.bind_eq_some_iff,
              Option.pure_def, Option.some.injEq] at gathered
            obtain ⟨field, ⟨key, keyed, chosen⟩, others, gathered, rfl⟩ := gathered
            split at chosen
            case isFalse => cases chosen
            case isTrue _ =>
              cases chosen
              have keyName : entry.1.str? = some key := keyed
              have tail := ih gathered
              rw [Value.get_mapping] at tail ⊢
              rw [List.lookup_cons, getField_cons, isNamed, keyName, tail]
              by_cases same : name = key
              · subst same
                simp only [beq_self_eq_true, if_true]
              · have left : (name == key) = false := by simpa using same
                have right : (some key == some name) = false := by simpa using Ne.symm same
                simp only [left, right, Bool.false_eq_true, if_false]

theorem requiredField_untyped {α : Type} {known : List String} {value : Value}
    {fields : List (String × Value)} (read : untypedView.fields known value = some fields)
    (name : String) (decode : Value → Option α) :
    requiredField fields name decode = value.read name decode := by
  unfold requiredField Value.read
  rw [lookup_untyped_fields read]
  rfl

/-- Putting a field's own value in place changes nothing. -/
theorem insertField_self {name : String} {value : Value} {entries : List (Value × Value)}
    (found : getField name entries = some value) : insertField name value entries = entries := by
  induction entries with
  | nil => cases found
  | cons entry rest ih =>
      rw [getField_cons] at found
      unfold insertField
      by_cases named : isNamed name entry = true
      · rw [if_pos named] at found ⊢
        cases found
        rfl
      · rw [if_neg named] at found ⊢
        rw [ih found]

end Kvist.Yaml
