import Mathlib.Data.List.Sort
import Std.Data.String.ToNat
import Kvist.Transport.Response

/-!
# Tool calls in fragments

A stream supplies the names and the arguments of its tool calls in fragments, in any order of the
calls. What is put together at the end is what the complete message gives, within the bounds that
only the stream has.
-/

set_option autoImplicit false

namespace Kvist.Transport

open Model
open Kvist.Runtime (ToolIntent)
open Json (Value)

/-! ## The calls by their indices -/

theorem findCall_setCall (index other : Nat) (call : PartialToolCall) (calls : PartialCalls) :
    findCall other (setCall index call calls) =
      if other = index then some call else findCall other calls := by
  induction calls with
  | nil => rfl
  | cons entry rest ih =>
      obtain ⟨key, existing⟩ := entry
      rw [setCall]
      by_cases before : index < key
      · rw [if_pos before]
        rfl
      · rw [if_neg before]
        by_cases same : index = key
        · rw [if_pos same, findCall, findCall]
          by_cases found : other = index
          · rw [if_pos found, if_pos found]
          · rw [if_neg found, if_neg found, if_neg (same ▸ found)]
        · rw [if_neg same, findCall, findCall, ih]
          by_cases found : other = key
          · have different : other ≠ index := fun equal => same (equal.symm.trans found)
            rw [if_pos found, if_neg different, if_pos found]
          · rw [if_neg found, if_neg found]

theorem mem_setCall {index : Nat} {call : PartialToolCall} {calls : PartialCalls}
    {entry : Nat × PartialToolCall} (present : entry ∈ setCall index call calls) :
    entry = (index, call) ∨ entry ∈ calls := by
  induction calls with
  | nil => exact .inl (List.mem_singleton.mp present)
  | cons first rest ih =>
      obtain ⟨key, existing⟩ := first
      rw [setCall] at present
      split at present
      · exact (List.mem_cons.mp present).imp_right id
      · split at present
        · rcases List.mem_cons.mp present with same | inside
          · exact .inl same
          · exact .inr (List.mem_cons_of_mem _ inside)
        · rcases List.mem_cons.mp present with same | inside
          · exact .inr (same ▸ List.mem_cons_self)
          · exact (ih inside).imp_right (List.mem_cons_of_mem _)

def Increasing (calls : PartialCalls) : Prop := calls.Pairwise fun left right => left.1 < right.1

theorem Increasing.setCall {calls : PartialCalls} (increasing : Increasing calls) (index : Nat)
    (call : PartialToolCall) : Increasing (setCall index call calls) := by
  induction calls with
  | nil => exact List.pairwise_singleton _ _
  | cons entry rest ih =>
      obtain ⟨key, existing⟩ := entry
      obtain ⟨above, others⟩ := List.pairwise_cons.mp increasing
      rw [Transport.setCall]
      by_cases before : index < key
      · rw [if_pos before]
        refine List.pairwise_cons.mpr ⟨fun entry present => ?_, increasing⟩
        rcases List.mem_cons.mp present with rfl | inside
        · exact before
        · exact Nat.lt_trans before (above entry inside)
      · rw [if_neg before]
        by_cases same : index = key
        · rw [if_pos same]
          exact List.pairwise_cons.mpr ⟨fun entry present => same ▸ above entry present, others⟩
        · rw [if_neg same]
          refine List.pairwise_cons.mpr ⟨fun entry present => ?_, ih others⟩
          rcases mem_setCall present with rfl | inside
          · exact Nat.lt_of_le_of_ne (Nat.le_of_not_lt before) (Ne.symm same)
          · exact above entry inside

theorem findCall_eq_some_iff {calls : PartialCalls} (increasing : Increasing calls) {index : Nat}
    {call : PartialToolCall} : findCall index calls = some call ↔ (index, call) ∈ calls := by
  induction calls with
  | nil => simp [findCall]
  | cons entry rest ih =>
      obtain ⟨key, existing⟩ := entry
      obtain ⟨above, others⟩ := List.pairwise_cons.mp increasing
      rw [findCall, List.mem_cons, Prod.mk.injEq]
      by_cases same : index = key
      · rw [if_pos same, Option.some.injEq]
        have apart : (index, call) ∉ rest := fun inside =>
          Nat.lt_irrefl index (lt_of_eq_of_lt same (above _ inside))
        constructor
        · intro found
          exact .inl ⟨same, found.symm⟩
        · intro present
          rcases present with found | inside
          · exact found.2.symm
          · exact absurd inside apart
      · rw [if_neg same, ih others]
        simp [same]

/-! ## Fragments -/

structure FunctionFragment where
  name : Option String
  arguments : Option String
  deriving DecidableEq, Repr

/-- What one delta supplies of the call with this index. -/
structure Fragment where
  index : Nat
  id : Option String
  function : Option FunctionFragment
  deriving DecidableEq, Repr

namespace Fragment

def name (fragment : Fragment) : Option String := fragment.function.bind (·.name)

def arguments (fragment : Fragment) : Option String := fragment.function.bind (·.arguments)

end Fragment

/-- The object has the fields of the fragment. Those that are not supplied are absent; the
identity may also be null. -/
structure Supplies (delta : Value) (fragment : Fragment) : Prop where
  index : (delta.get? "index").bind asU64 = some fragment.index
  id : delta.get? "id" = fragment.id.map .string ∨
    fragment.id = none ∧ delta.get? "id" = some .null
  noFunction : fragment.function = none → delta.get? "function" = none
  function : ∀ supplied, fragment.function = some supplied → ∃ members,
    delta.get? "function" = some (.object members) ∧
    (Value.object members).get? "name" = supplied.name.map .string ∧
    (Value.object members).get? "arguments" = supplied.arguments.map .string

def joinTexts : List String → String
  | [] => ""
  | text :: rest => text ++ joinTexts rest

theorem joinTexts_append (front back : List String) :
    joinTexts (front ++ back) = joinTexts front ++ joinTexts back := by
  induction front with
  | nil => exact (String.empty_append).symm
  | cons text rest ih => rw [List.cons_append, joinTexts, joinTexts, ih, String.append_assoc]

def ofIndex (index : Nat) (fragments : List Fragment) : List Fragment :=
  fragments.filter (·.index == index)

def joinedCall (own : List Fragment) : PartialToolCall where
  providerId := (own.filterMap (·.id)).head?
  name := joinTexts (own.filterMap (·.name))
  arguments := joinTexts (own.filterMap (·.arguments))

def callOf (fragments : List Fragment) (index : Nat) : Option PartialToolCall :=
  if ofIndex index fragments = [] then none else some (joinedCall (ofIndex index fragments))

theorem callOf_getD (fragments : List Fragment) (index : Nat) :
    (callOf fragments index).getD {} = joinedCall (ofIndex index fragments) := by
  rw [callOf]
  by_cases empty : ofIndex index fragments = []
  · rw [if_pos empty, empty]
    rfl
  · rw [if_neg empty]
    rfl

/-- The calls are those of the fragments. -/
structure Represents (fragments : List Fragment) (calls : PartialCalls) : Prop where
  increasing : Increasing calls
  found : ∀ index, findCall index calls = callOf fragments index

theorem ofIndex_append (index : Nat) (before : List Fragment) (fragment : Fragment) :
    ofIndex index (before ++ [fragment]) =
      ofIndex index before ++ if fragment.index = index then [fragment] else [] := by
  rw [ofIndex, List.filter_append, ofIndex]
  congr 1
  by_cases same : fragment.index = index
  · rw [if_pos same, List.filter_cons_of_pos (by simpa using same), List.filter_nil]
  · rw [if_neg same, List.filter_cons_of_neg (by simpa using same), List.filter_nil]

theorem Represents.setCall {before : List Fragment} {calls : PartialCalls}
    (represents : Represents before calls) (fragment : Fragment) :
    Represents (before ++ [fragment])
      (setCall fragment.index (joinedCall (ofIndex fragment.index before ++ [fragment])) calls) := by
  constructor
  · exact represents.increasing.setCall _ _
  · intro index
    rw [findCall_setCall, callOf, ofIndex_append]
    by_cases same : index = fragment.index
    · rw [if_pos same, if_pos same.symm, same, if_neg (by simp)]
    · rw [if_neg same, if_neg (Ne.symm same), List.append_nil, represents.found, callOf]

/-! ## What can be put together -/

def validIdentity (id : String) : Bool :=
  !Text.isBlank id && id.utf8ByteSize ≤ 256 && !id.toList.any isControl

/-- The fragments of one call go through the merge. -/
structure CallMergeable (own : List Fragment) : Prop where
  bounded : ∀ fragment ∈ own, fragment.index < maxTools
  identified : ∀ id ∈ own.filterMap (·.id), validIdentity id = true
  agreed : ∀ id ∈ own.filterMap (·.id), ∀ other ∈ own.filterMap (·.id), id = other
  named : (joinedCall own).name.utf8ByteSize ≤ 128
  argued : (joinedCall own).arguments.utf8ByteSize ≤ maxRecordBytes

def Mergeable (fragments : List Fragment) : Prop :=
  ∀ index, CallMergeable (ofIndex index fragments)

theorem represents_nil : Represents [] [] := ⟨List.Pairwise.nil, fun _ => rfl⟩

theorem callMergeable_nil : CallMergeable [] :=
  ⟨by simp, by simp, by simp, Nat.zero_le _, Nat.zero_le _⟩

theorem mergeable_nil : Mergeable [] := fun _ => callMergeable_nil

/-- The checks of one delta against the call so far. -/
def admits (entry : PartialToolCall) (fragment : Fragment) : Bool :=
  fragment.index < maxTools &&
    fragment.id.all (fun id => validIdentity id && entry.providerId.all (· == id)) &&
    fragment.name.all (fun name => (entry.name ++ name).utf8ByteSize ≤ 128) &&
    fragment.arguments.all fun arguments =>
      (entry.arguments ++ arguments).utf8ByteSize ≤ maxRecordBytes

theorem filterMap_single (field : Fragment → Option String) (fragment : Fragment) :
    [fragment].filterMap field = (field fragment).toList := by
  cases supplied : field fragment with
  | none =>
      rw [List.filterMap_cons_none supplied]
      rfl
  | some text =>
      rw [List.filterMap_cons_some supplied]
      rfl

theorem joinedCall_append (own : List Fragment) (fragment : Fragment) :
    joinedCall (own ++ [fragment]) =
      { providerId := (joinedCall own).providerId <|> fragment.id
        name := (joinedCall own).name ++ fragment.name.getD ""
        arguments := (joinedCall own).arguments ++ fragment.arguments.getD "" } := by
  have join_one : ∀ text : Option String, joinTexts text.toList = text.getD "" := by
    intro text
    cases text with
    | none => rfl
    | some text => exact String.append_empty
  simp only [joinedCall, List.filterMap_append, joinTexts_append, filterMap_single, join_one,
    List.head?_append]
  congr 1
  cases (own.filterMap (·.id)).head? <;> cases fragment.id <;> rfl

theorem CallMergeable.front {own more : List Fragment} (mergeable : CallMergeable (own ++ more)) :
    CallMergeable own := by
  have longer : ∀ front back : String, front.utf8ByteSize ≤ (front ++ back).utf8ByteSize := by
    intro front back
    rw [String.utf8ByteSize_append]
    exact Nat.le_add_right _ _
  have named := mergeable.named
  have argued := mergeable.argued
  simp only [joinedCall, List.filterMap_append, joinTexts_append] at named argued
  constructor
  · exact fun fragment present => mergeable.bounded fragment (List.mem_append_left _ present)
  · intro id present
    apply mergeable.identified
    rw [List.filterMap_append]
    exact List.mem_append_left _ present
  · intro id present other otherPresent
    apply mergeable.agreed
    · rw [List.filterMap_append]
      exact List.mem_append_left _ present
    · rw [List.filterMap_append]
      exact List.mem_append_left _ otherPresent
  · exact Nat.le_trans (longer _ _) named
  · exact Nat.le_trans (longer _ _) argued

theorem head?_all_eq_iff {ids : List String} (agreed : ∀ id ∈ ids, ∀ other ∈ ids, id = other)
    (id : String) : ids.head?.all (· == id) = true ↔ ∀ other ∈ ids, other = id := by
  cases ids with
  | nil => simp
  | cons first rest =>
      simp only [List.head?_cons, Option.all_some, beq_iff_eq]
      constructor
      · intro same other present
        rw [← same]
        exact agreed other present first List.mem_cons_self
      · intro all
        exact all first List.mem_cons_self

/-- One more fragment goes through the merge exactly if the delta passes its checks. -/
theorem callMergeable_append_iff {own : List Fragment} (mergeable : CallMergeable own)
    (fragment : Fragment) :
    CallMergeable (own ++ [fragment]) ↔ admits (joinedCall own) fragment = true := by
  have ids : (own ++ [fragment]).filterMap (·.id) = own.filterMap (·.id) ++ fragment.id.toList := by
    rw [List.filterMap_append, filterMap_single]
  have unnamed : ∀ (text : String) (more : Option String) (limit : Nat),
      text.utf8ByteSize ≤ limit → ((text ++ more.getD "").utf8ByteSize ≤ limit ↔
        more.all (fun more => (text ++ more).utf8ByteSize ≤ limit) = true) := by
    intro text more limit fits
    cases more with
    | none =>
        simp only [Option.getD_none, Option.all_none, iff_true]
        rw [String.append_empty]
        exact fits
    | some more => simp
  have joined := joinedCall_append own fragment
  have name := unnamed (joinedCall own).name fragment.name 128 mergeable.named
  have arguments := unnamed (joinedCall own).arguments fragment.arguments maxRecordBytes
    mergeable.argued
  have same := head?_all_eq_iff mergeable.agreed
  have provider : (joinedCall own).providerId = (own.filterMap (·.id)).head? := rfl
  simp only [admits, Bool.and_eq_true, decide_eq_true_eq]
  rw [← name, ← arguments, Option.all_eq_true]
  simp only [Bool.and_eq_true]
  constructor
  · intro whole
    have named := whole.named
    have argued := whole.argued
    rw [joined] at named argued
    refine ⟨⟨⟨?_, ?_⟩, named⟩, argued⟩
    · exact whole.bounded fragment (List.mem_append_right _ List.mem_cons_self)
    · intro id supplied
      have inside : id ∈ (own ++ [fragment]).filterMap (·.id) := by
        rw [ids, supplied]
        exact List.mem_append_right _ List.mem_cons_self
      refine ⟨whole.identified id inside, ?_⟩
      rw [provider, same]
      intro other present
      apply whole.agreed other _ id inside
      rw [ids]
      exact List.mem_append_left _ present
  · intro checks
    obtain ⟨⟨⟨bounded, identified⟩, named⟩, argued⟩ := checks
    have supplied : ∀ id ∈ fragment.id.toList, validIdentity id = true ∧
        ∀ other ∈ own.filterMap (·.id), other = id := by
      intro id present
      have found := Option.mem_toList.mp present
      obtain ⟨valid, agrees⟩ := identified id found
      rw [provider, same] at agrees
      exact ⟨valid, agrees⟩
    constructor
    · intro other present
      rcases List.mem_append.mp present with inside | last
      · exact mergeable.bounded other inside
      · rw [List.mem_singleton.mp last]
        exact bounded
    · intro id present
      rw [ids] at present
      rcases List.mem_append.mp present with inside | last
      · exact mergeable.identified id inside
      · exact (supplied id last).1
    · intro id present other otherPresent
      rw [ids] at present otherPresent
      rcases List.mem_append.mp present with inside | last
      · rcases List.mem_append.mp otherPresent with otherInside | otherLast
        · exact mergeable.agreed id inside other otherInside
        · exact (supplied other otherLast).2 id inside
      · rcases List.mem_append.mp otherPresent with otherInside | otherLast
        · exact ((supplied id last).2 other otherInside).symm
        · have first := Option.mem_toList.mp last
          have second := Option.mem_toList.mp otherLast
          exact Option.mem_unique first second
    · rw [joined]
      exact named
    · rw [joined]
      exact argued

theorem mergeable_append_iff {before : List Fragment} (mergeable : Mergeable before)
    (fragment : Fragment) :
    Mergeable (before ++ [fragment]) ↔
      admits (joinedCall (ofIndex fragment.index before)) fragment = true := by
  rw [← callMergeable_append_iff (mergeable fragment.index)]
  constructor
  · intro whole
    have own := whole fragment.index
    rwa [ofIndex_append, if_pos rfl] at own
  · intro whole index
    rw [ofIndex_append]
    by_cases same : fragment.index = index
    · rw [if_pos same, ← same]
      exact whole
    · rw [if_neg same, List.append_nil]
      exact mergeable index

theorem Mergeable.front {before more : List Fragment} (mergeable : Mergeable (before ++ more)) :
    Mergeable before := by
  intro index
  have whole := mergeable index
  rw [ofIndex, List.filter_append] at whole
  exact whole.front

/-! ## The merge of the deltas -/

@[simp] theorem toOption_bind {First Second : Type} (first : Except Error First)
    (next : First → Except Error Second) :
    (first >>= next).toOption = first.toOption.bind fun value => (next value).toOption := by
  cases first <;> rfl

@[simp] theorem toOption_ensure (condition : Bool) (error : Error) :
    (ensure condition error).toOption = if condition then some () else none := by
  cases condition <;> rfl

@[simp] theorem toOption_pure {Result : Type} (value : Result) :
    (pure value : Except Error Result).toOption = some value := rfl

@[simp] theorem toOption_ok {Result : Type} (value : Result) :
    (.ok value : Except Error Result).toOption = some value := rfl

@[simp] theorem toOption_malformed {Result : Type} (reason : String) :
    (malformed reason : Except Error Result).toOption = none := rfl

theorem optionalBoundedString_string (text label : String) (maxBytes : Nat) :
    (optionalBoundedString (some (.string text)) label maxBytes).toOption =
      if !Text.isBlank text && text.utf8ByteSize ≤ maxBytes && !text.toList.any isControl then
        some (some text)
      else none := by
  rw [optionalBoundedString]
  split <;> rfl

theorem mergeId_supplied (entry : PartialToolCall) {value : Option Value}
    {supplied : Option String}
    (id : value = supplied.map .string ∨ supplied = none ∧ value = some .null) :
    (mergeId entry value).toOption =
      if supplied.all fun id => validIdentity id && entry.providerId.all (· == id) then
        some { entry with providerId := entry.providerId <|> supplied }
      else none := by
  cases supplied with
  | none =>
      have kept : (entry.providerId <|> none) = entry.providerId := by
        cases entry.providerId <;> rfl
      rcases id with rfl | ⟨-, rfl⟩ <;> simp [mergeId, optionalBoundedString, kept]
  | some text =>
      obtain rfl : value = some (.string text) := by
        rcases id with same | ⟨absent, -⟩
        · exact same
        · cases absent
      have bounded : (optionalBoundedString (some (.string text)) "tool call identity" 256).toOption =
          if validIdentity text = true then some (some text) else none :=
        optionalBoundedString_string text _ 256
      rw [mergeId, toOption_bind, bounded]
      by_cases valid : validIdentity text = true
      · rw [if_pos valid]
        simp only [Option.bind_some, Option.all_some, valid, Bool.true_and, toOption_bind,
          toOption_ensure]
        by_cases same : entry.providerId.all (· == text) = true
        · rw [if_pos same, if_pos same]
          cases known : entry.providerId with
          | none => rfl
          | some existing =>
              rw [known, Option.all_some, beq_iff_eq] at same
              rw [same]
              rfl
        · rw [if_neg same, if_neg same]
          rfl
      · rw [if_neg valid, if_neg (by simp [valid])]
        rfl

theorem mergeName_supplied (entry : PartialToolCall) (supplied : Option String) :
    (mergeName entry (supplied.map .string)).toOption.map Prod.fst =
      if supplied.all fun name => (entry.name ++ name).utf8ByteSize ≤ 128 then
        some { entry with name := entry.name ++ supplied.getD "" }
      else none := by
  cases supplied with
  | none => simp [mergeName]
  | some name =>
      simp only [Option.map_some, mergeName, toOption_bind, toOption_ensure, Option.all_some,
        Option.getD_some]
      split <;> rfl

theorem mergeArguments_supplied (entry : PartialToolCall) (supplied : Option String) :
    (mergeArguments entry (supplied.map .string)).toOption.map Prod.fst =
      if supplied.all fun arguments =>
          (entry.arguments ++ arguments).utf8ByteSize ≤ maxRecordBytes then
        some { entry with arguments := entry.arguments ++ supplied.getD "" }
      else none := by
  cases supplied with
  | none => simp [mergeArguments]
  | some arguments =>
      simp only [Option.map_some, mergeArguments, toOption_bind, toOption_ensure, Option.all_some,
        Option.getD_some]
      split <;> rfl

theorem map_fst_bind {First Second Third : Type} (first : Option (First × Second))
    (next : First → Option Third) :
    (first.bind fun value => next value.1) = (first.map Prod.fst).bind next := by
  cases first <;> rfl

theorem mergeFunction_supplied (entry : PartialToolCall) {delta : Value} {fragment : Fragment}
    (supplies : Supplies delta fragment) :
    (mergeFunction entry (delta.get? "function")).toOption.map Prod.fst =
      if fragment.name.all (fun name => (entry.name ++ name).utf8ByteSize ≤ 128) &&
          fragment.arguments.all fun arguments =>
            (entry.arguments ++ arguments).utf8ByteSize ≤ maxRecordBytes then
        some { entry with
          name := entry.name ++ fragment.name.getD ""
          arguments := entry.arguments ++ fragment.arguments.getD "" }
      else none := by
  cases absent : fragment.function with
  | none =>
      rw [supplies.noFunction absent]
      simp [mergeFunction, Fragment.name, Fragment.arguments, absent]
  | some supplied =>
      obtain ⟨members, object, name, arguments⟩ := supplies.function supplied absent
      rw [object, mergeFunction, name, arguments]
      have named := mergeName_supplied entry supplied.name
      simp only [Fragment.name, Fragment.arguments, absent, Option.bind_some, toOption_bind,
        toOption_pure]
      generalize (mergeName entry (supplied.name.map .string)).toOption = merged at named ⊢
      by_cases passes : (supplied.name.all fun name =>
          decide ((entry.name ++ name).utf8ByteSize ≤ 128)) = true
      · rw [if_pos passes] at named
        rw [passes, Bool.true_and]
        cases merged with
        | none => cases named
        | some result =>
            have same : result.1 = _ := Option.some.inj named
            rw [Option.bind_some, same]
            have argued := mergeArguments_supplied
              { entry with name := entry.name ++ supplied.name.getD "" } supplied.arguments
            rw [← argued]
            cases (mergeArguments { entry with name := entry.name ++ supplied.name.getD "" }
              (supplied.arguments.map .string)).toOption <;> rfl
      · rw [if_neg passes] at named
        rw [if_neg fun both => passes (Bool.and_eq_true_iff.mp both).1]
        cases merged with
        | none => rfl
        | some result => cases named

/-- A delta goes through the merge exactly if it passes the checks, and adds its fragment. -/
theorem mergeOpenaiToolDelta_supplied {before : List Fragment} {calls : PartialCalls}
    (represents : Represents before calls) {delta : Value} {fragment : Fragment}
    (supplies : Supplies delta fragment) :
    (mergeOpenaiToolDelta calls delta).toOption.map Prod.fst =
      if admits (joinedCall (ofIndex fragment.index before)) fragment then
        some (setCall fragment.index
          (joinedCall (ofIndex fragment.index before ++ [fragment])) calls)
      else none := by
  rw [mergeOpenaiToolDelta, supplies.index]
  dsimp only
  rw [represents.found, callOf_getD, joinedCall_append]
  generalize joinedCall (ofIndex fragment.index before) = entry
  rw [toOption_bind, toOption_ensure, admits]
  by_cases bounded : fragment.index < maxTools
  · simp only [bounded, decide_true, if_true, Option.bind_some, Bool.true_and, toOption_bind,
      mergeId_supplied entry supplies.id, toOption_pure]
    by_cases identified : (fragment.id.all fun id =>
        validIdentity id && entry.providerId.all (· == id)) = true
    · rw [if_pos identified, Option.bind_some, identified, Bool.true_and]
      have function := mergeFunction_supplied
        { entry with providerId := entry.providerId <|> fragment.id } supplies
      dsimp only at function
      generalize (mergeFunction { entry with providerId := entry.providerId <|> fragment.id }
        (delta.get? "function")).toOption = merged at function ⊢
      by_cases checks : (fragment.name.all (fun name =>
            decide ((entry.name ++ name).utf8ByteSize ≤ 128)) &&
          fragment.arguments.all fun arguments =>
            decide ((entry.arguments ++ arguments).utf8ByteSize ≤ maxRecordBytes)) = true
      · rw [if_pos checks] at function ⊢
        cases merged with
        | none => cases function
        | some result =>
            have same : result.1 = _ := Option.some.inj function
            rw [Option.bind_some, Option.map_some, same]
      · rw [if_neg checks] at function ⊢
        cases merged with
        | none => rfl
        | some result => cases function
    · rw [if_neg identified, if_neg (by simp [identified])]
      rfl
  · rw [if_neg (by simpa using bounded), if_neg (by simp [bounded])]
    rfl

/-- The fragments that a list of deltas supplies. -/
abbrev SuppliesAll (deltas : List Value) (fragments : List Fragment) : Prop :=
  List.Forall₂ Supplies deltas fragments

theorem mergeOpenaiToolDeltasFrom_supplied {before : List Fragment} {calls : PartialCalls}
    (represents : Represents before calls) (mergeable : Mergeable before) {deltas : List Value}
    {fragments : List Fragment} (supplies : SuppliesAll deltas fragments) :
    (Mergeable (before ++ fragments) →
      ∃ after, Represents (before ++ fragments) after ∧
        (mergeOpenaiToolDeltasFrom calls deltas).toOption.map Prod.fst = some after) ∧
    (¬Mergeable (before ++ fragments) →
      (mergeOpenaiToolDeltasFrom calls deltas).toOption = none) := by
  induction supplies generalizing before calls with
  | nil =>
      rw [List.append_nil]
      refine ⟨fun _ => ⟨calls, represents, rfl⟩, fun refused => absurd mergeable refused⟩
  | @cons delta fragment deltas fragments supplied others ih =>
      have step := mergeOpenaiToolDelta_supplied represents supplied
      have grows := mergeable_append_iff mergeable fragment
      have whole : before ++ fragment :: fragments = before ++ [fragment] ++ fragments :=
        List.append_cons before fragment fragments
      rw [mergeOpenaiToolDeltasFrom, toOption_bind, whole]
      generalize (mergeOpenaiToolDelta calls delta).toOption = merged at step ⊢
      by_cases admitted :
          admits (joinedCall (ofIndex fragment.index before)) fragment = true
      · rw [if_pos admitted] at step
        cases merged with
        | none => cases step
        | some result =>
            obtain ⟨next, progress⟩ := result
            obtain rfl : next = _ := Option.some.inj step
            obtain ⟨accepted, refused⟩ := ih (represents.setCall fragment) (grows.mpr admitted)
            rw [Option.bind_some, toOption_bind]
            constructor
            · intro mergeableAll
              obtain ⟨after, represented, merged⟩ := accepted mergeableAll
              refine ⟨after, represented, ?_⟩
              rw [← merged]
              generalize (mergeOpenaiToolDeltasFrom _ deltas).toOption = rest
              cases rest <;> rfl
            · intro failed
              rw [refused failed]
              rfl
      · rw [if_neg admitted] at step
        cases merged with
        | some result => cases step
        | none =>
            constructor
            · intro mergeableAll
              exact absurd (grows.mp mergeableAll.front) admitted
            · intro _
              rfl

def mergeChunks : PartialCalls → List (Option (List Value)) → Except Error PartialCalls
  | calls, [] => .ok calls
  | calls, chunk :: rest => do
      let (calls, _) ← mergeOpenaiToolDeltas (chunk.map .array) calls
      mergeChunks calls rest

def streamedToolCalls (fromStr : List Char → Except String Value)
    (chunks : List (Option (List Value))) : Except Error (List ToolIntent) := do
  let calls ← mergeChunks [] chunks
  finishOpenaiToolCalls fromStr [] calls

theorem mergeOpenaiToolDeltasFrom_append (calls : PartialCalls) (front back : List Value) :
    (mergeOpenaiToolDeltasFrom calls (front ++ back)).toOption.map Prod.fst =
      ((mergeOpenaiToolDeltasFrom calls front).toOption.map Prod.fst).bind fun calls =>
        (mergeOpenaiToolDeltasFrom calls back).toOption.map Prod.fst := by
  induction front generalizing calls with
  | nil => rfl
  | cons delta rest ih =>
      rw [List.cons_append, mergeOpenaiToolDeltasFrom, mergeOpenaiToolDeltasFrom]
      simp only [toOption_bind, toOption_pure]
      cases (mergeOpenaiToolDelta calls delta).toOption with
      | none => rfl
      | some result =>
          have others := ih result.1
          simp only [Option.bind_some]
          generalize (mergeOpenaiToolDeltasFrom result.1 (rest ++ back)).toOption = both at others ⊢
          generalize (mergeOpenaiToolDeltasFrom result.1 rest).toOption = first at others ⊢
          cases both with
          | none =>
              cases first with
              | none => rfl
              | some next => exact others
          | some last =>
              cases first with
              | none => exact others
              | some next => exact others

theorem mergeChunks_toOption (calls : PartialCalls) (chunks : List (Option (List Value))) :
    (mergeChunks calls chunks).toOption =
      (mergeOpenaiToolDeltasFrom calls (chunks.filterMap id).flatten).toOption.map Prod.fst := by
  induction chunks generalizing calls with
  | nil => rfl
  | cons chunk rest ih =>
      rw [mergeChunks, toOption_bind]
      cases chunk with
      | none =>
          rw [List.filterMap_cons_none rfl, ← ih calls]
          rfl
      | some deltas =>
          have present : (some deltas :: rest).filterMap id = deltas :: rest.filterMap id := rfl
          rw [present, List.flatten_cons, mergeOpenaiToolDeltasFrom_append]
          simp only [ih, Option.map_some, mergeOpenaiToolDeltas]
          exact map_fst_bind _ fun calls =>
            (mergeOpenaiToolDeltasFrom calls (rest.filterMap id).flatten).toOption.map Prod.fst

/-! ## The complete message -/

def optionalMember (name : String) (value : Option Value) : List (String × Value) :=
  value.toList.map fun value => (name, value)

def joinedText (texts : List String) : Option String :=
  if texts = [] then none else some (joinTexts texts)

/-- The call of a complete message, with the fields that the fragments supply. -/
def assembledCall (own : List Fragment) : Value :=
  .object (
    optionalMember "id" ((own.filterMap (·.id)).head?.map .string) ++
    optionalMember "function" (if own.filterMap (·.function) = [] then none else some (.object (
      optionalMember "name" ((joinedText (own.filterMap (·.name))).map .string) ++
      optionalMember "arguments" ((joinedText (own.filterMap (·.arguments))).map .string)))))

def indexBound : List Fragment → Nat
  | [] => 0
  | fragment :: rest => max (fragment.index + 1) (indexBound rest)

/-- The indices that occur, in their order. -/
def indices (fragments : List Fragment) : List Nat :=
  (List.range (indexBound fragments)).filter fun index => ofIndex index fragments ≠ []

/-- The tool calls of the complete message. -/
def assembled (fragments : List Fragment) : Value :=
  .array ((indices fragments).map fun index => assembledCall (ofIndex index fragments))

theorem get?_optionalMembers {name other : String} (different : name ≠ other)
    (first second : Option Value) :
    (Value.object (optionalMember name first ++ optionalMember other second)).get? name = first ∧
      (Value.object (optionalMember name first ++ optionalMember other second)).get? other =
        second := by
  constructor
  · cases first <;> cases second <;> simp [optionalMember, Value.get?, Ne.symm different]
  · cases first <;> cases second <;> simp [optionalMember, Value.get?, different]

/-! ## One call of either kind -/

theorem isControl_toolNameCharacter {character : Char}
    (named : toolNameCharacter character = true) :
    isControl character = false ∧ Text.isWhitespace character = false := by
  have range : character.toNat ≤ 122 ∧ 45 ≤ character.toNat := by
    have letters : character.isAlphanum =
        ((decide ('A'.val ≤ character.val ∧ character.val ≤ 'Z'.val) ||
          decide ('a'.val ≤ character.val) && decide (character.val ≤ 'z'.val)) ||
          decide ('0'.val ≤ character.val) && decide (character.val ≤ '9'.val)) := rfl
    simp only [toolNameCharacter, letters, Bool.or_eq_true, Bool.and_eq_true, decide_eq_true_eq,
      beq_iff_eq, UInt32.le_iff_toNat_le] at named
    have value : character.val.toNat = character.toNat := rfl
    rw [value] at named
    have constants : ('A' : Char).val.toNat = 65 ∧ ('Z' : Char).val.toNat = 90 ∧
        ('a' : Char).val.toNat = 97 ∧ ('z' : Char).val.toNat = 122 ∧
        ('0' : Char).val.toNat = 48 ∧ ('9' : Char).val.toNat = 57 := ⟨rfl, rfl, rfl, rfl, rfl, rfl⟩
    rcases named with ((((upper | lower) | digit) | rfl) | rfl) | rfl
    · have low : 65 ≤ character.toNat := upper.1
      have high : character.toNat ≤ 90 := upper.2
      omega
    · have low : 97 ≤ character.toNat := lower.1
      have high : character.toNat ≤ 122 := lower.2
      omega
    · have low : 48 ≤ character.toNat := digit.1
      have high : character.toNat ≤ 57 := digit.2
      omega
    · decide
    · decide
    · decide
  simp only [isControl, Text.isWhitespace, Bool.or_eq_false_iff, Bool.and_eq_false_iff,
    decide_eq_false_iff_not, beq_eq_false_iff_ne]
  omega

/-- A name that is accepted is a text as the complete message wants it. -/
theorem validateProviderToolName_text {name : String}
    (accepted : (validateProviderToolName name).toOption = some ()) :
    (!Text.isBlank name && name.utf8ByteSize ≤ 128 && !name.toList.any isControl) = true := by
  rw [validateProviderToolName, toOption_ensure] at accepted
  split at accepted
  · rename_i checks
    simp only [Bool.and_eq_true, bne_iff_ne, ne_eq, decide_eq_true_eq, List.all_eq_true] at checks
    obtain ⟨⟨nonempty, short⟩, characters⟩ := checks
    simp only [Bool.and_eq_true, Bool.not_eq_true', decide_eq_true_eq]
    refine ⟨⟨?_, short⟩, ?_⟩
    · rw [← Bool.not_eq_true, Text.isBlank, List.isEmpty_iff]
      intro blank
      cases letters : name.toList with
      | nil =>
          apply nonempty
          rw [← String.ofList_toList (s := name), letters]
      | cons first rest =>
          rw [letters] at blank characters
          have visible := (isControl_toolNameCharacter (characters first List.mem_cons_self)).2
          rw [Text.trimList, Text.trimStart, List.dropWhile_cons_of_neg (by rw [visible]; decide),
            Text.trimEnd, List.rdropWhile_eq_nil_iff] at blank
          have space := blank first List.mem_cons_self
          rw [visible] at space
          cases space
    · rw [List.any_eq_false]
      intro character inside
      rw [(isControl_toolNameCharacter (characters character inside)).1]
      decide
  · cases accepted

theorem requiredBoundedString_string (text label : String) (maxBytes : Nat) :
    (requiredBoundedString (some (.string text)) label maxBytes).toOption =
      if !Text.isBlank text && text.utf8ByteSize ≤ maxBytes && !text.toList.any isControl then
        some text
      else none := by
  rw [requiredBoundedString, toOption_bind, optionalBoundedString_string]
  split <;> rfl

theorem joinedText_arguments (fromStr : List Char → Except String Value) (texts : List String) :
    parseOpenaiArgumentsForTool fromStr ((joinedText texts).map .string) =
      parseOpenaiArgumentsForTool fromStr (some (.string (joinTexts texts))) := by
  rw [joinedText]
  by_cases empty : texts = []
  · rw [if_pos empty, empty]
    rfl
  · rw [if_neg empty]
    rfl

theorem get?_assembledCall (own : List Fragment) :
    (assembledCall own).get? "id" = (joinedCall own).providerId.map .string ∧
      (assembledCall own).get? "function" =
        if own.filterMap (·.function) = [] then none
        else some (.object (
          optionalMember "name" ((joinedText (own.filterMap (·.name))).map .string) ++
          optionalMember "arguments"
            ((joinedText (own.filterMap (·.arguments))).map .string))) :=
  get?_optionalMembers (by decide) _ _

theorem parse_assembledFunction (fromStr : List Char → Except String Value)
    (own : List Fragment) :
    (parseOpenaiFunction fromStr ((assembledCall own).get? "function")).toOption =
      (validateProviderToolName (joinedCall own).name).toOption.bind fun _ =>
        (parseOpenaiArgumentsForTool fromStr
          (some (.string (joinedCall own).arguments))).toOption.map fun arguments =>
            ((joinedCall own).name, arguments) := by
  have unnamed : own.filterMap (·.name) = [] →
      (validateProviderToolName (joinedCall own).name).toOption = none := by
    intro absent
    rw [joinedCall, absent]
    rfl
  rw [(get?_assembledCall own).2]
  by_cases absent : own.filterMap (·.function) = []
  · have names : own.filterMap (·.name) = [] := by
      rw [List.filterMap_eq_nil_iff] at absent ⊢
      intro fragment present
      rw [Fragment.name, absent fragment present]
      rfl
    rw [if_pos absent, unnamed names]
    rfl
  · obtain ⟨name, arguments⟩ := get?_optionalMembers (show "name" ≠ "arguments" by decide)
      ((joinedText (own.filterMap (·.name))).map .string)
      ((joinedText (own.filterMap (·.arguments))).map .string)
    rw [if_neg absent, parseOpenaiFunction]
    simp only [objectOf, Option.filter_some, Value.isObject, if_true]
    rw [name, arguments, joinedText_arguments, joinedText]
    by_cases names : own.filterMap (·.name) = []
    · rw [if_pos names, unnamed names]
      rfl
    · rw [if_neg names]
      simp only [Option.map_some, toOption_bind]
      rw [requiredBoundedString_string]
      have same : joinTexts (own.filterMap (·.name)) = (joinedCall own).name := rfl
      have given : joinTexts (own.filterMap (·.arguments)) = (joinedCall own).arguments := rfl
      rw [same, given]
      cases accepted : (validateProviderToolName (joinedCall own).name).toOption with
      | some valid =>
          rw [if_pos (validateProviderToolName_text accepted), Option.bind_some, accepted]
          simp only [Option.bind_some, toOption_pure]
          cases (parseOpenaiArgumentsForTool fromStr
            (some (.string (joinedCall own).arguments))).toOption <;> rfl
      | none =>
          split
          · rw [Option.bind_some, accepted]
            rfl
          · rfl

theorem parse_assembledCall (fromStr : List Char → Except String Value) (ids : List String)
    (own : List Fragment) :
    (parseOpenaiToolCall fromStr ids (assembledCall own)).toOption =
      if (joinedCall own).providerId.all validIdentity then
        (finishOpenaiToolCall fromStr ids (joinedCall own)).toOption
      else none := by
  rw [parseOpenaiToolCall, finishOpenaiToolCall, (get?_assembledCall own).1]
  cases (joinedCall own).providerId with
  | none => rfl
  | some id =>
      rw [Option.map_some, toOption_bind, requiredBoundedString_string, Option.all_some]
      by_cases valid : validIdentity id = true
      · have text : (!Text.isBlank id && decide (id.utf8ByteSize ≤ 256) &&
            !id.toList.any isControl) = true := valid
        rw [if_pos text, if_pos valid]
        simp only [Option.bind_some, toOption_bind, toOption_pure, parse_assembledFunction]
        congr 1
        funext unique
        cases (validateProviderToolName (joinedCall own).name).toOption with
        | none => rfl
        | some accepted =>
            simp only [Option.bind_some]
            cases (parseOpenaiArgumentsForTool fromStr
              (some (.string (joinedCall own).arguments))).toOption <;> rfl
      · have text : ¬(!Text.isBlank id && decide (id.utf8ByteSize ≤ 256) &&
            !id.toList.any isControl) = true := valid
        rw [if_neg text, if_neg valid]
        rfl

/-! ## The calls of a stream and of the complete message -/

theorem mem_indices {fragments : List Fragment} {index : Nat} :
    index ∈ indices fragments ↔ ofIndex index fragments ≠ [] := by
  have bounded : ∀ (fragments : List Fragment), ∀ fragment ∈ fragments,
      fragment.index < indexBound fragments := by
    intro fragments
    induction fragments with
    | nil =>
        intro fragment present
        cases present
    | cons first rest ih =>
        intro fragment present
        rw [indexBound]
        rcases List.mem_cons.mp present with rfl | inside
        · omega
        · have below := ih fragment inside
          omega
  rw [indices, List.mem_filter, List.mem_range, decide_eq_true_eq]
  constructor
  · exact fun present => present.2
  · intro occurs
    refine ⟨?_, occurs⟩
    obtain ⟨fragment, inside⟩ := List.exists_mem_of_ne_nil _ occurs
    obtain ⟨present, same⟩ := List.mem_filter.mp inside
    rw [← beq_iff_eq.mp same]
    exact bounded fragments fragment present

/-- The calls of a merge are those of the indices that occur, in their order. -/
theorem Represents.calls {fragments : List Fragment} {calls : PartialCalls}
    (represents : Represents fragments calls) :
    calls = (indices fragments).map fun index =>
      (index, joinedCall (ofIndex index fragments)) := by
  have ordered : ((indices fragments).map fun index =>
      (index, joinedCall (ofIndex index fragments))).Pairwise
        fun left right : Nat × PartialToolCall => left.1 < right.1 := by
    rw [List.pairwise_map]
    exact List.pairwise_lt_range.filter _
  have irreflexive : Std.Irrefl fun left right : Nat × PartialToolCall => left.1 < right.1 :=
    ⟨fun entry => Nat.lt_irrefl entry.1⟩
  have antisymmetric : Std.Antisymm fun left right : Nat × PartialToolCall => left.1 < right.1 :=
    ⟨fun left right before after => absurd (Nat.lt_trans before after) (Nat.lt_irrefl _)⟩
  apply List.Pairwise.eq_of_mem_iff represents.increasing ordered
  intro entry
  obtain ⟨index, call⟩ := entry
  rw [← findCall_eq_some_iff represents.increasing, represents.found, callOf, List.mem_map]
  constructor
  · intro found
    by_cases absent : ofIndex index fragments = []
    · rw [if_pos absent] at found
      cases found
    · rw [if_neg absent] at found
      exact ⟨index, mem_indices.mpr absent, by rw [Option.some.inj found]⟩
  · intro present
    obtain ⟨other, occurs, same⟩ := present
    obtain ⟨rfl, rfl⟩ := Prod.mk.inj same
    rw [if_neg (mem_indices.mp occurs)]

theorem finish_eq_parse (fromStr : List Char → Except String Value) (fragments : List Fragment)
    (identified : ∀ index, (joinedCall (ofIndex index fragments)).providerId.all validIdentity = true)
    (own : List Nat) (ids : List String) :
    (finishOpenaiToolCalls fromStr ids (own.map fun index =>
        (index, joinedCall (ofIndex index fragments)))).toOption =
      (parseOpenaiToolCallsFrom fromStr ids (own.map fun index =>
        assembledCall (ofIndex index fragments))).toOption := by
  induction own generalizing ids with
  | nil => rfl
  | cons index rest ih =>
      have call := parse_assembledCall fromStr ids (ofIndex index fragments)
      rw [if_pos (identified index)] at call
      rw [List.map_cons, List.map_cons, finishOpenaiToolCalls, parseOpenaiToolCallsFrom,
        toOption_bind, toOption_bind, call]
      congr 1
      funext intent
      rw [toOption_bind, toOption_bind, ih]

theorem parse_refused {fromStr : List Char → Except String Value} {calls : List Value}
    {call : Value} (present : call ∈ calls)
    (refused : ∀ ids, (parseOpenaiToolCall fromStr ids call).toOption = none) (ids : List String) :
    (parseOpenaiToolCallsFrom fromStr ids calls).toOption = none := by
  induction calls generalizing ids with
  | nil => cases present
  | cons first rest ih =>
      rw [parseOpenaiToolCallsFrom, toOption_bind]
      rcases List.mem_cons.mp present with rfl | inside
      · rw [refused ids]
        rfl
      · cases (parseOpenaiToolCall fromStr ids first).toOption with
        | none => rfl
        | some intent =>
            rw [Option.bind_some, toOption_bind, ih inside]
            rfl

/-- The bounds that only a stream has, and that an identity is supplied whole. -/
structure WithinStream (fragments : List Fragment) : Prop where
  bounded : ∀ fragment ∈ fragments, fragment.index < maxTools
  whole : ∀ fragment ∈ fragments, ∀ other ∈ fragments, fragment.index = other.index →
    ∀ id otherId, fragment.id = some id → other.id = some otherId → id = otherId
  argued : ∀ index, (joinTexts ((ofIndex index fragments).filterMap
    (·.arguments))).utf8ByteSize ≤ maxRecordBytes

theorem mem_filterMap_ofIndex {fragments : List Fragment} {fragment : Fragment}
    (present : fragment ∈ fragments) {id : String} (supplied : fragment.id = some id) :
    id ∈ (ofIndex fragment.index fragments).filterMap (·.id) := by
  apply List.mem_filterMap.mpr
  exact ⟨fragment, List.mem_filter.mpr ⟨present, beq_self_eq_true _⟩, supplied⟩

theorem Mergeable.withinStream {fragments : List Fragment} (mergeable : Mergeable fragments) :
    WithinStream fragments := by
  constructor
  · intro fragment present
    apply (mergeable fragment.index).bounded fragment
    exact List.mem_filter.mpr ⟨present, beq_self_eq_true _⟩
  · intro fragment present other otherPresent same id otherId supplied otherSupplied
    apply (mergeable fragment.index).agreed
    · exact mem_filterMap_ofIndex present supplied
    · rw [same]
      exact mem_filterMap_ofIndex otherPresent otherSupplied
  · exact fun index => (mergeable index).argued

theorem Mergeable.identified {fragments : List Fragment} (mergeable : Mergeable fragments)
    (index : Nat) : (joinedCall (ofIndex index fragments)).providerId.all validIdentity = true := by
  rw [Option.all_eq_true]
  intro id supplied
  exact (mergeable index).identified id (List.mem_of_mem_head? supplied)

theorem finishOpenaiToolCall_unnamed (fromStr : List Char → Except String Value)
    (ids : List String) (call : PartialToolCall) (long : 128 < call.name.utf8ByteSize) :
    (finishOpenaiToolCall fromStr ids call).toOption = none := by
  have refused : (validateProviderToolName call.name).toOption = none := by
    rw [validateProviderToolName, toOption_ensure, if_neg]
    simp only [Bool.and_eq_true, decide_eq_true_eq]
    omega
  rw [finishOpenaiToolCall]
  cases call.providerId with
  | none => rfl
  | some id =>
      simp only [toOption_bind, refused, Option.bind_none]
      cases (ensure (!ids.contains id) Error.duplicateToolCall).toOption <;> rfl

theorem WithinStream.refused {fragments : List Fragment} (within : WithinStream fragments)
    (unmergeable : ¬Mergeable fragments) :
    ∃ index, ofIndex index fragments ≠ [] ∧ ∀ fromStr ids,
      (parseOpenaiToolCall fromStr ids (assembledCall (ofIndex index fragments))).toOption =
        none := by
  obtain ⟨index, failed⟩ := not_forall.mp unmergeable
  have occurs : ofIndex index fragments ≠ [] := by
    intro empty
    apply failed
    rw [empty]
    exact callMergeable_nil
  refine ⟨index, occurs, fun fromStr ids => ?_⟩
  rw [parse_assembledCall]
  by_cases identified :
      (joinedCall (ofIndex index fragments)).providerId.all validIdentity = true
  · rw [if_pos identified]
    apply finishOpenaiToolCall_unnamed
    by_contra short
    apply failed
    have agreed : ∀ id ∈ (ofIndex index fragments).filterMap (·.id),
        ∀ other ∈ (ofIndex index fragments).filterMap (·.id), id = other := by
      intro id present other otherPresent
      obtain ⟨fragment, own, supplied⟩ := List.mem_filterMap.mp present
      obtain ⟨otherFragment, otherOwn, otherSupplied⟩ := List.mem_filterMap.mp otherPresent
      obtain ⟨inside, same⟩ := List.mem_filter.mp own
      obtain ⟨otherInside, otherSame⟩ := List.mem_filter.mp otherOwn
      apply within.whole fragment inside otherFragment otherInside _ id other supplied otherSupplied
      rw [beq_iff_eq.mp same, beq_iff_eq.mp otherSame]
    constructor
    · exact fun fragment present => within.bounded fragment (List.mem_filter.mp present).1
    · intro id present
      rw [joinedCall, Option.all_eq_true] at identified
      cases ids : (ofIndex index fragments).filterMap (·.id) with
      | nil =>
          rw [ids] at present
          cases present
      | cons first rest =>
          have head : first ∈ (ofIndex index fragments).filterMap (·.id) :=
            ids ▸ List.mem_cons_self
          rw [agreed id present first head]
          exact identified first (congrArg List.head? ids)
    · exact agreed
    · exact Nat.le_of_not_lt short
    · exact within.argued index
  · rw [if_neg identified]

/-- Within the bounds of a stream its tool calls are those of the complete message, and both fail
on the same fragments. Outside of them the stream fails. -/
theorem streamedToolCalls_assembled (fromStr : List Char → Except String Value)
    {chunks : List (Option (List Value))} {fragments : List Fragment}
    (supplies : SuppliesAll (chunks.filterMap id).flatten fragments) :
    (WithinStream fragments →
      (streamedToolCalls fromStr chunks).toOption =
        (parseOpenaiToolCalls fromStr (some (assembled fragments))).toOption) ∧
    (¬WithinStream fragments → (streamedToolCalls fromStr chunks).toOption = none) := by
  obtain ⟨accepted, refused⟩ :=
    mergeOpenaiToolDeltasFrom_supplied represents_nil mergeable_nil supplies
  rw [List.nil_append] at accepted refused
  rw [streamedToolCalls, toOption_bind, mergeChunks_toOption]
  by_cases mergeable : Mergeable fragments
  · obtain ⟨calls, represents, merged⟩ := accepted mergeable
    refine ⟨fun _ => ?_, fun outside => absurd mergeable.withinStream outside⟩
    rw [merged, Option.bind_some, represents.calls]
    exact finish_eq_parse fromStr fragments mergeable.identified _ []
  · rw [refused mergeable]
    refine ⟨fun within => ?_, fun _ => rfl⟩
    obtain ⟨index, occurs, failed⟩ := within.refused mergeable
    symm
    apply parse_refused _ (failed fromStr)
    exact List.mem_map.mpr ⟨index, mem_indices.mpr occurs, rfl⟩

/-! ## Two calls in turns -/

private def emptyObject : List Char → Except String Value := fun _ => .ok (.object [])

private def functionDelta (index : Nat) (members : List (String × Value))
    (function : List (String × Value)) : Value :=
  .object (members ++ [("index", Json.natural index), ("function", .object function)])

private def turnChunks : List (Option (List Value)) :=
  [some [functionDelta 1 [("id", .string "b")] [("name", .string "li")]],
    none,
    some [functionDelta 0 [("id", .string "a")] [("name", .string "read")],
      functionDelta 1 [("id", .null)] [("name", .string "st"), ("arguments", .string "\x7b")]],
    some [functionDelta 1 [] [("arguments", .string "\x7d")]]]

private def turnFragments : List Fragment :=
  [⟨1, some "b", some ⟨some "li", none⟩⟩,
    ⟨0, some "a", some ⟨some "read", none⟩⟩,
    ⟨1, none, some ⟨some "st", some "\x7b"⟩⟩,
    ⟨1, none, some ⟨none, some "\x7d"⟩⟩]

theorem asU64_natural {value : Nat} (small : value ≤ maxU64) :
    asU64 (Json.natural value) = some value := by
  simp [Json.natural, asU64, small]

private theorem functionDelta_supplies {members function : List (String × Value)}
    {fragment : Fragment} {supplied : FunctionFragment} {index : Nat}
    (number : (functionDelta index members function).get? "index" =
      some (Json.natural fragment.index))
    (small : fragment.index ≤ maxU64)
    (id : (functionDelta index members function).get? "id" = fragment.id.map .string ∨
      fragment.id = none ∧ (functionDelta index members function).get? "id" = some .null)
    (present : fragment.function = some supplied)
    (object : (functionDelta index members function).get? "function" = some (.object function))
    (name : (Value.object function).get? "name" = supplied.name.map .string)
    (arguments : (Value.object function).get? "arguments" = supplied.arguments.map .string) :
    Supplies (functionDelta index members function) fragment := by
  constructor
  · rw [number, Option.bind_some, asU64_natural small]
  · exact id
  · intro absent
    rw [present] at absent
    cases absent
  · intro other same
    obtain rfl : other = supplied := Option.some.inj (same.symm.trans present)
    exact ⟨function, object, name, arguments⟩

private theorem turnFragments_supplied :
    SuppliesAll (turnChunks.filterMap id).flatten turnFragments := by
  refine .cons ?_ (.cons ?_ (.cons ?_ (.cons ?_ .nil)))
  · exact functionDelta_supplies rfl (by decide) (.inl rfl) rfl rfl rfl rfl
  · exact functionDelta_supplies rfl (by decide) (.inl rfl) rfl rfl rfl rfl
  · exact functionDelta_supplies rfl (by decide) (.inr ⟨rfl, rfl⟩) rfl rfl rfl rfl
  · exact functionDelta_supplies rfl (by decide) (.inl rfl) rfl rfl rfl rfl

theorem streamedToolCalls_assembled_turns :
    (WithinStream turnFragments →
      (streamedToolCalls emptyObject turnChunks).toOption =
        (parseOpenaiToolCalls emptyObject (some (assembled turnFragments))).toOption) ∧
    (¬WithinStream turnFragments → (streamedToolCalls emptyObject turnChunks).toOption = none) :=
  streamedToolCalls_assembled emptyObject turnFragments_supplied

private def splitDeltas : List Value :=
  [functionDelta 0 [("id", .string "ca")] [("name", .string "read")],
    functionDelta 0 [("id", .string "ll")] []]

private def splitFragments : List Fragment :=
  [⟨0, some "ca", some ⟨some "read", none⟩⟩, ⟨0, some "ll", some ⟨none, none⟩⟩]

private theorem splitFragments_supplied : SuppliesAll splitDeltas splitFragments := by
  refine .cons ?_ (.cons ?_ .nil)
  · exact functionDelta_supplies rfl (by decide) (.inl rfl) rfl rfl rfl rfl
  · exact functionDelta_supplies rfl (by decide) (.inl rfl) rfl rfl rfl rfl

/-- An identity in two parts is refused in a stream, and accepted when it is put together. -/
theorem splitIdentity_refused :
    (streamedToolCalls emptyObject (splitDeltas.map fun delta => some [delta])).toOption = none ∧
    (parseOpenaiToolCalls emptyObject (some (.array
      [functionDelta 0 [("id", .string "call")] [("name", .string "read")]]))).toOption.map
        (List.map ToolIntent.id) = some ["call"] := by
  constructor
  · have refused := (mergeOpenaiToolDeltasFrom_supplied represents_nil mergeable_nil
      splitFragments_supplied).2
    have chunks : ((splitDeltas.map fun delta => some [delta]).filterMap id).flatten =
        splitDeltas := rfl
    rw [streamedToolCalls, toOption_bind, mergeChunks_toOption, chunks, refused]
    · rfl
    · intro mergeable
      have agreed := (mergeable 0).agreed "ca" (by decide) "ll" (by decide)
      revert agreed
      decide
  · decide

end Kvist.Transport
