import Kvist.TaskQueue.Decode
import Kvist.Yaml.Mapping

/-!
# Two readings of one document

A queue that is read straight from its text and a queue that is read from the untyped document
are the same queue, when both readings succeed.
-/

set_option autoImplicit false

namespace Kvist.Queue

open Yaml

variable {α : Type}

/-- What the fields of a record say when it is read as this task. -/
structure TaskReads (view : View) (fields : List (String × Value)) (task : Task) : Prop where
  id : requiredField fields "id" view.text = some task.id
  title : requiredField fields "title" view.text = some task.title
  description : requiredField fields "description" view.text = some task.description
  context : requiredField fields "context" view.text = some task.context
  purpose : requiredField fields "purpose" view.text = some task.purpose
  expectedOutcome : requiredField fields "expected_outcome" view.text = some task.expectedOutcome
  kind : requiredField fields "kind" (view.choice taskKindChoices) = some task.kind
  status : requiredField fields "status" (view.choice taskStatusChoices) = some task.status
  dependsOn : requiredField fields "depends_on" (view.list view.text) = some task.dependsOn
  requirements : requiredField fields "requirements" (view.list view.text) = some task.requirements
  timestamps : requiredField fields "timestamps" (decodeTimestamps view) = some task.timestamps
  blockedReason : optionalField fields "blocked_reason" view.text = some task.blockedReason
  recoveryState :
    optionalField fields "recovery_state" (decodeRecoveryState view) = some task.recoveryState
  acceptanceId : optionalField fields "acceptance_id" view.text = some task.acceptanceId
  disposition :
    optionalField fields "disposition" (view.choice dispositionChoices) = some task.disposition

theorem decodeTask_some {view : View} {value : Value} {task : Task}
    (read : decodeTask view value = some task) :
    ∃ fields, view.fields taskFields value = some fields ∧ TaskReads view fields task := by
  obtain ⟨fields, record, read⟩ := Option.bind_eq_some_iff.mp read
  obtain ⟨id, idRead, read⟩ := Option.bind_eq_some_iff.mp read
  obtain ⟨title, titleRead, read⟩ := Option.bind_eq_some_iff.mp read
  obtain ⟨description, descriptionRead, read⟩ := Option.bind_eq_some_iff.mp read
  obtain ⟨context, contextRead, read⟩ := Option.bind_eq_some_iff.mp read
  obtain ⟨purpose, purposeRead, read⟩ := Option.bind_eq_some_iff.mp read
  obtain ⟨outcome, outcomeRead, read⟩ := Option.bind_eq_some_iff.mp read
  obtain ⟨kind, kindRead, read⟩ := Option.bind_eq_some_iff.mp read
  obtain ⟨status, statusRead, read⟩ := Option.bind_eq_some_iff.mp read
  obtain ⟨dependencies, dependenciesRead, read⟩ := Option.bind_eq_some_iff.mp read
  obtain ⟨requirements, requirementsRead, read⟩ := Option.bind_eq_some_iff.mp read
  obtain ⟨timestamps, timestampsRead, read⟩ := Option.bind_eq_some_iff.mp read
  obtain ⟨blocked, blockedRead, read⟩ := Option.bind_eq_some_iff.mp read
  obtain ⟨recovery, recoveryRead, read⟩ := Option.bind_eq_some_iff.mp read
  obtain ⟨acceptance, acceptanceRead, read⟩ := Option.bind_eq_some_iff.mp read
  obtain ⟨disposition, dispositionRead, read⟩ := Option.bind_eq_some_iff.mp read
  obtain rfl := Option.some.inj read
  exact ⟨fields, record, {
    id := idRead, title := titleRead, description := descriptionRead, context := contextRead
    purpose := purposeRead, expectedOutcome := outcomeRead, kind := kindRead
    status := statusRead, dependsOn := dependenciesRead, requirements := requirementsRead
    timestamps := timestampsRead, blockedReason := blockedRead, recoveryState := recoveryRead
    acceptanceId := acceptanceRead, disposition := dispositionRead }⟩

/-- Two results that are never different values. -/
def Same (left right : Option α) : Prop :=
  ∀ leftResult rightResult, left = some leftResult → right = some rightResult →
    leftResult = rightResult

theorem Same.refl (result : Option α) : Same result result := by
  rintro leftResult rightResult rfl same
  exact Option.some.inj same

theorem Same.bind {β : Type} {left right : Option α} {leftNext rightNext : α → Option β}
    (same : Same left right) (next : ∀ result, Same (leftNext result) (rightNext result)) :
    Same (left.bind leftNext) (right.bind rightNext) := by
  intro leftResult rightResult leftRead rightRead
  obtain ⟨leftFirst, leftFound, leftRead⟩ := Option.bind_eq_some_iff.mp leftRead
  obtain ⟨rightFirst, rightFound, rightRead⟩ := Option.bind_eq_some_iff.mp rightRead
  obtain rfl := same leftFirst rightFirst leftFound rightFound
  exact next leftFirst leftResult rightResult leftRead rightRead

theorem Same.map {β : Type} {left right : Option α} (same : Same left right) (f : α → β) :
    Same (left.map f) (right.map f) := by
  rw [Option.map_eq_bind, Option.map_eq_bind]
  exact same.bind fun result => Same.refl _

/-- Two readings that never give different values. -/
def Agree (left right : Value → Option α) : Prop := ∀ value, Same (left value) (right value)

structure ViewsAgree (left right : View) : Prop where
  text : Agree left.text right.text
  sequence : Agree left.sequence right.sequence

theorem typed_untyped_agree : ViewsAgree typedView untypedView where
  text := by
    intro value leftText rightText typed untyped
    cases value with
    | plain text resolved =>
        cases resolved <;> simp_all [typedView, untypedView]
    | quoted text => simp_all [typedView, untypedView]
    | sequence items => cases typed
    | mapping entries => cases typed
  sequence := by
    intro value leftItems rightItems typed untyped
    cases value with
    | plain text resolved =>
        have rightEmpty : rightItems = [] := by
          cases resolved <;> simp_all [untypedView]
        have leftEmpty : leftItems = [] := by
          simp only [typedView] at typed
          split at typed
          case h_1 same => cases same
          case h_2 => exact (Option.some.inj typed).symm
          case h_3 => cases typed
        rw [leftEmpty, rightEmpty]
    | quoted text => cases untyped
    | sequence items => simp_all [typedView, untypedView]
    | mapping entries => cases typed

section ViewsAgree

variable {left right : View} {leftDecode rightDecode : Value → Option α}

private theorem mapM_agree {β : Type} {leftDecode rightDecode : β → Option α}
    (agree : ∀ item, Same (leftDecode item) (rightDecode item)) (items : List β) :
    Same (items.mapM leftDecode) (items.mapM rightDecode) := by
  induction items with
  | nil => exact Same.refl _
  | cons item rest ih =>
      rw [List.mapM_cons, List.mapM_cons]
      exact (agree item).bind fun _ => ih.bind fun _ => Same.refl _

theorem ViewsAgree.list (views : ViewsAgree left right) (agree : Agree leftDecode rightDecode) :
    Agree (left.list leftDecode) (right.list rightDecode) :=
  fun value => (views.sequence value).bind fun items => mapM_agree agree items

theorem ViewsAgree.choice (views : ViewsAgree left right) (choices : List (String × α)) :
    Agree (left.choice choices) (right.choice choices) :=
  fun value => (views.text value).bind fun _ => Same.refl _

theorem ViewsAgree.fields (views : ViewsAgree left right) (known : List String) :
    Agree (left.fields known) (right.fields known) := by
  intro value
  cases value with
  | plain _ _ | quoted _ | sequence _ => exact Same.refl none
  | mapping entries =>
      refine (mapM_agree (fun entry => ?_) entries).bind fun _ => Same.refl _
      exact (views.text entry.1).bind fun _ => Same.refl _

variable {fields : List (String × Value)} {name : String}

private theorem required_agree (agree : Agree leftDecode rightDecode) :
    Same (requiredField fields name leftDecode) (requiredField fields name rightDecode) :=
  (Same.refl _).bind agree

private theorem optional_agree (agree : Agree leftDecode rightDecode) :
    Same (optionalField fields name leftDecode) (optionalField fields name rightDecode) := by
  unfold optionalField
  cases fields.lookup name with
  | none => exact Same.refl _
  | some value =>
      cases null : value.isNull with
      | true => simpa only [null, if_true] using Same.refl _
      | false => simpa only [null, Bool.false_eq_true, if_false] using (agree value).map some

end ViewsAgree

section Decoders

variable {left right : View} (views : ViewsAgree left right)

include views

private theorem decodeTimestamp_agree : Agree (decodeTimestamp left) (decodeTimestamp right) :=
  fun value => (views.text value).map Timestamp.mk

private theorem decodeParentContract_agree :
    Agree (decodeParentContract left) (decodeParentContract right) :=
  fun value => (views.fields _ value).bind fun _ =>
    (required_agree views.text).bind fun _ =>
    (required_agree views.text).bind fun _ => Same.refl _

private theorem decodeCause_agree : Agree (decodeCause left) (decodeCause right) :=
  fun value => (views.fields _ value).bind fun _ =>
    (required_agree (views.choice _)).bind fun _ =>
    (required_agree views.text).bind fun _ =>
    (required_agree views.text).bind fun _ =>
    (required_agree views.text).bind fun _ => Same.refl _

private theorem decodeRevalidation_agree :
    Agree (decodeRevalidation left) (decodeRevalidation right) :=
  fun value => (views.fields _ value).bind fun _ =>
    (required_agree (views.choice _)).bind fun _ =>
    (required_agree (decodeTimestamp_agree views)).bind fun _ =>
    (optional_agree (decodeTimestamp_agree views)).bind fun _ =>
    (required_agree (views.list (decodeCause_agree views))).bind fun _ => Same.refl _

private theorem decodeComponent_agree : Agree (decodeComponent left) (decodeComponent right) :=
  fun value => (views.fields _ value).bind fun _ =>
    (required_agree views.text).bind fun _ =>
    (required_agree views.text).bind fun _ =>
    (required_agree views.text).bind fun _ =>
    (optional_agree (decodeParentContract_agree views)).bind fun _ =>
    (required_agree (decodeRevalidation_agree views)).bind fun _ => Same.refl _

private theorem decodeTimestamps_agree :
    Agree (decodeTimestamps left) (decodeTimestamps right) :=
  fun value => (views.fields _ value).bind fun _ =>
    (required_agree (decodeTimestamp_agree views)).bind fun _ =>
    (required_agree (decodeTimestamp_agree views)).bind fun _ =>
    (optional_agree (decodeTimestamp_agree views)).bind fun _ => Same.refl _

private theorem decodeRecoveryState_agree :
    Agree (decodeRecoveryState left) (decodeRecoveryState right) :=
  fun value => (views.fields _ value).bind fun _ =>
    (required_agree (views.choice _)).bind fun _ =>
    (required_agree views.text).bind fun _ =>
    (required_agree views.text).bind fun _ => Same.refl _

private theorem decodeTask_agree : Agree (decodeTask left) (decodeTask right) :=
  fun value => (views.fields _ value).bind fun _ =>
    (required_agree views.text).bind fun _ =>
    (required_agree views.text).bind fun _ =>
    (required_agree views.text).bind fun _ =>
    (required_agree views.text).bind fun _ =>
    (required_agree views.text).bind fun _ =>
    (required_agree views.text).bind fun _ =>
    (required_agree (views.choice _)).bind fun _ =>
    (required_agree (views.choice _)).bind fun _ =>
    (required_agree (views.list views.text)).bind fun _ =>
    (required_agree (views.list views.text)).bind fun _ =>
    (required_agree (decodeTimestamps_agree views)).bind fun _ =>
    (optional_agree views.text).bind fun _ =>
    (optional_agree (decodeRecoveryState_agree views)).bind fun _ =>
    (optional_agree views.text).bind fun _ =>
    (optional_agree (views.choice _)).bind fun _ => Same.refl _

theorem decodeQueue_agree : Agree (decodeQueue left) (decodeQueue right) :=
  fun value => (views.fields _ value).bind fun _ => (Same.refl _).bind fun _ =>
    (required_agree (decodeComponent_agree views)).bind fun _ =>
    (required_agree (views.list (decodeTask_agree views))).bind fun _ => Same.refl _

end Decoders

end Kvist.Queue
