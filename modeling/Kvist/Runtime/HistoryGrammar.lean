import Kvist.Runtime.History

/-!
# The grammar of a history

A history is a sequence of systems, users, text answers and batches. A batch is an assistant
message with calls and directly behind it one result for each call, under its name and in any
order. The groups that are read from a history part its other messages in their order.
-/

set_option autoImplicit false

namespace Kvist.Runtime

def ModelMessage.answered : ModelMessage → Option (String × String)
  | .toolResult callId name _ => some (callId, name)
  | _ => none

/-- The calls of a batch are admitted and have distinct ids, and each of them is answered once. -/
structure CallBatch {κ : Type} (admits : ToolIntent → Prop) (summary : Option κ)
    (toolIntents : List ToolIntent) (results : Keyed κ) : Prop where
  calls : toolIntents ≠ []
  admitted : ∀ intent ∈ toolIntents, admits intent
  distinct : (toolIntents.map (·.id)).Nodup
  uninterrupted : ∀ entry ∈ results, some entry.2 ≠ summary
  answered : (results.map fun entry => entry.1.answered).Perm
    (toolIntents.map fun intent => some (intent.id, intent.name))

/-- The histories and their groups, where `summary` is the key of the rolled-up summary. -/
inductive HistoryGrammar {κ : Type} (admits : ToolIntent → Prop) (summary : Option κ) :
    Keyed κ → List (List κ) → Prop where
  | nil : HistoryGrammar admits summary [] []
  | summary {message : ModelMessage} {key : κ} {rest : Keyed κ} {groups : List (List κ)} :
      some key = summary → HistoryGrammar admits summary rest groups →
      HistoryGrammar admits summary ((message, key) :: rest) groups
  | system {text : String} {key : κ} {rest : Keyed κ} {groups : List (List κ)} :
      some key ≠ summary → HistoryGrammar admits summary rest groups →
      HistoryGrammar admits summary ((.system text, key) :: rest) groups
  | user {text : String} {key : κ} {rest : Keyed κ} {groups : List (List κ)} :
      some key ≠ summary → HistoryGrammar admits summary rest groups →
      HistoryGrammar admits summary ((.user text, key) :: rest) ([key] :: groups)
  | answer {text : String} {key : κ} {rest : Keyed κ} {groups : List (List κ)} :
      some key ≠ summary → HistoryGrammar admits summary rest groups →
      HistoryGrammar admits summary ((.assistant text [], key) :: rest) ([key] :: groups)
  | batch {text : String} {toolIntents : List ToolIntent} {key : κ} {results rest : Keyed κ}
      {groups : List (List κ)} :
      some key ≠ summary → CallBatch admits summary toolIntents results →
      HistoryGrammar admits summary rest groups →
      HistoryGrammar admits summary ((.assistant text toolIntents, key) :: (results ++ rest))
        ((key :: results.map (·.2)) :: groups)

/-- Both the id and the name of a call are nonempty. -/
def WellNamed (intent : ToolIntent) : Prop := intent.id ≠ "" ∧ intent.name ≠ ""

/-! ## Expected results -/

section Batches

private def awaited (toolIntents : List ToolIntent) : List (String × String) :=
  toolIntents.map fun intent => (intent.id, intent.name)

private theorem lookup_isNone_iff {pending : List (String × String)} {callId : String} :
    (pending.lookup callId).isNone = true ↔ callId ∉ pending.map (·.1) := by
  simp only [Option.isNone_iff_eq_none, List.lookup_eq_none_iff, List.mem_map, not_exists, not_and,
    bne_iff_ne]
  exact ⟨fun apart entry member same => apart entry member same.symm,
    fun apart entry member same => apart entry member same.symm⟩

theorem expectResults_ok_iff {toolIntents : List ToolIntent}
    {before after : List (String × String)} (earlier : (before.map (·.1)).Nodup) :
    expectResults toolIntents before = .ok after ↔
      (∀ intent ∈ toolIntents, WellNamed intent) ∧
      (before.map (·.1) ++ toolIntents.map (·.id)).Nodup ∧
      after = before ++ awaited toolIntents := by
  induction toolIntents generalizing before with
  | nil => simp [expectResults, awaited, earlier, eq_comm]
  | cons intent rest ih =>
      have named : (!(intent.id = "" || intent.name = "")) = true ↔ WellNamed intent := by
        simp [WellNamed]
      have moved : (before ++ [(intent.id, intent.name)]).map (·.1) ++ rest.map (·.id) =
          before.map (·.1) ++ (intent :: rest).map (·.id) := by simp
      have gathered : before ++ [(intent.id, intent.name)] ++ awaited rest =
          before ++ awaited (intent :: rest) := by simp [awaited]
      simp only [expectResults, bind_unit_ok_iff, ensure_ok_iff, named, lookup_isNone_iff,
        List.forall_mem_cons]
      constructor
      · intro read
        obtain ⟨own, fresh, continued⟩ := read
        have later : ((before ++ [(intent.id, intent.name)]).map (·.1)).Nodup := by
          rw [List.map_append, List.map_singleton]
          exact (List.perm_append_singleton _ _).nodup_iff.mpr (List.nodup_cons.mpr ⟨fresh, earlier⟩)
        obtain ⟨others, distinct, same⟩ := (ih later).mp continued
        exact ⟨⟨own, others⟩, moved ▸ distinct, gathered ▸ same⟩
      · intro shape
        obtain ⟨⟨own, others⟩, distinct, same⟩ := shape
        rw [← moved] at distinct
        have later := (List.nodup_append.mp distinct).1
        refine ⟨own, ?_, (ih later).mpr ⟨others, distinct, gathered ▸ same⟩⟩
        rw [List.map_append, List.map_singleton] at later
        exact (List.nodup_cons.mp ((List.perm_append_singleton _ _).nodup_iff.mp later)).1

private theorem perm_settle {pending : List (String × String)} (distinct : (pending.map (·.1)).Nodup)
    {callId name : String} (member : (callId, name) ∈ pending) :
    pending.Perm ((callId, name) :: settle pending callId) := by
  induction pending with
  | nil => cases member
  | cons entry rest ih =>
      obtain ⟨fresh, others⟩ := List.nodup_cons.mp distinct
      rcases List.mem_cons.mp member with rfl | inside
      · have kept : settle ((callId, name) :: rest) callId = rest := by
          rw [settle, List.filter_cons_of_neg (by simp), List.filter_eq_self]
          intro other present
          simp only [decide_eq_true_eq]
          intro same
          exact fresh (List.mem_map.mpr ⟨other, present, same⟩)
        rw [kept]
      · have apart : entry.1 ≠ callId := by
          intro same
          exact fresh (List.mem_map.mpr ⟨_, inside, same.symm⟩)
        have kept : settle (entry :: rest) callId = entry :: settle rest callId :=
          List.filter_cons_of_pos (by simpa using apart)
        rw [kept]
        exact ((ih others inside).cons entry).trans (List.Perm.swap _ _ _)

private theorem lookup_eq_some_iff_mem {pending : List (String × String)}
    (distinct : (pending.map (·.1)).Nodup) {callId name : String} :
    pending.lookup callId = some name ↔ (callId, name) ∈ pending := by
  induction pending with
  | nil => simp
  | cons entry rest ih =>
      obtain ⟨fresh, others⟩ := List.nodup_cons.mp distinct
      by_cases own : callId = entry.1
      · subst own
        rw [List.lookup_cons, beq_self_eq_true]
        simp only [Option.some.injEq, List.mem_cons]
        constructor
        · intro same
          exact .inl (by rw [← same])
        · intro member
          rcases member with same | inside
          · rw [← same]
          · exact absurd (List.mem_map_of_mem inside) fresh
      · have differs : (callId == entry.1) = false := by simpa using own
        rw [List.lookup_cons, differs, ih others, List.mem_cons]
        constructor
        · intro inside
          exact .inr inside
        · intro member
          rcases member with same | inside
          · exact absurd (by rw [← same]) own
          · exact inside

variable {κ : Type} {summary : Option κ}

private theorem nodup_settle {pending : List (String × String)} (callId : String)
    (distinct : (pending.map (·.1)).Nodup) : ((settle pending callId).map (·.1)).Nodup :=
  distinct.sublist (List.filter_sublist.map _)

theorem answers_iff {pending : List (String × String)} (distinct : (pending.map (·.1)).Nodup)
    {results : Keyed κ} :
    Answers summary pending results ↔
      (∀ entry ∈ results, some entry.2 ≠ summary) ∧
      (results.map fun entry => entry.1.answered).Perm (pending.map some) := by
  induction results generalizing pending with
  | nil =>
      rw [List.map_nil, List.nil_perm, List.map_eq_nil_iff]
      constructor
      · intro answers
        cases answers
        exact ⟨List.forall_mem_nil _, rfl⟩
      · intro none
        rw [none.2]
        exact .nil
  | cons entry rest ih =>
      obtain ⟨message, key⟩ := entry
      rw [List.map_cons, List.forall_mem_cons]
      constructor
      · intro answers
        cases answers with
        | cons foreign found remaining =>
            obtain ⟨uninterrupted, answered⟩ := (ih (nodup_settle _ distinct)).mp remaining
            have pulled := perm_settle distinct ((lookup_eq_some_iff_mem distinct).mp found)
            exact ⟨⟨foreign, uninterrupted⟩, (answered.cons _).trans (pulled.map some).symm⟩
      · intro shape
        obtain ⟨⟨foreign, uninterrupted⟩, answered⟩ := shape
        have own : message.answered ∈ pending.map some := answered.subset List.mem_cons_self
        obtain ⟨⟨callId, name⟩, member, same⟩ := List.mem_map.mp own
        cases message with
        | system text => cases same
        | user text => cases same
        | assistant text toolIntents => cases same
        | toolResult resultId resultName content =>
            cases same
            have pulled := (perm_settle distinct member).map some
            refine .cons foreign ((lookup_eq_some_iff_mem distinct).mpr member)
              ((ih (nodup_settle _ distinct)).mpr ⟨uninterrupted, ?_⟩)
            exact (answered.trans pulled).cons_inv

private theorem batch_iff {toolIntents : List ToolIntent} {results : Keyed κ} :
    CallBatch WellNamed summary toolIntents results ↔
      toolIntents ≠ [] ∧ ∃ pending, expectResults toolIntents [] = .ok pending ∧
        Answers summary pending results := by
  have keys : (awaited toolIntents).map (·.1) = toolIntents.map (·.id) := by
    simp [awaited]
  have answered : (awaited toolIntents).map some =
      toolIntents.map fun intent => some (intent.id, intent.name) := by
    simp [awaited]
  have earlier : (([] : List (String × String)).map (·.1)).Nodup := List.nodup_nil
  constructor
  · intro batch
    refine ⟨batch.calls, awaited toolIntents, ?_, ?_⟩
    · exact (expectResults_ok_iff earlier).mpr ⟨batch.admitted, batch.distinct, rfl⟩
    · rw [answers_iff (keys ▸ batch.distinct), answered]
      exact ⟨batch.uninterrupted, batch.answered⟩
  · intro shape
    obtain ⟨calls, pending, read, answers⟩ := shape
    obtain ⟨admitted, distinct, rfl⟩ := (expectResults_ok_iff earlier).mp read
    rw [List.nil_append, answers_iff (keys ▸ distinct), answered] at answers
    exact ⟨calls, admitted, distinct, answers.1, answers.2⟩

theorem complete_iff_grammar {entries : Keyed κ} {groups : List (List κ)} :
    Complete summary entries groups ↔ HistoryGrammar WellNamed summary entries groups := by
  constructor
  · intro complete
    induction complete with
    | nil => exact .nil
    | envelope own _ ih => exact .summary own ih
    | system foreign _ ih => exact .system foreign ih
    | user foreign _ ih => exact .user foreign ih
    | answer foreign _ ih => exact .answer foreign ih
    | batch foreign calls read answers _ ih =>
        exact .batch foreign (batch_iff.mpr ⟨calls, _, read, answers⟩) ih
  · intro grammar
    induction grammar with
    | nil => exact .nil
    | summary own _ ih => exact .envelope own ih
    | system foreign _ ih => exact .system foreign ih
    | user foreign _ ih => exact .user foreign ih
    | answer foreign _ ih => exact .answer foreign ih
    | batch foreign batch _ ih =>
        obtain ⟨calls, pending, read, answers⟩ := batch_iff.mp batch
        exact .batch foreign calls read answers ih

end Batches

/-! ## The groups part a history -/

section Partition

variable {κ : Type} [DecidableEq κ] {summary : Option κ}

def grouped (summary : Option κ) (entry : ModelMessage × κ) : Bool :=
  !entry.1.isSystem && decide (some entry.2 ≠ summary)

private theorem grouped_results {admits : ToolIntent → Prop} {toolIntents : List ToolIntent}
    {results : Keyed κ} (batch : CallBatch admits summary toolIntents results) :
    results.filter (grouped summary) = results := by
  rw [List.filter_eq_self]
  intro entry member
  have answers : entry.1.answered ∈ toolIntents.map fun intent => some (intent.id, intent.name) :=
    batch.answered.subset (List.mem_map_of_mem member)
  obtain ⟨intent, -, same⟩ := List.mem_map.mp answers
  have foreign := batch.uninterrupted entry member
  obtain ⟨message, key⟩ := entry
  cases message with
  | system text => cases same
  | user text => cases same
  | assistant text calls => cases same
  | toolResult callId name content => simp [grouped, ModelMessage.isSystem, foreign]

theorem HistoryGrammar.groups_flatten {admits : ToolIntent → Prop} {entries : Keyed κ}
    {groups : List (List κ)} (grammar : HistoryGrammar admits summary entries groups) :
    groups.flatten = (entries.filter (grouped summary)).map (·.2) ∧ [] ∉ groups := by
  induction grammar with
  | nil => simp
  | summary own _ ih => simpa [grouped, own] using ih
  | system foreign _ ih => simpa [grouped, ModelMessage.isSystem] using ih
  | user foreign _ ih => simpa [grouped, ModelMessage.isSystem, foreign] using ih
  | answer foreign _ ih => simpa [grouped, ModelMessage.isSystem, foreign] using ih
  | batch foreign batch _ ih =>
      simpa [grouped, ModelMessage.isSystem, foreign, grouped_results batch] using ih

end Partition

/-- Exactly the histories of the grammar are accepted, and their groups part the positions of the
messages that are neither a system nor the summary, in increasing order. -/
theorem completeGroups_grammar (priorSummaryIndex : Option Nat) (messages : List ModelMessage)
    (groups : List (List Nat)) :
    (completeGroups priorSummaryIndex messages.zipIdx = .ok groups ↔
      HistoryGrammar WellNamed priorSummaryIndex messages.zipIdx groups) ∧
    (completeGroups priorSummaryIndex messages.zipIdx = .ok groups →
      [] ∉ groups ∧ groups.flatten.Pairwise (· < ·) ∧
      ∀ index, index ∈ groups.flatten ↔
        ∃ message, messages[index]? = some message ∧ message.isSystem = false ∧
          some index ≠ priorSummaryIndex) := by
  have accepted : completeGroups priorSummaryIndex messages.zipIdx = .ok groups ↔
      HistoryGrammar WellNamed priorSummaryIndex messages.zipIdx groups :=
    completeGroups_ok_iff.trans complete_iff_grammar
  refine ⟨accepted, fun read => ?_⟩
  obtain ⟨flatten, nonempty⟩ := (accepted.mp read).groups_flatten
  rw [flatten]
  refine ⟨nonempty, ?_, fun index => ?_⟩
  · have positions : (messages.zipIdx.map (·.2)).Pairwise (· < ·) := by
      rw [List.zipIdx_map_snd]
      exact List.pairwise_lt_range'
    exact positions.sublist (List.filter_sublist.map _)
  · simp only [List.mem_map, List.mem_filter, Prod.exists, List.mk_mem_zipIdx_iff_getElem?,
      grouped, Bool.and_eq_true, Bool.not_eq_true', decide_eq_true_eq, exists_eq_right]

private def inspectedTalk : List ModelMessage :=
  [.system "be brief", .user "look", .assistant "" [⟨"a", none, "read", .null⟩,
    ⟨"b", none, "list", .null⟩], .toolResult "b" "list" "x", .toolResult "a" "read" "y",
    .assistant "done" []]

/-- A batch of two calls, answered in the other order. -/
theorem completeGroups_grammar_batch :
    [] ∉ [[1], [2, 3, 4], [5]] ∧ [1, 2, 3, 4, 5].Pairwise (· < ·) ∧
      HistoryGrammar WellNamed none inspectedTalk.zipIdx [[1], [2, 3, 4], [5]] := by
  have read : completeGroups none inspectedTalk.zipIdx = .ok [[1], [2, 3, 4], [5]] :=
    eq_ok_of_toOption (by decide)
  obtain ⟨accepted, parts⟩ := completeGroups_grammar none inspectedTalk [[1], [2, 3, 4], [5]]
  exact ⟨(parts read).1, (parts read).2.1, accepted.mp read⟩

private def namelessTalk : List ModelMessage :=
  [.assistant "" [⟨"a", none, "", .null⟩], .toolResult "a" "" "x"]

/-- A call whose id is nonempty is refused when its name is empty. -/
theorem namelessCall_refused :
    HistoryGrammar (fun intent => intent.id ≠ "") none namelessTalk.zipIdx [[0, 1]] ∧
      ∀ groups, completeGroups none namelessTalk.zipIdx ≠ .ok groups := by
  constructor
  · have batch : CallBatch (fun intent => intent.id ≠ "") none [⟨"a", none, "", .null⟩]
        [(.toolResult "a" "" "x", 1)] :=
      ⟨by decide, by decide, by decide, by decide, by decide⟩
    exact .batch (by decide) batch .nil
  · intro groups read
    have failed : (completeGroups none namelessTalk.zipIdx).toOption.isNone = true := by decide
    rw [read] at failed
    cases failed

end Kvist.Runtime
