import Kvist.Runtime.Session
import Kvist.Runtime.SummaryRuns

/-!
# Complete and open histories

A history is closed when every tool call in it is answered, and open while the last turn still
waits for results. A closed history is accepted with any of its user messages as the envelope; an
open one is refused, whatever user messages follow it.
-/

set_option autoImplicit false

namespace Kvist.Runtime

def Closed (messages : List ModelMessage) : Prop :=
  ∃ groups, Complete none messages.zipIdx groups

/-- Whatever summary a context manager has, it finds complete groups in these messages. -/
def Accepted (messages : List ModelMessage) : Prop :=
  ∀ summary, ∃ groups,
    completeGroups (priorSummary summary messages.zipIdx) messages.zipIdx = .ok groups

/-! ## Other keys and other envelopes -/

section Keys

variable {κ : Type} {envelope : Option κ} {entries : Keyed κ} {groups : List (List κ)}

/-- The shape of a history does not depend on its keys. -/
theorem Closed.keyed [Inhabited κ] {messages : List ModelMessage} (closed : Closed messages)
    (same : entries.map (·.1) = messages) : ∃ groups, Complete none entries groups := by
  obtain ⟨groups, complete⟩ := closed
  subst same
  have own : entries = (entries.map (·.1)).zipIdx.map fun entry =>
      (entry.1, ((keysOf entries)[entry.2]?).getD default) := by
    apply List.ext_getElem
    · simp
    · intro index bound _
      simp [keysOf, bound]
  have agrees : ∀ entry ∈ (entries.map (·.1)).zipIdx, some entry.2 = (none : Option Nat) ↔
      some (((keysOf entries)[entry.2]?).getD default) = (none : Option κ) := by simp
  have renamed := complete.rename (fun index => ((keysOf entries)[index]?).getD default) agrees
  rw [← own] at renamed
  exact ⟨_, renamed⟩

theorem Complete.marked (complete : Complete none entries groups)
    (user : ∀ entry ∈ entries, some entry.2 = envelope → entry.1.isUser = true) :
    ∃ groups, Complete envelope entries groups := by
  induction complete with
  | nil => exact ⟨[], .nil⟩
  | envelope impossible => cases impossible
  | @system text key rest _ _ _ ih =>
      obtain ⟨groups, later⟩ := ih fun entry member => user entry (List.mem_cons_of_mem _ member)
      refine ⟨groups, .system (fun own => ?_) later⟩
      cases user _ (List.mem_cons_self ..) own
  | @user text key rest _ _ _ ih =>
      obtain ⟨groups, later⟩ := ih fun entry member => user entry (List.mem_cons_of_mem _ member)
      by_cases own : some key = envelope
      · exact ⟨groups, .envelope own later⟩
      · exact ⟨[key] :: groups, .user own later⟩
  | @answer text key rest _ _ _ ih =>
      obtain ⟨groups, later⟩ := ih fun entry member => user entry (List.mem_cons_of_mem _ member)
      refine ⟨[key] :: groups, .answer (fun own => ?_) later⟩
      cases user _ (List.mem_cons_self ..) own
  | @batch text toolIntents key results rest pending _ _ calls expected answers _ ih =>
      obtain ⟨groups, later⟩ := ih fun entry member =>
        user entry (List.mem_cons_of_mem _ (List.mem_append_right _ member))
      have foreign : ∀ entry ∈ results, some entry.2 ≠ envelope := by
        intro entry member own
        obtain ⟨_, callId, name, content, same⟩ := answers.keys entry member
        have isUser := user entry (List.mem_cons_of_mem _ (List.mem_append_left _ member)) own
        rw [same] at isUser
        cases isUser
      refine ⟨_, .batch (fun own => ?_) calls expected (answers.weaken foreign) later⟩
      cases user _ (List.mem_cons_self ..) own

theorem Complete.unmarked (complete : Complete envelope entries groups)
    (user : ∀ entry ∈ entries, some entry.2 = envelope → entry.1.isUser = true) :
    ∃ groups, Complete none entries groups := by
  induction complete with
  | nil => exact ⟨[], .nil⟩
  | @envelope message key rest _ own _ ih =>
      obtain ⟨groups, later⟩ := ih fun entry member => user entry (List.mem_cons_of_mem _ member)
      have isUser := user _ (List.mem_cons_self ..) own
      cases message with
      | user text => exact ⟨[key] :: groups, .user (by simp) later⟩
      | system => cases isUser
      | assistant => cases isUser
      | toolResult => cases isUser
  | system _ _ ih =>
      obtain ⟨groups, later⟩ := ih fun entry member => user entry (List.mem_cons_of_mem _ member)
      exact ⟨groups, .system (by simp) later⟩
  | @user text key rest _ _ _ ih =>
      obtain ⟨groups, later⟩ := ih fun entry member => user entry (List.mem_cons_of_mem _ member)
      exact ⟨[key] :: groups, .user (by simp) later⟩
  | @answer text key rest _ _ _ ih =>
      obtain ⟨groups, later⟩ := ih fun entry member => user entry (List.mem_cons_of_mem _ member)
      exact ⟨[key] :: groups, .answer (by simp) later⟩
  | batch _ calls expected answers _ ih =>
      obtain ⟨groups, later⟩ := ih fun entry member =>
        user entry (List.mem_cons_of_mem _ (List.mem_append_right _ member))
      exact ⟨_, .batch (by simp) calls expected (answers.weaken (by simp)) later⟩

theorem Complete.append {later : Keyed κ} {more : List (List κ)}
    (complete : Complete envelope entries groups) (rest : Complete envelope later more) :
    Complete envelope (entries ++ later) (groups ++ more) := by
  induction complete with
  | nil => exact rest
  | envelope own _ ih => exact .envelope own ih
  | system foreign _ ih => exact .system foreign ih
  | user foreign _ ih => exact .user foreign ih
  | answer foreign _ ih => exact .answer foreign ih
  | batch foreign calls expected answers _ ih =>
      rw [List.cons_append, List.append_assoc]
      exact .batch foreign calls expected answers ih

end Keys

/-! ## Closed histories -/

theorem closed_nil : Closed [] := ⟨[], .nil⟩

theorem Closed.append {front back : List ModelMessage} (closed : Closed front)
    (rest : Closed back) : Closed (front ++ back) := by
  obtain ⟨groups, complete⟩ := closed
  have messages : (back.zipIdx front.length).map (·.1) = back := by simp
  obtain ⟨more, later⟩ := rest.keyed messages
  refine ⟨groups ++ more, ?_⟩
  rw [List.zipIdx_append, Nat.zero_add]
  exact complete.append later

theorem closed_user (text : String) : Closed [.user text] := ⟨[[0]], .user (by simp) .nil⟩

theorem Closed.pushUser {messages : List ModelMessage} (closed : Closed messages)
    (text : String) : Closed (messages ++ [.user text]) := closed.append (closed_user text)

theorem closed_of_keyed {κ : Type} [DecidableEq κ] {entries : Keyed κ} {groups : List (List κ)}
    (complete : Complete none entries groups) (distinct : (keysOf entries).Nodup) :
    Closed (entries.map (·.1)) := by
  have agrees : ∀ entry ∈ entries, some entry.2 = (none : Option κ) ↔
      some ((keysOf entries).idxOf entry.2) = (none : Option Nat) := by simp
  refine ⟨groups.map (List.map fun key => (keysOf entries).idxOf key), ?_⟩
  rw [zipIdx_rekey distinct]
  exact complete.rename (fun key => (keysOf entries).idxOf key) agrees

theorem closed_system {text : String} {messages : List ModelMessage} :
    Closed (.system text :: messages) ↔ Closed messages := by
  constructor
  · rintro ⟨groups, complete⟩
    rw [List.zipIdx_cons] at complete
    cases complete with
    | envelope impossible => cases impossible
    | system _ rest =>
        have closed := closed_of_keyed rest (by
          simp only [keysOf, List.zipIdx_map_snd]
          exact List.nodup_range')
        simpa using closed
  · intro closed
    have leading : Closed [.system text] := ⟨[], .system (by simp) .nil⟩
    exact leading.append closed

theorem priorSummary_user {summary : String} {messages : List ModelMessage} :
    ∀ entry ∈ messages.zipIdx, some entry.2 = priorSummary summary messages.zipIdx →
      entry.1.isUser = true := by
  intro entry member own
  obtain ⟨message, found, envelope⟩ := priorSummary_mem own.symm
  have same : entry = (message, entry.2) :=
    List.inj_on_of_nodup_map (keysOf_zipIdx_nodup messages) member found rfl
  rw [same, isEnvelope_iff.mp envelope]
  rfl

theorem closed_of_groups {summary : String} {messages : List ModelMessage}
    {groups : List (List Nat)}
    (grouped : completeGroups (priorSummary summary messages.zipIdx) messages.zipIdx =
      .ok groups) : Closed messages :=
  (completeGroups_ok_iff.mp grouped).unmarked priorSummary_user

theorem accepted_iff {messages : List ModelMessage} : Accepted messages ↔ Closed messages := by
  constructor
  · intro accepted
    obtain ⟨groups, grouped⟩ := accepted ""
    exact closed_of_groups grouped
  · rintro ⟨groups, complete⟩ summary
    have user : ∀ entry ∈ messages.zipIdx, some entry.2 = priorSummary summary messages.zipIdx →
        entry.1.isUser = true := priorSummary_user
    obtain ⟨groups, marked⟩ := complete.marked user
    exact ⟨groups, completeGroups_ok_iff.mpr marked⟩

/-! ## Batches -/

/-- The messages are the results of these calls, in their order. -/
def Results (toolIntents : List ToolIntent) (results : List ModelMessage) : Prop :=
  List.Forall₂ (fun intent message => ∃ content,
    message = .toolResult intent.id intent.name content) toolIntents results

/-- Calls as a validated turn has them: named, and each with an identity of its own. -/
structure ValidCalls (toolIntents : List ToolIntent) : Prop where
  named : ∀ intent ∈ toolIntents, intent.id ≠ "" ∧ intent.name ≠ ""
  distinct : (toolIntents.map (·.id)).Nodup

def expected (toolIntents : List ToolIntent) : List (String × String) :=
  toolIntents.map fun intent => (intent.id, intent.name)

theorem lookup_none {pending : List (String × String)} {callId : String}
    (absent : callId ∉ pending.map (·.1)) : pending.lookup callId = none := by
  rw [List.lookup_eq_none_iff]
  intro entry member
  have apart : callId ≠ entry.1 := fun same =>
    absent (List.mem_map.mpr ⟨entry, member, same.symm⟩)
  simpa using apart

theorem expectResults_ok {toolIntents : List ToolIntent} {pending : List (String × String)}
    (named : ∀ intent ∈ toolIntents, intent.id ≠ "" ∧ intent.name ≠ "")
    (distinct : (pending.map (·.1) ++ toolIntents.map (·.id)).Nodup) :
    expectResults toolIntents pending = .ok (pending ++ expected toolIntents) := by
  induction toolIntents generalizing pending with
  | nil => simp [expectResults, expected]
  | cons intent rest ih =>
      obtain ⟨identity, name⟩ := named intent (List.mem_cons_self ..)
      have absent : intent.id ∉ pending.map (·.1) := by
        intro member
        rw [List.nodup_append] at distinct
        exact distinct.2.2 _ member _ (List.mem_cons_self ..) rfl
      have later : expectResults rest (pending ++ [(intent.id, intent.name)]) =
          .ok (pending ++ [(intent.id, intent.name)] ++ expected rest) :=
        ih (fun other member => named other (List.mem_cons_of_mem _ member))
          (by simpa using distinct)
      simp only [expectResults, lookup_none absent, identity, name, decide_false, Bool.or_self,
        Bool.not_false, Option.isNone_none, ensure_true, ok_bind, later]
      simp [expected]

theorem settle_head {intent : ToolIntent} {rest : List ToolIntent}
    (distinct : ((intent :: rest).map (·.id)).Nodup) :
    settle (expected (intent :: rest)) intent.id = expected rest := by
  rw [List.map_cons, List.nodup_cons] at distinct
  have apart : ∀ entry ∈ expected rest, entry.1 ≠ intent.id := by
    intro entry member same
    obtain ⟨other, among, rfl⟩ := List.mem_map.mp member
    exact distinct.1 (List.mem_map.mpr ⟨other, among, same⟩)
  simp only [settle, expected, List.map_cons, List.filter_cons]
  simp only [ne_eq, not_true_eq_false, decide_false, Bool.false_eq_true, if_false]
  exact List.filter_eq_self.mpr fun entry member => by simpa using apart entry member

theorem ValidCalls.expected_ok {toolIntents : List ToolIntent} (valid : ValidCalls toolIntents) :
    expectResults toolIntents [] = .ok (expected toolIntents) := by
  have accepted : expectResults toolIntents [] = .ok ([] ++ expected toolIntents) :=
    expectResults_ok valid.named (by simpa using valid.distinct)
  exact accepted

theorem answers_results {κ : Type} {toolIntents : List ToolIntent} {entries : Keyed κ}
    (distinct : (toolIntents.map (·.id)).Nodup)
    (results : Results toolIntents (entries.map (·.1))) :
    Answers none (expected toolIntents) entries := by
  induction toolIntents generalizing entries with
  | nil =>
      cases entries with
      | nil => exact .nil
      | cons => cases results
  | cons intent rest ih =>
      cases entries with
      | nil => cases results
      | cons entry later =>
          obtain ⟨message, key⟩ := entry
          rw [List.map_cons] at results
          cases results with
          | cons own behind =>
              obtain ⟨content, rfl⟩ := own
              refine .cons (by simp) (by simp [expected]) ?_
              rw [settle_head distinct]
              exact ih (List.nodup_cons.mp distinct).2 behind

theorem closed_turn {text : String} {toolIntents : List ToolIntent} {results : List ModelMessage}
    (valid : ValidCalls toolIntents) (answered : Results toolIntents results) :
    Closed (.assistant text toolIntents :: results) := by
  cases toolIntents with
  | nil =>
      cases answered
      exact ⟨[[0]], .answer (by simp) .nil⟩
  | cons intent rest =>
      have answers : Answers none (expected (intent :: rest)) (results.zipIdx 1) :=
        answers_results valid.distinct (by simpa using answered)
      have complete : Complete none
          ((.assistant text (intent :: rest), 0) :: (results.zipIdx 1 ++ []))
          [0 :: (results.zipIdx 1).map (·.2)] :=
        .batch (by simp) (by simp) valid.expected_ok answers .nil
      rw [List.append_nil] at complete
      exact ⟨_, complete⟩

/-- A turn behind a closed history with results for its first calls. -/
def OpenBatch (messages : List ModelMessage) (remaining : List ToolIntent) : Prop :=
  ∃ before text answered results,
    messages = before ++ .assistant text (answered ++ remaining) :: results ∧
      Closed before ∧ ValidCalls (answered ++ remaining) ∧ Results answered results

theorem openBatch_start {messages : List ModelMessage} (closed : Closed messages) (text : String)
    {toolIntents : List ToolIntent} (valid : ValidCalls toolIntents) :
    OpenBatch (messages ++ [.assistant text toolIntents]) toolIntents :=
  ⟨messages, text, [], [], rfl, closed, valid, .nil⟩

theorem OpenBatch.record {messages : List ModelMessage} {intent : ToolIntent}
    {rest : List ToolIntent} (batch : OpenBatch messages (intent :: rest)) (content : String) :
    OpenBatch (messages ++ [.toolResult intent.id intent.name content]) rest := by
  obtain ⟨before, text, answered, results, rfl, closed, valid, paired⟩ := batch
  have calls : answered ++ intent :: rest = (answered ++ [intent]) ++ rest := by simp
  refine ⟨before, text, answered ++ [intent],
    results ++ [.toolResult intent.id intent.name content], ?_, closed, calls ▸ valid, ?_⟩
  · rw [calls]
    simp
  · exact List.rel_append paired (.cons ⟨content, rfl⟩ .nil)

theorem OpenBatch.closed {messages : List ModelMessage} (batch : OpenBatch messages []) :
    Closed messages := by
  obtain ⟨before, text, answered, results, rfl, closed, valid, paired⟩ := batch
  rw [List.append_nil] at valid ⊢
  exact closed.append (closed_turn valid paired)

/-- Results for the first calls leave the rest of them pending. -/
theorem fold_results {κ : Type} [DecidableEq κ] {answered remaining : List ToolIntent}
    {entries : Keyed κ} (distinct : ((answered ++ remaining).map (·.id)).Nodup)
    (open' : remaining ≠ []) (results : Results answered (entries.map (·.1))) (current : List κ)
    (groups : List (List κ)) :
    ∃ state, entries.foldlM (groupMessage none)
        { pending := expected (answered ++ remaining), current, groups } = .ok state ∧
      state.pending = expected remaining := by
  induction answered generalizing entries current with
  | nil =>
      cases entries with
      | nil => exact ⟨_, rfl, rfl⟩
      | cons => cases results
  | cons intent rest ih =>
      cases entries with
      | nil => cases results
      | cons entry later =>
          obtain ⟨message, key⟩ := entry
          rw [List.map_cons] at results
          cases results with
          | cons own behind =>
              obtain ⟨content, rfl⟩ := own
              have more : (expected (rest ++ remaining)).isEmpty = false := by
                simpa [expected] using fun _ => open'
              have found : (expected (intent :: (rest ++ remaining))).lookup intent.id =
                  some intent.name := by simp [expected]
              have settled : settle (expected (intent :: (rest ++ remaining))) intent.id =
                  expected (rest ++ remaining) := settle_head distinct
              have grouped : groupMessage none
                  { pending := expected (intent :: rest ++ remaining), current, groups }
                  (.toolResult intent.id intent.name content, key) =
                    .ok { pending := expected (rest ++ remaining), current := current ++ [key],
                          groups } := by
                rw [List.cons_append]
                simp [groupMessage, found, settled, more, ensure]
              rw [List.foldlM_cons, grouped, ok_bind]
              exact ih (List.nodup_cons.mp distinct).2 behind _

theorem OpenBatch.refused {messages users : List ModelMessage} {remaining : List ToolIntent}
    (batch : OpenBatch messages remaining) (open' : remaining ≠ [])
    (user : ∀ message ∈ users, message.isUser = true) : ¬Closed (messages ++ users) := by
  obtain ⟨before, text, answered, results, rfl, ⟨groups, complete⟩, valid, paired⟩ := batch
  rintro ⟨others, impossible⟩
  have grouped := completeGroups_ok_iff.mpr impossible
  rw [List.append_assoc, List.cons_append, List.zipIdx_append, List.zipIdx_cons,
    List.zipIdx_append] at grouped
  have calls : expected (answered ++ remaining) ≠ [] := by
    simpa [expected] using fun _ => open'
  have left : (expected remaining).isEmpty = false := by
    simpa [expected] using open'
  have results : Results answered
      ((results.zipIdx (0 + before.length + 1)).map (·.1)) := by simpa using paired
  obtain ⟨state, folded, pending⟩ := fold_results valid.distinct open' results
    [0 + before.length] ([] ++ groups)
  have asked : groupMessage none { groups := [] ++ groups }
      (.assistant text (answered ++ remaining), 0 + before.length) =
        .ok { pending := expected (answered ++ remaining), current := [0 + before.length],
              groups := [] ++ groups } := by
    simp [groupMessage, valid.expected_ok, calls]
  simp only [completeGroups, List.foldlM_append, fold_of_complete complete [], ok_bind,
    List.foldlM_cons, asked, folded] at grouped
  cases users with
  | nil => simp [pending, left] at grouped
  | cons message rest =>
      have isUser := user message (List.mem_cons_self ..)
      cases message with
      | user words => simp [groupMessage, pending, left] at grouped
      | system => cases isUser
      | assistant => cases isUser
      | toolResult => cases isUser

/-! ## Preparing a request -/

theorem keptEntries_leading {κ : Type} [DecidableEq κ] {envelope : Option κ}
    {folded : List (List κ)} {entry : ModelMessage × κ} {rest : Keyed κ}
    (stays : entry ∈ keptEntries envelope folded (entry :: rest)) :
    keptEntries envelope folded (entry :: rest) = entry :: keptEntries envelope folded rest := by
  have chosen := (List.mem_filter.mp stays).2
  rw [keptEntries, List.filter_cons, if_pos chosen]
  rfl

namespace ContextManager

variable {fromStr : String → Option Json.Value} {manager : ContextManager}
  {request : ModelRequest} {reserve : Nat}

theorem prepare_closed {compaction : Option Compaction}
    (prepared : (manager.prepare fromStr request reserve).result = .ok compaction) :
    Closed request.messages ∧
      Closed (manager.prepare fromStr request reserve).request.messages := by
  obtain ⟨groups, kept, grouped, -, -, groups', grouped'⟩ :=
    prepare_preserves fromStr manager request reserve compaction prepared
  exact ⟨closed_of_groups grouped, closed_of_groups grouped'⟩

theorem prepare_leading (fromStr : String → Option Json.Value) (manager : ContextManager)
    (reserve : Nat) {text : String} {messages : List ModelMessage}
    (leading : request.messages = .system text :: messages) :
    ∃ rest, (manager.prepare fromStr request reserve).request.messages = .system text :: rest := by
  simp only [prepare]
  split
  · cases plan : manager.plan fromStr { request with maxOutputTokens := some reserve } reserve
        request.messages.zipIdx with
    | error error => exact ⟨messages, leading⟩
    | ok outcome =>
        cases outcome with
        | none => exact ⟨messages, leading⟩
        | some rewrite =>
            have planned := plan_planned fromStr manager
              { request with maxOutputTokens := some reserve } reserve request.messages.zipIdx
            rw [plan] at planned
            have rewritten := planned_rewrite (keysOf_zipIdx_nodup request.messages) planned
            have first : request.messages.zipIdx = (.system text, 0) :: messages.zipIdx 1 := by
              rw [leading, List.zipIdx_cons]
            have member : (.system text, 0) ∈ request.messages.zipIdx := by simp [first]
            have stays : (.system text, 0) ∈ keptEntries
                (priorSummary manager.summary request.messages.zipIdx) rewrite.folded
                request.messages.zipIdx := by
              refine mem_keptEntries.mpr ⟨member, fun own => ?_, rewritten.systems _ member rfl⟩
              cases priorSummary_user _ member own
            have kept := rewritten.kept
            rw [first] at stays kept
            rw [keptEntries_leading stays] at kept
            simp only [rewritten.messages, kept]
            split
            · exact ⟨_, rfl⟩
            · exact ⟨_, rfl⟩
  · exact ⟨messages, leading⟩

end ContextManager

namespace AgentSession

variable {fromStr : String → Option Json.Value} {session : AgentSession}
  {context : ContextManager} {reserve : Nat}

theorem closed_systemMessages {messages : List ModelMessage} :
    Closed (session.systemMessages ++ messages) ↔ Closed messages := by
  unfold systemMessages
  split
  · rfl
  · exact closed_system

theorem closed_drop {request : ModelRequest} (messages : request.messages =
      session.systemMessages ++ session.messages)
    (closed : Closed (context.prepare fromStr request reserve).request.messages) :
    Closed ((context.prepare fromStr request reserve).request.messages.drop
      session.systemMessages.length) := by
  unfold systemMessages at messages ⊢
  split at messages
  · next empty => simpa [empty] using closed
  · next present =>
      obtain ⟨rest, leading⟩ := ContextManager.prepare_leading fromStr context reserve messages
      rw [if_neg present, leading]
      rw [leading] at closed
      exact closed_system.mp closed

theorem nextRequest_none (none : session.nextRequest = none) : session.messages = [] := by
  unfold nextRequest at none
  split at none
  · next empty => exact List.isEmpty_iff.mp empty
  · cases none

theorem nextRequest_some {request : ModelRequest} (next : session.nextRequest = some request) :
    request.messages = session.systemMessages ++ session.messages := by
  unfold nextRequest at next
  split at next
  · cases next
  · rw [← Option.some.inj next]

theorem prepareRequest_closed {prepared : Option (ModelRequest × Option Compaction)}
    (succeeded : (session.prepareRequest fromStr context reserve).result = .ok prepared) :
    Closed session.messages ∧
      Closed (session.prepareRequest fromStr context reserve).session.messages := by
  unfold prepareRequest at succeeded ⊢
  cases next : session.nextRequest with
  | none =>
      simp only [nextRequest_none next]
      exact ⟨closed_nil, closed_nil⟩
  | some request =>
      simp only [next] at succeeded ⊢
      cases outcome : (context.prepare fromStr request reserve).result with
      | error error => simp [outcome] at succeeded
      | ok compaction =>
          obtain ⟨before, after⟩ := ContextManager.prepare_closed outcome
          rw [nextRequest_some next] at before
          exact ⟨closed_systemMessages.mp before, closed_drop (nextRequest_some next) after⟩

/-- A request that cannot be prepared leaves the conversation as it was. -/
theorem prepareRequest_unchanged {error : Error}
    (failed : (session.prepareRequest fromStr context reserve).result = .error error) :
    (session.prepareRequest fromStr context reserve).session = session := by
  unfold prepareRequest at failed ⊢
  cases next : session.nextRequest with
  | none => rfl
  | some request =>
      simp only [next] at failed ⊢
      cases prepared : (context.prepare fromStr request reserve).result with
      | error error => rfl
      | ok compaction => simp [prepared] at failed

end AgentSession

/-! ## Validated turns -/

theorem validateIntents_ok {toolIntents : List ToolIntent} {seen : List String}
    (checked : validateIntents seen toolIntents = .ok ()) (distinct : seen.Nodup) :
    (∀ intent ∈ toolIntents, intent.id ≠ "" ∧ intent.name ≠ "") ∧
      (seen ++ toolIntents.map (·.id)).Nodup := by
  induction toolIntents generalizing seen with
  | nil => simpa using distinct
  | cons intent rest ih =>
      simp only [validateIntents, bind_unit_ok_iff, ensure_ok_iff, Bool.and_eq_true,
        Bool.not_eq_true', validIdentity, Bool.or_eq_false_iff, decide_eq_false_iff_not] at checked
      obtain ⟨⟨⟨⟨⟨⟨identity, _⟩, _⟩, ⟨⟨name, _⟩, _⟩⟩, fresh⟩, _⟩, _, later⟩ := checked
      have absent : intent.id ∉ seen := by simpa using fresh
      have extended : (seen ++ [intent.id]).Nodup := by
        rw [List.nodup_append]
        refine ⟨distinct, by simp, ?_⟩
        intro other member last same
        rintro rfl
        simp only [List.mem_singleton] at same
        exact absent (same ▸ member)
      obtain ⟨named, whole⟩ := ih later extended
      refine ⟨?_, by simpa using whole⟩
      intro other member
      rcases List.mem_cons.mp member with rfl | behind
      · exact ⟨identity, name⟩
      · exact named other behind

theorem validateTurn_ok {turn : ModelTurn} (checked : validateTurn turn = .ok ()) :
    ValidCalls turn.toolIntents := by
  simp only [validateTurn, bind_unit_ok_iff] at checked
  obtain ⟨named, distinct⟩ := validateIntents_ok checked.2.2 (by simp)
  exact ⟨named, by simpa using distinct⟩

end Kvist.Runtime
