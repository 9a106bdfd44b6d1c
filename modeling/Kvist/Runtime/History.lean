import Kvist.Outcome
import Kvist.Runtime.Message

/-!
# Complete groups of a history

A message is taken together with a key: its position in a request, or whatever else tells the
messages of a history apart. `completeGroups` reads the history once and collects the keys of
each group. `Complete` says the same by the shape of the history: systems and the envelope stand
alone, a user message or a text answer is a group, and an assistant message with tool calls is a
group together with the results that follow it.
-/

set_option autoImplicit false

namespace Kvist.Runtime

abbrev Keyed (κ : Type) := List (ModelMessage × κ)

/-- The state of the loop over the messages; `pending` maps a call's id to its name. -/
structure Grouping (κ : Type) where
  pending : List (String × String) := []
  current : List κ := []
  groups : List (List κ) := []

/-- The map without one of its ids. -/
def settle (pending : List (String × String)) (callId : String) : List (String × String) :=
  pending.filter (·.1 ≠ callId)

def expectResults : List ToolIntent → List (String × String) → Except Error (List (String × String))
  | [], pending => .ok pending
  | intent :: rest, pending => do
      ensure (!(intent.id = "" || intent.name = ""))
        (.invalidModelTurn "tool call identity and name must be nonempty")
      ensure (pending.lookup intent.id).isNone
        (.invalidModelTurn "duplicate tool call identity in an assistant turn")
      expectResults rest (pending ++ [(intent.id, intent.name)])

section Groups

variable {κ : Type} [DecidableEq κ]

def groupMessage (envelope : Option κ) (state : Grouping κ) (entry : ModelMessage × κ) :
    Except Error (Grouping κ) :=
  if some entry.2 = envelope then do
    ensure state.pending.isEmpty
      (.invalidModelTurn "history summary interrupts pending tool results")
    return state
  else
    match entry.1 with
    | .toolResult callId name _ =>
        match state.pending.lookup callId with
        | none => .error (.invalidModelTurn "orphan or duplicate tool result")
        | some expectedName => do
            ensure (expectedName = name)
              (.invalidModelTurn "tool result name does not match its call")
            let pending := settle state.pending callId
            let current := state.current ++ [entry.2]
            if pending.isEmpty then
              return { pending, current := [], groups := state.groups ++ [current] }
            else return { pending, current, groups := state.groups }
    | message => do
        ensure state.pending.isEmpty
          (.invalidModelTurn "assistant tool calls lack a complete set of results")
        match message with
        | .user _ => return { state with groups := state.groups ++ [[entry.2]] }
        | .assistant _ toolIntents =>
            let pending ← expectResults toolIntents []
            if pending.isEmpty then return { state with groups := state.groups ++ [[entry.2]] }
            else return { state with pending, current := state.current ++ [entry.2] }
        | _ => return state

def completeGroups (envelope : Option κ) (entries : Keyed κ) : Except Error (List (List κ)) := do
  let state ← entries.foldlM (groupMessage envelope) {}
  ensure state.pending.isEmpty
    (.invalidModelTurn "assistant tool calls lack a complete set of results")
  return state.groups

end Groups

/-! ## The shape of a complete history -/

/-- The results answer the expected calls, each once and under its name, in any order. -/
inductive Answers {κ : Type} (envelope : Option κ) : List (String × String) → Keyed κ → Prop where
  | nil : Answers envelope [] []
  | cons {pending : List (String × String)} {callId name content : String} {key : κ}
      {results : Keyed κ} :
      some key ≠ envelope → pending.lookup callId = some name →
      Answers envelope (settle pending callId) results →
      Answers envelope pending ((.toolResult callId name content, key) :: results)

inductive Complete {κ : Type} (envelope : Option κ) : Keyed κ → List (List κ) → Prop where
  | nil : Complete envelope [] []
  | envelope {message : ModelMessage} {key : κ} {rest : Keyed κ} {groups : List (List κ)} :
      some key = envelope → Complete envelope rest groups →
      Complete envelope ((message, key) :: rest) groups
  | system {text : String} {key : κ} {rest : Keyed κ} {groups : List (List κ)} :
      some key ≠ envelope → Complete envelope rest groups →
      Complete envelope ((.system text, key) :: rest) groups
  | user {text : String} {key : κ} {rest : Keyed κ} {groups : List (List κ)} :
      some key ≠ envelope → Complete envelope rest groups →
      Complete envelope ((.user text, key) :: rest) ([key] :: groups)
  | answer {text : String} {key : κ} {rest : Keyed κ} {groups : List (List κ)} :
      some key ≠ envelope → Complete envelope rest groups →
      Complete envelope ((.assistant text [], key) :: rest) ([key] :: groups)
  | batch {text : String} {toolIntents : List ToolIntent} {key : κ} {results rest : Keyed κ}
      {pending : List (String × String)} {groups : List (List κ)} :
      some key ≠ envelope → toolIntents ≠ [] → expectResults toolIntents [] = .ok pending →
      Answers envelope pending results → Complete envelope rest groups →
      Complete envelope ((.assistant text toolIntents, key) :: (results ++ rest))
        ((key :: results.map (·.2)) :: groups)

/-! ## Reading a history gives its shape -/

theorem expectResults_length {toolIntents : List ToolIntent}
    {before after : List (String × String)} (expected : expectResults toolIntents before = .ok after) :
    after.length = before.length + toolIntents.length := by
  induction toolIntents generalizing before with
  | nil =>
      simp only [expectResults, Except.ok.injEq] at expected
      simp [expected]
  | cons intent rest ih =>
      simp only [expectResults, bind_unit_ok_iff] at expected
      rw [ih expected.2.2]
      simp only [List.length_append, List.length_cons, List.length_nil]
      omega

theorem expectResults_nil_iff {toolIntents : List ToolIntent} :
    expectResults toolIntents [] = .ok [] ↔ toolIntents = [] := by
  constructor
  · intro expected
    have length := expectResults_length expected
    simp only [List.length_nil, Nat.zero_add] at length
    exact List.eq_nil_of_length_eq_zero length.symm
  · rintro rfl
    rfl

section Groups

variable {κ : Type} [DecidableEq κ] {envelope : Option κ}

theorem groupMessage_envelope {state : Grouping κ} {entry : ModelMessage × κ}
    (same : some entry.2 = envelope) (settled : state.pending = []) :
    groupMessage envelope state entry = .ok state := by
  simp [groupMessage, same, settled]

theorem fold_complete {entries : Keyed κ} {state last : Grouping κ}
    (folded : entries.foldlM (groupMessage envelope) state = .ok last)
    (settled : last.pending = []) :
    (state.pending = [] → state.current = [] →
      ∃ groups, last.groups = state.groups ++ groups ∧ Complete envelope entries groups) ∧
    (state.pending ≠ [] →
      ∃ results rest groups, entries = results ++ rest ∧ Answers envelope state.pending results ∧
        Complete envelope rest groups ∧
        last.groups = state.groups ++ (state.current ++ results.map (·.2)) :: groups) := by
  induction entries generalizing state with
  | nil =>
      simp only [List.foldlM_nil, pure_eq_ok, Except.ok.injEq] at folded
      subst folded
      exact ⟨fun _ _ => ⟨[], by simp, .nil⟩, fun open' => absurd settled open'⟩
  | cons entry rest ih =>
      obtain ⟨message, key⟩ := entry
      simp only [List.foldlM_cons, bind_ok_iff] at folded
      obtain ⟨middle, grouped, continued⟩ := folded
      have later := ih continued
      unfold groupMessage at grouped
      by_cases own : some key = envelope
      · simp only [own, if_true, bind_unit_ok_iff, ensure_ok_iff, List.isEmpty_iff, pure_eq_ok,
          Except.ok.injEq] at grouped
        obtain ⟨closed, rfl⟩ := grouped
        refine ⟨fun _ current => ?_, fun open' => absurd closed open'⟩
        obtain ⟨groups, collected, complete⟩ := later.1 closed current
        exact ⟨groups, collected, .envelope own complete⟩
      · simp only [own, if_false] at grouped
        cases message with
        | toolResult callId name content =>
            simp only at grouped
            cases found : state.pending.lookup callId with
            | none => simp [found] at grouped
            | some expectedName =>
                simp only [found, bind_unit_ok_iff, ensure_ok_iff, decide_eq_true_eq] at grouped
                obtain ⟨rfl, grouped⟩ := grouped
                refine ⟨fun closed => by simp [closed] at found, fun _ => ?_⟩
                split at grouped
                · next last' =>
                    simp only [pure_eq_ok, Except.ok.injEq] at grouped
                    subst grouped
                    obtain ⟨groups, collected, complete⟩ := later.1 (List.isEmpty_iff.mp last') rfl
                    refine ⟨[(.toolResult callId expectedName content, key)], rest, groups, rfl,
                      .cons own found ?_, complete, ?_⟩
                    · rw [List.isEmpty_iff.mp last']
                      exact .nil
                    · simp [collected]
                · next more =>
                    simp only [pure_eq_ok, Except.ok.injEq] at grouped
                    subst grouped
                    obtain ⟨results, behind, groups, rfl, answers, complete, collected⟩ :=
                      later.2 (by simpa [List.isEmpty_iff] using more)
                    refine ⟨(.toolResult callId expectedName content, key) :: results, behind,
                      groups, rfl, .cons own found answers, complete, ?_⟩
                    simp [collected]
        | system text =>
            simp only [bind_unit_ok_iff, ensure_ok_iff, List.isEmpty_iff, pure_eq_ok,
              Except.ok.injEq] at grouped
            obtain ⟨closed, rfl⟩ := grouped
            refine ⟨fun _ current => ?_, fun open' => absurd closed open'⟩
            obtain ⟨groups, collected, complete⟩ := later.1 closed current
            exact ⟨groups, collected, .system own complete⟩
        | user text =>
            simp only [bind_unit_ok_iff, ensure_ok_iff, List.isEmpty_iff, pure_eq_ok,
              Except.ok.injEq] at grouped
            obtain ⟨closed, rfl⟩ := grouped
            refine ⟨fun _ current => ?_, fun open' => absurd closed open'⟩
            obtain ⟨groups, collected, complete⟩ := later.1 closed current
            exact ⟨[key] :: groups, by simp [collected], .user own complete⟩
        | assistant text toolIntents =>
            rw [bind_unit_ok_iff, ensure_ok_iff, List.isEmpty_iff] at grouped
            simp only [bind_ok_iff] at grouped
            obtain ⟨closed, pending, expected, grouped⟩ := grouped
            refine ⟨fun _ current => ?_, fun open' => absurd closed open'⟩
            split at grouped
            · next none =>
                simp only [pure_eq_ok, Except.ok.injEq] at grouped
                subst grouped
                obtain rfl := List.isEmpty_iff.mp none
                obtain rfl := expectResults_nil_iff.mp expected
                obtain ⟨groups, collected, complete⟩ := later.1 closed current
                exact ⟨[key] :: groups, by simp [collected], .answer own complete⟩
            · next calls =>
                rw [List.isEmpty_iff] at calls
                simp only [pure_eq_ok, Except.ok.injEq] at grouped
                subst grouped
                obtain ⟨results, behind, groups, rfl, answers, complete, collected⟩ :=
                  later.2 calls
                refine ⟨(key :: results.map (·.2)) :: groups, by simp [collected, current], ?_⟩
                refine .batch own ?_ expected answers complete
                rintro rfl
                simp only [expectResults, Except.ok.injEq] at expected
                exact calls expected.symm

omit [DecidableEq κ] in
theorem answers_nil_iff {results : Keyed κ} : Answers envelope [] results ↔ results = [] := by
  constructor
  · intro answers
    cases answers with
    | nil => rfl
    | cons _ found _ => cases found
  · rintro rfl
    exact .nil

theorem fold_answers {pending : List (String × String)} {results : Keyed κ}
    (answers : Answers envelope pending results) (open' : pending ≠ []) (current : List κ)
    (groups : List (List κ)) :
    results.foldlM (groupMessage envelope) { pending, current, groups } =
      .ok { pending := [], current := [], groups := groups ++ [current ++ results.map (·.2)] } := by
  induction answers generalizing current groups with
  | nil => exact absurd rfl open'
  | @cons pending callId name content key results foreign found rest ih =>
      have grouped : groupMessage envelope { pending, current, groups }
          (.toolResult callId name content, key) =
            if (settle pending callId).isEmpty then
              .ok { pending := settle pending callId, current := [],
                    groups := groups ++ [current ++ [key]] }
            else .ok { pending := settle pending callId, current := current ++ [key], groups } := by
        simp [groupMessage, foreign, found, ensure]
      rw [List.foldlM_cons, grouped]
      split
      · next last =>
          rw [List.isEmpty_iff] at last
          rw [last] at rest ⊢
          rw [answers_nil_iff.mp rest]
          rfl
      · next more =>
          rw [ok_bind, ih (by simpa [List.isEmpty_iff] using more)]
          simp

theorem fold_of_complete {entries : Keyed κ} {groups : List (List κ)}
    (complete : Complete envelope entries groups) (earlier : List (List κ)) :
    entries.foldlM (groupMessage envelope) { groups := earlier } =
      .ok { groups := earlier ++ groups } := by
  induction complete generalizing earlier with
  | nil => simp
  | envelope same _ ih =>
      rw [List.foldlM_cons, groupMessage_envelope same rfl]
      exact ih earlier
  | system foreign _ ih =>
      rw [List.foldlM_cons]
      simpa [groupMessage, foreign] using ih earlier
  | @user text key rest groups foreign _ ih =>
      rw [List.foldlM_cons]
      simpa [groupMessage, foreign] using ih (earlier ++ [[key]])
  | @answer text key rest groups foreign _ ih =>
      rw [List.foldlM_cons]
      simpa [groupMessage, foreign, expectResults] using ih (earlier ++ [[key]])
  | @batch text toolIntents key results rest pending groups foreign calls expected answers _ ih =>
      have open' : pending ≠ [] := by
        rintro rfl
        exact calls (expectResults_nil_iff.mp expected)
      have grouped : groupMessage envelope { groups := earlier } (.assistant text toolIntents, key) =
          .ok { pending, current := [key], groups := earlier } := by
        simp [groupMessage, foreign, expected, open']
      rw [List.foldlM_cons, grouped, ok_bind, List.foldlM_append, fold_answers answers open',
        ok_bind, ih]
      simp

theorem expectResults_error {toolIntents : List ToolIntent} {pending : List (String × String)}
    {error : Error} (failed : expectResults toolIntents pending = .error error) :
    ∃ reason, error = .invalidModelTurn reason := by
  induction toolIntents generalizing pending with
  | nil => cases failed
  | cons intent rest ih =>
      simp only [expectResults, ensure] at failed
      split at failed
      · simp only [ok_bind] at failed
        split at failed
        · exact ih failed
        · exact ⟨_, (Except.error.inj failed).symm⟩
      · exact ⟨_, (Except.error.inj failed).symm⟩

theorem groupMessage_error {state : Grouping κ} {entry : ModelMessage × κ} {error : Error}
    (failed : groupMessage envelope state entry = .error error) :
    ∃ reason, error = .invalidModelTurn reason := by
  obtain ⟨message, key⟩ := entry
  unfold groupMessage at failed
  by_cases own : some key = envelope
  · simp only [own, if_true, ensure] at failed
    split at failed
    · cases failed
    · exact ⟨_, (Except.error.inj failed).symm⟩
  · simp only [own, if_false] at failed
    cases message with
    | toolResult callId name content =>
        simp only at failed
        split at failed
        · exact ⟨_, (Except.error.inj failed).symm⟩
        · simp only [ensure] at failed
          split at failed
          · simp only [ok_bind] at failed
            split at failed <;> cases failed
          · exact ⟨_, (Except.error.inj failed).symm⟩
    | system text =>
        simp only [ensure] at failed
        split at failed
        · cases failed
        · exact ⟨_, (Except.error.inj failed).symm⟩
    | user text =>
        simp only [ensure] at failed
        split at failed
        · cases failed
        · exact ⟨_, (Except.error.inj failed).symm⟩
    | assistant text toolIntents =>
        simp only [ensure] at failed
        split at failed
        · cases expected : expectResults toolIntents [] with
          | error other =>
              simp only [expected, ok_bind, error_bind, Except.error.injEq] at failed
              exact failed ▸ expectResults_error expected
          | ok pending =>
              simp only [expected, ok_bind] at failed
              split at failed <;> cases failed
        · exact ⟨_, (Except.error.inj failed).symm⟩

theorem completeGroups_error {entries : Keyed κ} {error : Error}
    (failed : completeGroups envelope entries = .error error) :
    ∃ reason, error = .invalidModelTurn reason := by
  unfold completeGroups at failed
  cases folded : entries.foldlM (groupMessage envelope) {} with
  | error other =>
      rw [folded, error_bind] at failed
      obtain ⟨entry, -, state, -, failed'⟩ := foldlM_error_invariant (fun _ => True)
        (fun _ _ _ _ _ _ => trivial) trivial folded
      exact Except.error.inj failed ▸ groupMessage_error failed'
  | ok state =>
      simp only [folded, ok_bind, ensure] at failed
      split at failed
      · cases failed
      · exact ⟨_, (Except.error.inj failed).symm⟩

/-- The loop accepts a history exactly when it has this shape. -/
theorem completeGroups_ok_iff {entries : Keyed κ} {groups : List (List κ)} :
    completeGroups envelope entries = .ok groups ↔ Complete envelope entries groups := by
  constructor
  · intro grouped
    obtain ⟨state, folded, grouped⟩ := bind_ok_iff.mp grouped
    rw [bind_unit_ok_iff, ensure_ok_iff, List.isEmpty_iff, pure_eq_ok, Except.ok.injEq] at grouped
    obtain ⟨settled, rfl⟩ := grouped
    obtain ⟨groups, collected, complete⟩ := (fold_complete folded settled).1 rfl rfl
    rw [collected]
    exact complete
  · intro complete
    simp [completeGroups, fold_of_complete complete []]

end Groups

end Kvist.Runtime
