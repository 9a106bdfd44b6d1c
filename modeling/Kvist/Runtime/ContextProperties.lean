import Kvist.Runtime.Context

/-! What the context manager guarantees about the size of a prepared request. -/

set_option autoImplicit false

namespace Kvist.Runtime

/-! ## Fitting the summary -/

theorem fitLength_bounds (fits : Nat → Bool) {low high : Nat} (ordered : low ≤ high) :
    fitLength fits low high ≤ high ∧
      (fitLength fits low high = low ∨ fits (fitLength fits low high) = true) := by
  fun_induction fitLength fits low high with
  | case1 low high smaller length tried ih =>
      have within : length ≤ high := by
        simp only [length, divCeil]
        omega
      obtain ⟨bound, outcome⟩ := ih within
      refine ⟨bound, .inr ?_⟩
      rcases outcome with same | fitting
      · rw [same]
        exact tried
      · exact fitting
  | case2 low high smaller length tried ih =>
      have within : low ≤ length - 1 := by
        simp only [length, divCeil]
        omega
      have smaller' : length - 1 ≤ high := by
        simp only [length, divCeil]
        omega
      obtain ⟨bound, outcome⟩ := ih within
      exact ⟨bound.trans smaller', outcome⟩
  | case3 low high finished => exact ⟨ordered, .inl rfl⟩

theorem suffix_length (text : String) (length : Nat) :
    (suffix text length).toList.length = min length text.toList.length := by
  simp only [suffix, String.toList_ofList, List.length_drop]
  omega

/-- The summary is left out, or a nonempty part of it is inserted and the request fits. -/
theorem fitSummary_cases (request : ModelRequest) (summary : String) (reserve limit : Nat) :
    fitSummary request summary reserve limit = (request, "") ∨
      ∃ fitted, fitted ≠ "" ∧ fitted.toList.length ≤ summary.toList.length ∧
        fitSummary request summary reserve limit = (withSummary request fitted, fitted) ∧
        estimateRequest (withSummary request fitted) + reserve ≤ limit := by
  unfold fitSummary
  split
  · exact .inl rfl
  · next present =>
      simp only [decide_eq_true_eq]
      split
      · next fits => exact .inr ⟨summary, present, Nat.le_refl _, rfl, fits⟩
      · obtain ⟨bound, outcome⟩ := fitLength_bounds
          (fun length =>
            decide (estimateRequest (withSummary request (suffix summary length)) + reserve ≤ limit))
          (Nat.zero_le summary.toList.length)
        split
        · exact .inl rfl
        · next positive =>
            refine .inr ⟨_, ?_, ?_, rfl, by simpa using outcome.resolve_left positive⟩
            · intro empty
              have none := congrArg (fun text : String => text.toList.length) empty
              simp only [suffix_length, String.toList_empty, List.length_nil] at none
              rw [Nat.min_eq_left bound] at none
              exact positive none
            · rw [suffix_length]
              exact Nat.min_le_right _ _

namespace ContextManager

variable {κ : Type} [DecidableEq κ] {fromStr : String → Option Json.Value}

def foldSummaries (fromStr : String → Option Json.Value) (entries : Keyed κ) (rolled : String)
    (groups : List (List κ)) : String :=
  groups.foldl (fun rolled group => appendGroupSummary fromStr rolled (messagesAt entries group))
    rolled

theorem foldSummaries_length {entries : Keyed κ} {rolled : String} {groups : List (List κ)}
    (bounded : rolled.toList.length ≤ MAX_SUMMARY_CHARS) :
    (foldSummaries fromStr entries rolled groups).toList.length ≤ MAX_SUMMARY_CHARS := by
  induction groups generalizing rolled with
  | nil => exact bounded
  | cons group rest ih => exact ih (appendGroupSummary_length bounded)

/-- The loop folds a first part of the remaining groups. It stops where the rest fits, or with all
of them folded and the rest still too large. -/
theorem compactFrom_cases (fromStr : String → Option Json.Value) (manager : ContextManager) (request : ModelRequest) (reserve : Nat)
    (envelope : Option κ) (entries : Keyed κ) (rolled : String) (folded remaining : List (List κ)) :
    ∃ more rest, remaining = more ++ rest ∧
      ((manager.fitsWindow reserve (irreducible request envelope entries (folded ++ more))
            (!rest.isEmpty) = true ∧
          compactFrom fromStr manager request reserve envelope entries rolled folded remaining =
            .ok (manager.settleSummary request reserve envelope entries
              (foldSummaries fromStr entries rolled more) (folded ++ more))) ∨
        (rest = [] ∧
          manager.fitsWindow reserve (irreducible request envelope entries (folded ++ more))
            false = false ∧
          compactFrom fromStr manager request reserve envelope entries rolled folded remaining =
            .error (manager.overflowError reserve
              (irreducible request envelope entries (folded ++ more))))) := by
  induction remaining generalizing rolled folded with
  | nil =>
      refine ⟨[], [], rfl, ?_⟩
      simp only [List.append_nil, compactFrom]
      split
      · next fits => exact .inl ⟨fits, rfl⟩
      · next large => exact .inr ⟨trivial, by simpa using large, rfl⟩
  | cons group rest ih =>
      by_cases fits : manager.fitsWindow reserve
          (irreducible request envelope entries folded) true = true
      · refine ⟨[], group :: rest, rfl, .inl ?_⟩
        simp [compactFrom, fits, foldSummaries]
      · obtain ⟨more, behind, rfl, outcome⟩ := ih
          (appendGroupSummary fromStr rolled (messagesAt entries group)) (folded ++ [group])
        refine ⟨group :: more, behind, rfl, ?_⟩
        simpa [compactFrom, fits, foldSummaries] using outcome

theorem fitsWindow_iff {manager : ContextManager} {reserve : Nat} {candidate : ModelRequest}
    {canRemoveMore : Bool} :
    manager.fitsWindow reserve candidate canRemoveMore = true ↔
      estimateRequest candidate + reserve ≤ manager.limitTokens ∧
        candidate.messages.length ≤ MAX_MESSAGES ∧
        (manager.capacityRetention = true →
          (estimateRequest candidate + reserve ≤ manager.target ∧
            candidate.messages.length < MAX_MESSAGES * 65 / 100) ∨ canRemoveMore = false) := by
  simp only [fitsWindow, Bool.and_eq_true, decide_eq_true_eq, Bool.or_eq_true, Bool.not_eq_true']
  cases manager.capacityRetention <;> simp [and_assoc]

theorem target_le (manager : ContextManager) : manager.target ≤ manager.limitTokens := by
  unfold target
  split
  · refine (Nat.div_le_div_right (Nat.min_le_left _ _)).trans ?_
    omega
  · exact Nat.le_refl _

/-- How a rewritten history comes about. -/
structure Settled (manager : ContextManager) (request : ModelRequest) (reserve : Nat)
    (envelope : Option κ) (entries : Keyed κ) (rolled : String) (rewrite : Rewrite κ) : Prop where
  kept : rewrite.kept = keptEntries envelope rewrite.folded entries
  changed : rewrite.folded ≠ [] ∨ envelope.isSome = true
  bounded : rewrite.summary.toList.length ≤ rolled.toList.length
  messages : rewrite.messages =
    if rewrite.summary = "" then rewrite.kept.map (·.1)
    else insertSummary (rewrite.kept.map (·.1)) rewrite.summary

theorem settleSummary_some {manager : ContextManager} {request : ModelRequest} {reserve : Nat}
    {envelope : Option κ} {entries : Keyed κ} {rolled : String} {folded : List (List κ)}
    {rewrite : Rewrite κ}
    (settled : manager.settleSummary request reserve envelope entries rolled folded = some rewrite)
    (fits : estimateRequest (irreducible request envelope entries folded) + reserve ≤
      manager.limitTokens)
    (few : (irreducible request envelope entries folded).messages.length ≤ MAX_MESSAGES) :
    rewrite.folded = folded ∧
      Settled manager request reserve envelope entries rolled rewrite ∧
      estimateRequest { request with messages := rewrite.messages } + reserve ≤
        manager.limitTokens ∧
      rewrite.messages.length ≤ MAX_MESSAGES := by
  unfold settleSummary at settled
  simp only at settled
  split at settled
  · cases settled
  · next changed =>
      simp only [Option.some.injEq] at settled
      have kept : folded ≠ [] ∨ envelope.isSome = true := by
        simpa [List.isEmpty_iff, imp_iff_not_or, Option.isSome_iff_ne_none] using changed
      have window : (if manager.capacityRetention = true then
          max manager.target (estimateRequest (irreducible request envelope entries folded) + reserve)
          else manager.limitTokens) ≤ manager.limitTokens := by
        split
        · exact Nat.max_le.mpr ⟨manager.target_le, fits⟩
        · exact Nat.le_refl _
      rcases fitSummary_cases (irreducible request envelope entries folded)
          (if (irreducible request envelope entries folded).messages.length = MAX_MESSAGES then ""
            else rolled) reserve
          (if manager.capacityRetention = true then
            max manager.target
              (estimateRequest (irreducible request envelope entries folded) + reserve)
          else manager.limitTokens) with omitted | ⟨fitted, present, bounded, inserted, within⟩
      · rw [omitted] at settled
        subst settled
        exact ⟨rfl, ⟨rfl, kept, Nat.zero_le _, by simp [irreducible]⟩, fits, few⟩
      · rw [inserted] at settled
        subst settled
        have room : (irreducible request envelope entries folded).messages.length ≠
            MAX_MESSAGES := by
          intro full
          rw [if_pos full] at bounded
          apply present
          apply String.toList_injective
          exact List.eq_nil_of_length_eq_zero (Nat.le_zero.mp bounded)
        rw [if_neg room] at bounded
        refine ⟨rfl, ⟨rfl, kept, bounded, ?_⟩, within.trans window, ?_⟩
        · simp only [if_neg present]
          rfl
        · have length : (withSummary (irreducible request envelope entries folded)
              fitted).messages.length =
              (irreducible request envelope entries folded).messages.length + 1 := by
            simp only [withSummary, insertSummary, List.length_append, List.length_cons,
              ← Nat.add_assoc]
            rw [← List.length_append, List.takeWhile_append_dropWhile]
          simp only [length]
          omega

/-! ## The plan -/

/-- The plan leaves the history as it is, folds a first part of the foldable groups, or fails. -/
inductive Planned (fromStr : String → Option Json.Value) (manager : ContextManager)
    (request : ModelRequest) (reserve : Nat) (entries : Keyed κ) :
    Except Error (Option (Rewrite κ)) → Prop where
  | malformed {error : Error} :
      completeGroups (priorSummary manager.summary entries) entries = .error error →
      Planned fromStr manager request reserve entries (.error error)
  | early {groups : List (List κ)} :
      completeGroups (priorSummary manager.summary entries) entries = .ok groups →
      estimateRequest request + reserve ≤ manager.limitTokens →
      manager.shouldCompact (estimateRequest request + reserve) = false →
      request.messages.length ≤ MAX_MESSAGES →
      Planned fromStr manager request reserve entries (.ok none)
  | settled {groups : List (List κ)} {folded rest : List (List κ)} :
      completeGroups (priorSummary manager.summary entries) entries = .ok groups →
      ¬(estimateRequest request + reserve ≤ manager.limitTokens ∧
        manager.shouldCompact (estimateRequest request + reserve) = false ∧
        request.messages.length ≤ MAX_MESSAGES) →
      (eligible (priorSummary manager.summary entries) entries groups).map (·.1) =
        folded ++ rest →
      ((eligible (priorSummary manager.summary entries) entries groups).takeWhile
        (·.2 < groups.length - manager.keepFullTurns)).length ≤ folded.length →
      manager.fitsWindow reserve
        (irreducible request (priorSummary manager.summary entries) entries folded)
        (!rest.isEmpty) = true →
      Planned fromStr manager request reserve entries
        (.ok (manager.settleSummary request reserve (priorSummary manager.summary entries) entries
          (foldSummaries fromStr entries manager.summary folded) folded))
  | overflow {groups : List (List κ)} :
      completeGroups (priorSummary manager.summary entries) entries = .ok groups →
      manager.fitsWindow reserve
        (irreducible request (priorSummary manager.summary entries) entries
          ((eligible (priorSummary manager.summary entries) entries groups).map (·.1)))
        false = false →
      Planned fromStr manager request reserve entries
        (.error (manager.overflowError reserve
          (irreducible request (priorSummary manager.summary entries) entries
            ((eligible (priorSummary manager.summary entries) entries groups).map (·.1)))))

theorem plan_planned (fromStr : String → Option Json.Value) (manager : ContextManager) (request : ModelRequest) (reserve : Nat)
    (entries : Keyed κ) :
    Planned fromStr manager request reserve entries
      (manager.plan fromStr request reserve entries) := by
  simp only [plan]
  cases grouped : completeGroups (priorSummary manager.summary entries) entries with
  | error error => exact .malformed grouped
  | ok groups =>
      simp only [ok_bind, Bool.and_eq_true, decide_eq_true_eq, Bool.not_eq_true', pure_eq_ok]
      split
      · next fits => exact .early grouped fits.1.1 fits.1.2 fits.2
      · next large =>
          have parts : (eligible (priorSummary manager.summary entries) entries groups).map (·.1) =
              ((eligible (priorSummary manager.summary entries) entries groups).takeWhile
                (·.2 < groups.length - manager.keepFullTurns)).map (·.1) ++
              ((eligible (priorSummary manager.summary entries) entries groups).dropWhile
                (·.2 < groups.length - manager.keepFullTurns)).map (·.1) := by
            rw [← List.map_append, List.takeWhile_append_dropWhile]
          obtain ⟨more, rest, split, outcome⟩ := compactFrom_cases fromStr manager
            request reserve (priorSummary manager.summary entries) entries
            (foldSummaries fromStr entries manager.summary
              (((eligible (priorSummary manager.summary entries) entries groups).takeWhile
                (·.2 < groups.length - manager.keepFullTurns)).map (·.1)))
            (((eligible (priorSummary manager.summary entries) entries groups).takeWhile
              (·.2 < groups.length - manager.keepFullTurns)).map (·.1))
            (((eligible (priorSummary manager.summary entries) entries groups).dropWhile
              (·.2 < groups.length - manager.keepFullTurns)).map (·.1))
          rw [split, ← List.append_assoc] at parts
          change Planned fromStr manager request reserve entries
            (compactFrom fromStr manager request reserve (priorSummary manager.summary entries)
              entries (foldSummaries fromStr entries manager.summary _) _ _)
          rcases outcome with ⟨fits, same⟩ | ⟨rfl, full, same⟩
          · have folded : foldSummaries fromStr entries manager.summary
                (((eligible (priorSummary manager.summary entries) entries groups).takeWhile
                  (·.2 < groups.length - manager.keepFullTurns)).map (·.1) ++ more) =
                foldSummaries fromStr entries (foldSummaries fromStr entries manager.summary
                  (((eligible (priorSummary manager.summary entries) entries groups).takeWhile
                    (·.2 < groups.length - manager.keepFullTurns)).map (·.1))) more := by
              simp only [foldSummaries, List.foldl_append]
            rw [same, ← folded]
            exact .settled grouped (by simpa [and_assoc] using large) parts (by simp) fits
          · rw [List.append_nil] at parts
            rw [← parts] at full same
            rw [same]
            exact .overflow grouped full

/-! ## The budget -/

/-- The request without its envelope and without any group that may be folded. -/
def stripped (manager : ContextManager) (request : ModelRequest) (reserve : Nat)
    (groups : List (List Nat)) : ModelRequest :=
  let envelope := priorSummary manager.summary request.messages.zipIdx
  irreducible { request with maxOutputTokens := some reserve } envelope request.messages.zipIdx
    ((eligible envelope request.messages.zipIdx groups).map (·.1))

theorem irreducible_unchanged {request : ModelRequest} {entries : Keyed κ}
    (messages : entries.map (·.1) = request.messages) :
    irreducible request none entries [] = request := by
  simp [irreducible, keptEntries, messages]

theorem settleSummary_none {manager : ContextManager} {request : ModelRequest} {reserve : Nat}
    {envelope : Option κ} {entries : Keyed κ} {rolled : String} {folded : List (List κ)}
    (settled : manager.settleSummary request reserve envelope entries rolled folded = none) :
    folded = [] ∧ envelope = none := by
  unfold settleSummary at settled
  simp only at settled
  split at settled
  · next unchanged => simpa [List.isEmpty_iff] using unchanged
  · cases settled

theorem planned_fits {manager : ContextManager} {request : ModelRequest} {reserve : Nat}
    {entries : Keyed κ} (messages : entries.map (·.1) = request.messages)
    {outcome : Option (Rewrite κ)}
    (planned : Planned fromStr manager request reserve entries (.ok outcome)) :
    estimateRequest { request with
        messages := (outcome.map (·.messages)).getD request.messages } + reserve ≤
      manager.limitTokens ∧
    ((outcome.map (·.messages)).getD request.messages).length ≤ MAX_MESSAGES := by
  generalize same : (Except.ok outcome : Except Error (Option (Rewrite κ))) = result at planned
  cases planned with
  | malformed => cases same
  | early _ fits _ few =>
      cases same
      exact ⟨fits, few⟩
  | overflow => cases same
  | @settled groups folded rest _ _ _ _ window =>
      have same := Except.ok.inj same
      obtain ⟨fits, few, -⟩ := fitsWindow_iff.mp window
      cases outcome with
      | none =>
          obtain ⟨rfl, none⟩ := settleSummary_none same.symm
          rw [none, irreducible_unchanged messages] at fits few
          exact ⟨fits, few⟩
      | some rewrite => exact (settleSummary_some same.symm fits few).2.2

theorem few_of_contextBudget {manager : ContextManager} {reserve used limit reserved : Nat}
    {candidate : ModelRequest}
    (failure : manager.overflowError reserve candidate = .contextBudget used limit reserved) :
    candidate.messages.length ≤ MAX_MESSAGES := by
  unfold overflowError at failure
  split at failure
  · cases failure
  · next few => exact Nat.not_lt.mp few

/-- What `prepare` leaves behind when it fails, and when it succeeds. -/
theorem prepare_cases (fromStr : String → Option Json.Value) (manager : ContextManager)
    (request : ModelRequest) (reserve : Nat) :
    (∃ error, manager.prepare fromStr request reserve = ⟨.error error, manager, request⟩ ∧
      ((∃ reason, error = .config reason) ∨
        manager.plan fromStr { request with maxOutputTokens := some reserve } reserve
          request.messages.zipIdx = .error error)) ∨
    ∃ compaction outcome summary compactions,
      manager.plan fromStr { request with maxOutputTokens := some reserve } reserve
        request.messages.zipIdx = .ok outcome ∧
      summary = (outcome.map (·.summary)).getD manager.summary ∧
      manager.prepare fromStr request reserve =
        ⟨.ok compaction, { manager with summary, compactions },
          { request with
            messages := (outcome.map (·.messages)).getD request.messages
            maxOutputTokens := some reserve }⟩ := by
  simp only [prepare]
  split
  · cases planned : manager.plan fromStr { request with maxOutputTokens := some reserve } reserve
        request.messages.zipIdx with
    | error error => exact .inl ⟨error, rfl, .inr rfl⟩
    | ok outcome =>
        cases outcome with
        | none => exact .inr ⟨none, none, _, manager.compactions, rfl, rfl, rfl⟩
        | some rewrite => exact .inr ⟨_, some rewrite, _, _, rfl, rfl, rfl⟩
  · exact .inl ⟨_, rfl, .inl ⟨_, rfl⟩⟩

theorem prepare_fits {manager : ContextManager} {request : ModelRequest} {reserve : Nat}
    {compaction : Option Compaction}
    (prepared : (manager.prepare fromStr request reserve).result = .ok compaction) :
    estimateRequest (manager.prepare fromStr request reserve).request + reserve ≤
        manager.limitTokens ∧
      (manager.prepare fromStr request reserve).request.messages.length ≤ MAX_MESSAGES ∧
      (manager.prepare fromStr request reserve).request.maxOutputTokens = some reserve := by
  rcases prepare_cases fromStr manager request reserve with
    ⟨error, failed, -⟩ | ⟨_, outcome, _, _, plan, -, succeeded⟩
  · rw [failed] at prepared
    cases prepared
  · have planned := plan_planned fromStr manager
      { request with maxOutputTokens := some reserve } reserve request.messages.zipIdx
    rw [plan] at planned
    obtain ⟨fits, few⟩ := planned_fits (by simp [List.zipIdx_map_fst]) planned
    rw [succeeded]
    exact ⟨fits, few, rfl⟩

theorem prepare_unchanged {manager : ContextManager} {request : ModelRequest} {reserve : Nat}
    {error : Error}
    (failed : (manager.prepare fromStr request reserve).result = .error error) :
    (manager.prepare fromStr request reserve).request = request ∧
      (manager.prepare fromStr request reserve).manager = manager := by
  rcases prepare_cases fromStr manager request reserve with
    ⟨_, same, -⟩ | ⟨_, _, _, _, -, -, succeeded⟩
  · rw [same]
    exact ⟨rfl, rfl⟩
  · rw [succeeded] at failed
    cases failed

theorem prepare_overflows {manager : ContextManager} {request : ModelRequest}
    {reserve used limit reserved : Nat}
    (failed : (manager.prepare fromStr request reserve).result =
      .error (.contextBudget used limit reserved)) :
    ∃ groups, completeGroups (priorSummary manager.summary request.messages.zipIdx)
        request.messages.zipIdx = .ok groups ∧
      manager.limitTokens < estimateRequest (manager.stripped request reserve groups) + reserve := by
  rcases prepare_cases fromStr manager request reserve with
    ⟨error, same, cause⟩ | ⟨_, _, _, _, -, -, succeeded⟩
  · rw [same] at failed
    have same := Except.error.inj failed
    subst same
    rcases cause with ⟨reason, impossible⟩ | plan
    · cases impossible
    · have planned := plan_planned fromStr manager
        { request with maxOutputTokens := some reserve } reserve request.messages.zipIdx
      rw [plan] at planned
      generalize failure : (Except.error (Error.contextBudget used limit reserved) :
        Except Error (Option (Rewrite Nat))) = result at planned
      cases planned with
      | malformed malformed =>
          obtain rfl := Except.error.inj failure
          obtain ⟨reason, impossible⟩ := completeGroups_error malformed
          cases impossible
      | early => cases failure
      | settled => cases failure
      | @overflow groups grouped full =>
          refine ⟨groups, grouped, ?_⟩
          have few := few_of_contextBudget (Except.error.inj failure).symm
          by_contra fits
          rw [← Bool.not_eq_true, fitsWindow_iff] at full
          exact full ⟨Nat.not_lt.mp fits, few, fun _ => .inr rfl⟩
  · rw [succeeded] at failed
    cases failed

theorem prepare_budget (fromStr : String → Option Json.Value) (manager : ContextManager)
    (request : ModelRequest) (reserve : Nat) :
    (∀ compaction, (manager.prepare fromStr request reserve).result = .ok compaction →
      estimateRequest (manager.prepare fromStr request reserve).request + reserve ≤
          manager.limitTokens ∧
        (manager.prepare fromStr request reserve).request.messages.length ≤ MAX_MESSAGES ∧
        (manager.prepare fromStr request reserve).request.maxOutputTokens = some reserve) ∧
    (∀ error, (manager.prepare fromStr request reserve).result = .error error →
      (manager.prepare fromStr request reserve).request = request ∧
        (manager.prepare fromStr request reserve).manager = manager) ∧
    (∀ used limit reserved, (manager.prepare fromStr request reserve).result =
        .error (.contextBudget used limit reserved) →
      ∃ groups, completeGroups (priorSummary manager.summary request.messages.zipIdx)
          request.messages.zipIdx = .ok groups ∧
        manager.limitTokens <
          estimateRequest (manager.stripped request reserve groups) + reserve) :=
  ⟨fun _ prepared => prepare_fits prepared, fun _ failed => prepare_unchanged failed,
    fun _ _ _ failed => prepare_overflows failed⟩

end ContextManager

end Kvist.Runtime
