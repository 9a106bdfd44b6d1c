import Kvist.LoopDetection.Actions
import Mathlib.Data.List.Chain
import Mathlib.Data.List.DropRight

/-!
# Runs of the tracker

A run proposes actions one after another. What is refused is not executed, and what is executed is
observed before the next proposal. As long as the state does not change, the history holds the last
of the executions.
-/

set_option autoImplicit false

namespace Kvist.LoopDetection

open Kvist.Runtime (ToolIntent ToolOutcome)

/-- A proposed action, and what comes of it if it is executed. -/
structure Proposal where
  intent : ToolIntent
  repeatable : Bool
  outcome : ToolOutcome
  progress : ProgressEvidence

structure Execution where
  record : Record
  repeatable : Bool
  report : Option ToolLoopReport

section Runs

variable (sha256 : List UInt8 → List UInt8)

namespace ToolLoopTracker

def act (tracker : ToolLoopTracker) (proposal : Proposal) : Option Execution × ToolLoopTracker :=
  match tracker.propose sha256 proposal.intent proposal.repeatable with
  | some _ => (none, tracker)
  | none =>
      let observed := tracker.observe sha256 proposal.intent proposal.outcome proposal.repeatable
        proposal.progress
      (some ⟨recordOf sha256 proposal.intent proposal.outcome, proposal.repeatable, observed.1⟩,
        observed.2)

/-- The executions of a run, and the tracker behind it. -/
def run (tracker : ToolLoopTracker) : List Proposal → List Execution × ToolLoopTracker
  | [] => ([], tracker)
  | proposal :: rest =>
      let acted := tracker.act sha256 proposal
      let later := run acted.2 rest
      (acted.1.toList ++ later.1, later.2)

end ToolLoopTracker

end Runs

/-! ## The window of the history -/

section Windows

variable {Item : Type} {items : List Item} {limit : Nat}

theorem rtake_of_length_le (short : items.length ≤ limit) : items.rtake limit = items := by
  rw [List.rtake, Nat.sub_eq_zero_of_le short, List.drop_zero]

theorem rtake_length : (items.rtake limit).length = min items.length limit := by
  rw [List.rtake, List.length_drop]
  omega

/-- One item more leaves the last of the items before it, one item fewer. -/
theorem rtake_rtake_concat (item : Item) :
    (items.rtake limit ++ [item]).rtake limit = (items ++ [item]).rtake limit := by
  cases limit with
  | zero => simp
  | succ limit =>
    rw [List.rtake_concat_succ, List.rtake_concat_succ]
    congr 1
    rw [List.rtake, List.rtake, List.rtake, List.drop_drop, List.length_drop]
    congr 1
    omega

/-- What stands at the end of the items and is no longer than the limit is all there. -/
theorem rtake_append {front : List Item} (short : items.length ≤ limit) :
    ∃ rest, (front ++ items).rtake limit = rest ++ items := by
  rw [List.rtake, List.length_append]
  refine ⟨front.drop (front.length + items.length - limit), ?_⟩
  rw [List.drop_append_of_le_length (by omega)]

end Windows

namespace ToolLoopTracker

variable {sha256 : List UInt8 → List UInt8} {tracker : ToolLoopTracker}

theorem push_history (bounded : tracker.history.length ≤ historyLimit) (record : Record) :
    (tracker.push record).history = (tracker.history ++ [record]).rtake historyLimit := by
  rw [push]
  split
  · rename_i full
    cases items : tracker.history with
    | nil => rw [items] at full; cases full
    | cons oldest rest =>
      rw [items, List.length_cons] at full
      rw [List.rtake, List.length_append, List.length_cons, List.length_singleton]
      rw [show rest.length + 1 + 1 - historyLimit = 1 by omega]
      rfl
  · rename_i free
    rw [rtake_of_length_le]
    rw [List.length_append, List.length_singleton]
    omega

/-- The executions are what the history ends with, as far as it goes back. -/
def Holds (tracker : ToolLoopTracker) (executions : List Execution) : Prop :=
  ∃ before, tracker.history = (before ++ executions.map (·.record)).rtake historyLimit

theorem Holds.bounded {executions : List Execution} (holds : tracker.Holds executions) :
    tracker.history.length ≤ historyLimit := by
  obtain ⟨before, history⟩ := holds
  rw [history, rtake_length]
  exact Nat.min_le_right _ _

theorem holds_nil (bounded : tracker.history.length ≤ historyLimit) : tracker.Holds [] :=
  ⟨tracker.history, by rw [List.map_nil, List.append_nil, rtake_of_length_le bounded]⟩

/-- The last executions, no more than the limit, stand at the end of the history. -/
theorem Holds.recent {early late : List Execution} (holds : tracker.Holds (early ++ late))
    (short : late.length ≤ historyLimit) :
    ∃ before, tracker.history = before ++ late.map (·.record) := by
  obtain ⟨before, history⟩ := holds
  rw [List.map_append, ← List.append_assoc] at history
  rw [history]
  exact rtake_append (by rwa [List.length_map])

/-! ## One step -/

/-- What is executed was not refused, and is observed. -/
theorem act_cases (proposal : Proposal) :
    tracker.act sha256 proposal = (none, tracker) ∨
      (tracker.propose sha256 proposal.intent proposal.repeatable = none ∧
        tracker.act sha256 proposal =
          (some ⟨recordOf sha256 proposal.intent proposal.outcome, proposal.repeatable,
              (tracker.observe sha256 proposal.intent proposal.outcome proposal.repeatable
                proposal.progress).1⟩,
            (tracker.observe sha256 proposal.intent proposal.outcome proposal.repeatable
              proposal.progress).2)) := by
  rw [act]
  cases tracker.propose sha256 proposal.intent proposal.repeatable with
  | some report => exact Or.inl rfl
  | none => exact Or.inr ⟨rfl, rfl⟩

theorem propose_none {intent : ToolIntent} {repeatable : Bool}
    (allowed : tracker.propose sha256 intent repeatable = none) (effects : repeatable = false) :
    (tracker.history.getLast?.any fun record => record.action == actionOf sha256 intent) = false ∧
      (tracker.history.countP fun record => record.action == actionOf sha256 intent) < 2 := by
  rw [propose, if_neg (by rw [effects]; decide)] at allowed
  dsimp only at allowed
  split at allowed
  · cases allowed
  · rename_i unrepeated
    rw [Bool.or_eq_true, not_or, Bool.not_eq_true, decide_eq_true_eq, Nat.not_le] at unrepeated
    exact unrepeated

theorem observe_tracker (intent : ToolIntent) (outcome : ToolOutcome) (repeatable : Bool)
    (progress : ProgressEvidence) :
    (tracker.observe sha256 intent outcome repeatable progress).2 =
      (if progress = .stateChanged then new else tracker).push (recordOf sha256 intent outcome) :=
  rfl

theorem cycle_isSome {before copy : List Record} (long : 2 ≤ copy.length)
    (short : copy.length ≤ cycleLimit) (history : tracker.history = before ++ (copy ++ copy)) :
    tracker.cycle.isSome = true := by
  have limit : cycleLimit = 32 := rfl
  have tail : tracker.history.reverse.take (cycleLimit * 2) =
      copy.reverse ++ (copy.reverse ++
        before.reverse.take (cycleLimit * 2 - copy.length - copy.length)) := by
    rw [history, List.reverse_append, List.reverse_append, List.append_assoc, List.take_append,
      List.take_append, List.take_of_length_le (by rw [List.length_reverse]; omega),
      List.length_reverse, List.take_of_length_le (by rw [List.length_reverse]; omega)]
  rw [cycle, Option.isSome_map, tail, List.find?_isSome]
  refine ⟨copy.length, ?_, ?_⟩
  · rw [List.mem_range'_1]
    simp only [List.length_append, List.length_reverse]
    omega
  · have width : copy.length = copy.reverse.length := List.length_reverse.symm
    rw [beq_iff_eq, width, List.take_left, List.drop_left, List.take_left]

theorem report_isSome {failing repeating : Prop} [Decidable failing] [Decidable repeating]
    {failure repetition : ToolLoopReport} {last : Option ToolLoopReport}
    (reported : failing ∨ repeating ∨ last.isSome = true) :
    (if failing then some failure else if repeating then some repetition else last).isSome =
      true := by
  by_cases failed : failing
  · rw [if_pos failed]
    rfl
  · rw [if_neg failed]
    by_cases repeated : repeating
    · rw [if_pos repeated]
      rfl
    · rw [if_neg repeated]
      exact (reported.resolve_left failed).resolve_left repeated

theorem observe_of_cycle {intent : ToolIntent} {outcome : ToolOutcome} {repeatable : Bool}
    (cycling : (tracker.push (recordOf sha256 intent outcome)).cycle.isSome = true) :
    (tracker.observe sha256 intent outcome repeatable .none).1.isSome = true :=
  report_isSome (Or.inr (Or.inr cycling))

theorem observe_of_third {intent : ToolIntent} {outcome : ToolOutcome}
    (seen : 2 ≤ tracker.history.count (recordOf sha256 intent outcome)) :
    (tracker.observe sha256 intent outcome true .none).1.isSome = true := by
  have counted : tracker.history.count (recordOf sha256 intent outcome) ≤
      tracker.history.countP fun prior => prior.action == (recordOf sha256 intent outcome).action &&
        prior.outcome == (recordOf sha256 intent outcome).outcome := by
    apply List.countP_mono_left
    intro prior _ same
    rw [beq_iff_eq.mp same, beq_self_eq_true, beq_self_eq_true]
    rfl
  apply report_isSome
  right
  left
  rw [Bool.true_and, decide_eq_true_eq]
  exact Nat.succ_le_succ (seen.trans counted)

end ToolLoopTracker

/-! ## What holds of the executions -/

/-- Executions of this action that were not repeatable. -/
def effectsOf (action : String) (executions : List Execution) : Nat :=
  executions.countP fun execution => !execution.repeatable && execution.record.action == action

def NeverInARow (executions : List Execution) : Prop :=
  executions.IsChain fun earlier later =>
    later.repeatable = false → earlier.record.action ≠ later.record.action

/-- Where a cycle of two actions or more is over for the second time, a report is made. -/
def CyclesReported (executions : List Execution) : Prop :=
  ∀ front first second rest, executions = front ++ (first ++ second) ++ rest →
    first.map (·.record) = second.map (·.record) → 2 ≤ first.length →
    first.length ≤ cycleLimit → second.getLast?.any (·.report.isSome) = true

/-- The third of three same observations in a row is reported. -/
def ThirdsReported (executions : List Execution) : Prop :=
  ∀ front first second third rest, executions = front ++ [first, second, third] ++ rest →
    first.record = third.record → second.record = third.record → third.repeatable = true →
    third.report.isSome = true

structure Stopped (tracker : ToolLoopTracker) (executions : List Execution) : Prop where
  holds : tracker.Holds executions
  twice : executions.length ≤ historyLimit → ∀ action, effectsOf action executions ≤ 2
  apart : NeverInARow executions
  cycles : CyclesReported executions
  thirds : ThirdsReported executions

namespace Stopped

variable {sha256 : List UInt8 → List UInt8} {tracker : ToolLoopTracker}
  {executions : List Execution}

/-- Fewer than two executions break no rule. -/
theorem of_short (holds : tracker.Holds executions) (short : executions.length ≤ 1) :
    Stopped tracker executions where
  holds := holds
  twice := by
    intro _ action
    exact List.countP_le_length.trans (short.trans (by decide))
  apart := by
    cases executions with
    | nil => exact .nil
    | cons first rest =>
      rw [List.length_eq_zero_iff.mp (Nat.le_zero.mp (Nat.le_of_succ_le_succ short))]
      exact .singleton first
  cycles := by
    intro front first second rest parts _ long _
    have width := congrArg List.length parts
    simp only [List.length_append] at width
    omega
  thirds := by
    intro front first second third rest parts
    have width := congrArg List.length parts
    simp only [List.length_append, List.length_cons] at width
    omega

theorem push_holds (stopped : Stopped tracker executions) (execution : Execution) :
    (tracker.push execution.record).Holds (executions ++ [execution]) := by
  obtain ⟨before, history⟩ := stopped.holds
  refine ⟨before, ?_⟩
  rw [ToolLoopTracker.push_history stopped.holds.bounded, history, rtake_rtake_concat,
    List.map_append, List.append_assoc]
  rfl

section Step

variable {intent : ToolIntent} {execution : Execution}

theorem effectsOf_concat (action : String) :
    effectsOf action (executions ++ [execution]) = effectsOf action executions +
      if !execution.repeatable && execution.record.action == action then 1 else 0 := by
  rw [effectsOf, List.countP_append, List.countP_singleton]
  rfl

theorem twice_concat (stopped : Stopped tracker executions)
    (allowed : tracker.propose sha256 intent execution.repeatable = none)
    (same : execution.record.action = actionOf sha256 intent)
    (short : (executions ++ [execution]).length ≤ historyLimit) (action : String) :
    effectsOf action (executions ++ [execution]) ≤ 2 := by
  have room : executions.length ≤ historyLimit := by
    rw [List.length_append] at short
    omega
  rw [effectsOf_concat]
  split
  · rename_i effects
    rw [Bool.and_eq_true, Bool.not_eq_true', beq_iff_eq, same] at effects
    have once := (ToolLoopTracker.propose_none allowed effects.1).2
    obtain ⟨before, history⟩ :=
      @ToolLoopTracker.Holds.recent tracker [] executions stopped.holds room
    rw [history, List.countP_append, List.countP_map, effects.2] at once
    have counted : effectsOf action executions ≤
        executions.countP ((fun record => record.action == action) ∘ (·.record)) := by
      apply List.countP_mono_left
      intro earlier _ isEffect
      rw [Bool.and_eq_true] at isEffect
      exact isEffect.2
    omega
  · exact stopped.twice room action

theorem apart_concat (stopped : Stopped tracker executions)
    (allowed : tracker.propose sha256 intent execution.repeatable = none)
    (same : execution.record.action = actionOf sha256 intent) :
    NeverInARow (executions ++ [execution]) := by
  apply List.IsChain.append stopped.apart (.singleton _)
  intro last isLast next isNext effects
  cases isNext
  have holds := stopped.holds
  rw [← List.dropLast_append_getLast? last isLast] at holds
  obtain ⟨before, history⟩ := holds.recent (Nat.le_of_lt (by decide : 1 < historyLimit))
  have different := (ToolLoopTracker.propose_none allowed effects).1
  rw [history, List.map_singleton, List.getLast?_concat, Option.any_some, beq_eq_false_iff_ne]
    at different
  exact same ▸ different

/-- Either the last execution ends the parts, or it stands behind them. -/
theorem concat_cases {parts rest : List Execution}
    (same : executions ++ [execution] = parts ++ rest) :
    (rest = [] ∧ parts = executions ++ [execution]) ∨
      ∃ earlier, rest = earlier ++ [execution] ∧ executions = parts ++ earlier := by
  cases rest.eq_nil_or_concat with
  | inl empty =>
    rw [empty, List.append_nil] at same
    exact Or.inl ⟨empty, same.symm⟩
  | inr more =>
    obtain ⟨earlier, last, rfl⟩ := more
    rw [List.concat_eq_append, ← List.append_assoc] at same
    obtain ⟨whole, lasts⟩ := List.append_inj' same rfl
    cases lasts
    exact Or.inr ⟨earlier, List.concat_eq_append, whole⟩

theorem cycles_concat {outcome : ToolOutcome} (stopped : Stopped tracker executions)
    (same : execution.record = recordOf sha256 intent outcome)
    (report : execution.report =
      (tracker.observe sha256 intent outcome execution.repeatable .none).1) :
    CyclesReported (executions ++ [execution]) := by
  intro front first second rest parts copies long short
  rcases concat_cases parts with ⟨_, whole⟩ | ⟨earlier, _, whole⟩
  · have width : first.length = second.length := by
      simpa using congrArg List.length copies
    have last : second.getLast? = some execution := by
      have ends := congrArg List.getLast? whole
      rwa [List.getLast?_concat, List.getLast?_append_of_ne_nil front (by
          rw [ne_eq, List.append_eq_nil_iff, ← List.length_eq_zero_iff]
          omega),
        List.getLast?_append_of_ne_nil first (by
          rw [ne_eq, ← List.length_eq_zero_iff]
          omega)] at ends
    have holds := stopped.push_holds execution
    rw [← whole] at holds
    have recent : (first ++ second).length ≤ historyLimit := by
      have limits : cycleLimit + cycleLimit ≤ historyLimit := by decide
      rw [List.length_append]
      omega
    obtain ⟨before, history⟩ := holds.recent recent
    rw [List.map_append, copies] at history
    have cycling := ToolLoopTracker.cycle_isSome
      (by rw [List.length_map, ← width]; exact long)
      (by rw [List.length_map, ← width]; exact short) history
    rw [last, Option.any_some, report]
    exact ToolLoopTracker.observe_of_cycle (same ▸ cycling)
  · exact stopped.cycles front first second earlier whole copies long short

theorem thirds_concat {outcome : ToolOutcome} (stopped : Stopped tracker executions)
    (same : execution.record = recordOf sha256 intent outcome)
    (report : execution.report =
      (tracker.observe sha256 intent outcome execution.repeatable .none).1) :
    ThirdsReported (executions ++ [execution]) := by
  intro front first second third rest parts firstCopy secondCopy repeatable
  rcases concat_cases parts with ⟨_, whole⟩ | ⟨earlier, _, whole⟩
  · have split : front ++ [first, second] ++ [third] = executions ++ [execution] := by
      rw [← whole, List.append_assoc]
      rfl
    obtain ⟨front, lasts⟩ := List.append_inj' split rfl
    obtain rfl : third = execution := List.head_eq_of_cons_eq lasts
    have holds := stopped.holds
    rw [← front] at holds
    obtain ⟨before, history⟩ := holds.recent (by
      rw [List.length_cons, List.length_singleton]
      decide)
    have seen : 2 ≤ tracker.history.count (recordOf sha256 intent outcome) := by
      rw [history, List.count_append, List.map_cons, List.map_singleton, firstCopy, secondCopy,
        same, List.count_cons_self, List.count_cons_self]
      omega
    rw [report, repeatable]
    exact ToolLoopTracker.observe_of_third seen
  · exact stopped.thirds front first second third earlier whole firstCopy secondCopy repeatable

end Step

/-- Without a change of the state, one proposal more breaks no rule. -/
theorem step (stopped : Stopped tracker executions) {proposal : Proposal}
    (quiet : proposal.progress = .none) :
    Stopped (tracker.act sha256 proposal).2
      (executions ++ (tracker.act sha256 proposal).1.toList) := by
  rcases @ToolLoopTracker.act_cases sha256 tracker proposal with acted | ⟨allowed, acted⟩
  · rw [acted, Option.toList_none, List.append_nil]
    exact stopped
  · rw [acted, quiet, Option.toList_some]
    have pushed := stopped.push_holds ⟨recordOf sha256 proposal.intent proposal.outcome,
      proposal.repeatable, (tracker.observe sha256 proposal.intent proposal.outcome
        proposal.repeatable .none).1⟩
    exact {
      holds := pushed
      twice := stopped.twice_concat allowed rfl
      apart := stopped.apart_concat allowed rfl
      cycles := stopped.cycles_concat rfl rfl
      thirds := stopped.thirds_concat rfl rfl }

theorem run {proposals : List Proposal} (stopped : Stopped tracker executions)
    (quiet : ∀ proposal ∈ proposals, proposal.progress = .none) :
    Stopped (tracker.run sha256 proposals).2 (executions ++ (tracker.run sha256 proposals).1) := by
  induction proposals generalizing tracker executions with
  | nil =>
    rw [ToolLoopTracker.run, List.append_nil]
    exact stopped
  | cons proposal rest rests =>
    have stepped := @step sha256 _ _ stopped _ (quiet proposal List.mem_cons_self)
    have later := rests stepped fun other member => quiet other (List.mem_cons_of_mem proposal member)
    rw [List.append_assoc] at later
    exact later

end Stopped

namespace ToolLoopTracker

variable {sha256 : List UInt8 → List UInt8} {tracker : ToolLoopTracker}

/-- A first step may change the state: the history begins with what was done then. -/
theorem act_holds (bounded : tracker.history.length ≤ historyLimit) (proposal : Proposal) :
    (tracker.act sha256 proposal).2.Holds (tracker.act sha256 proposal).1.toList := by
  rcases @act_cases sha256 tracker proposal with acted | ⟨_, acted⟩
  · rw [acted]
    exact holds_nil bounded
  · rw [acted, observe_tracker, Option.toList_some]
    have base : (if proposal.progress = .stateChanged then new else tracker).history.length ≤
        historyLimit := by
      split
      · exact Nat.zero_le historyLimit
      · exact bounded
    exact ⟨_, push_history base _⟩

theorem run_bounded (bounded : tracker.history.length ≤ historyLimit)
    (proposals : List Proposal) :
    (tracker.run sha256 proposals).2.history.length ≤ historyLimit := by
  induction proposals generalizing tracker with
  | nil => exact bounded
  | cons proposal rest rests => exact rests (act_holds bounded proposal).bounded

end ToolLoopTracker

/-- The executions of a run behind any other one, while the state does not change: an action that is
not repeatable is executed twice at most and never twice in a row, and what goes round is
reported. -/
theorem run_stopped (sha256 : List UInt8 → List UInt8) (before proposals : List Proposal)
    (quiet : ∀ proposal ∈ proposals.tail, proposal.progress = .none) :
    let start := (ToolLoopTracker.new.run sha256 before).2
    let ran := start.run sha256 proposals
    ran.2.history.length ≤ historyLimit ∧
      (ran.1.length ≤ historyLimit → ∀ action, effectsOf action ran.1 ≤ 2) ∧
      NeverInARow ran.1 ∧ CyclesReported ran.1 ∧ ThirdsReported ran.1 := by
  have bounded := @ToolLoopTracker.run_bounded sha256 .new (Nat.zero_le historyLimit) before
  generalize (ToolLoopTracker.new.run sha256 before).2 = start at bounded ⊢
  have stopped : Stopped (start.run sha256 proposals).2 (start.run sha256 proposals).1 := by
    cases proposals with
    | nil => exact Stopped.of_short (ToolLoopTracker.holds_nil bounded) (Nat.zero_le 1)
    | cons proposal rest =>
      have first := Stopped.of_short (@ToolLoopTracker.act_holds sha256 start bounded proposal)
        Option.length_toList_le
      exact first.run quiet
  exact ⟨stopped.holds.bounded, stopped.twice, stopped.apart, stopped.cycles, stopped.thirds⟩

/-- An action that is repeatable and succeeds with the same output each time. -/
def probe : Proposal where
  intent := ⟨"call-0", none, "probe", .object []⟩
  repeatable := true
  outcome := ⟨true, some 0, Json.utf8 "unchanged".toList, [], false, false, false⟩
  progress := .none

/-- The digests of the action and of its outcome. -/
def probeSha256 (bytes : List UInt8) : List UInt8 :=
  if bytes = Json.utf8 "probe{}".toList then
    [179, 0, 35, 78, 249, 88, 212, 36, 164, 184, 62, 172, 34, 39, 132, 58, 168, 33, 63, 249, 14,
     21, 127, 51, 94, 246, 197, 90, 186, 30, 76, 129]
  else if bytes = outcomeBytes probe.outcome then
    [3, 199, 154, 193, 19, 210, 103, 92, 105, 145, 116, 0, 5, 197, 85, 74, 187, 168, 102, 144, 27,
     119, 199, 36, 7, 13, 10, 195, 43, 25, 94, 114]
  else bytes

theorem run_stopped_probe :
    let start := (ToolLoopTracker.new.run probeSha256 []).2
    let ran := start.run probeSha256 [probe, probe, probe]
    ran.2.history.length ≤ historyLimit ∧
      (ran.1.length ≤ historyLimit → ∀ action, effectsOf action ran.1 ≤ 2) ∧
      NeverInARow ran.1 ∧ CyclesReported ran.1 ∧ ThirdsReported ran.1 :=
  run_stopped probeSha256 [] [probe, probe, probe] (by
    intro proposal member
    simp only [List.tail_cons, List.mem_cons, List.not_mem_nil, or_false, or_self] at member
    rw [member]
    rfl)

/-- The same observation twice is no report yet: the action is executed a third time. -/
theorem second_observation_unreported (sha256 : List UInt8 → List UInt8) (proposal : Proposal)
    (repeatable : proposal.repeatable = true) (succeeded : proposal.outcome.failed = false)
    (quiet : proposal.progress = .none) :
    (ToolLoopTracker.new.run sha256 [proposal, proposal, proposal]).1.map
        (fun execution => (execution.record, execution.report.isSome)) =
      [(recordOf sha256 proposal.intent proposal.outcome, false),
        (recordOf sha256 proposal.intent proposal.outcome, false),
        (recordOf sha256 proposal.intent proposal.outcome, true)] := by
  have failed : (recordOf sha256 proposal.intent proposal.outcome).failed = false := succeeded
  simp [ToolLoopTracker.run, ToolLoopTracker.act, ToolLoopTracker.propose,
    ToolLoopTracker.observe, ToolLoopTracker.new, ToolLoopTracker.push, ToolLoopTracker.cycle,
    repeatable, quiet, failed, historyLimit, cycleLimit]

theorem single_cycle_unreported :
    (ToolLoopTracker.new.run probeSha256 [probe, probe, probe]).1.map
        (fun execution => (execution.record, execution.report.isSome)) =
      [(recordOf probeSha256 probe.intent probe.outcome, false),
        (recordOf probeSha256 probe.intent probe.outcome, false),
        (recordOf probeSha256 probe.intent probe.outcome, true)] :=
  second_observation_unreported probeSha256 probe rfl rfl rfl

end Kvist.LoopDetection
