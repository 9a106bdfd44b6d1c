import Mathlib.Algebra.GroupWithZero.Nat
import Kvist.Runtime.TokenBudget

/-!
# What the token budget bounds

With a budget, what remains, what was charged and what the reports took beyond the charges add up to
the budget at any time, so nothing is taken twice, nothing is given back, and no subtraction goes
below zero. Only what was charged is dispatched, and a correction is only made with one of the two
steps of the recovery.
-/

set_option autoImplicit false

namespace Kvist.Runtime

/-! ## The ledger -/

/-- The budget is split between what remains and what was taken. -/
structure Tokens.Ledger (budget : Nat) (tokens : Tokens) : Prop where
  conserved : ∃ remaining, tokens.remaining = some remaining ∧
    remaining + tokens.charged.sum + tokens.overdrawn.sum = budget
  charged : tokens.dispatched.Sublist tokens.charged

def Tokens.Within (earlier later : Tokens) : Prop :=
  ∀ left, later.remaining = some left → ∃ before, earlier.remaining = some before ∧ left ≤ before

namespace Tokens

theorem Within.refl (tokens : Tokens) : tokens.Within tokens := fun left held =>
  ⟨left, held, Nat.le_refl left⟩

theorem Within.trans {first second third : Tokens} (left : first.Within second)
    (right : second.Within third) : first.Within third := by
  intro amount held
  obtain ⟨between, heldBetween, below⟩ := right amount held
  obtain ⟨before, heldBefore, belowBefore⟩ := left between heldBetween
  exact ⟨before, heldBefore, Nat.le_trans below belowBefore⟩

theorem sublist_sum_le {left right : List Nat} (sublist : left.Sublist right) :
    left.sum ≤ right.sum := by
  induction sublist with
  | slnil => exact Nat.le_refl 0
  | cons amount _ ih =>
      rw [List.sum_cons]
      exact Nat.le_trans ih (Nat.le_add_left _ _)
  | cons_cons amount _ ih =>
      rw [List.sum_cons, List.sum_cons]
      exact Nat.add_le_add_left ih amount

theorem Ledger.dispatched_le {budget : Nat} {tokens : Tokens} (ledger : tokens.Ledger budget) :
    tokens.dispatched.sum ≤ budget := by
  obtain ⟨remaining, -, conserved⟩ := ledger.conserved
  have taken := sublist_sum_le ledger.charged
  omega

theorem charge_some {tokens charged : Tokens} {charge remaining : Nat}
    (held : tokens.remaining = some remaining) (taken : tokens.charge charge = some charged) :
    charge ≤ remaining ∧ charged = { tokens with
      remaining := some (remaining - charge)
      charged := tokens.charged ++ [charge] } := by
  simp only [Tokens.charge, held] at taken
  by_cases short : remaining < charge
  · rw [if_pos short] at taken
    cases taken
  · rw [if_neg short] at taken
    exact ⟨Nat.le_of_not_lt short, (Option.some.inj taken).symm⟩

theorem Ledger.charge {budget : Nat} {tokens charged : Tokens} {charge : Nat}
    (ledger : tokens.Ledger budget) (taken : tokens.charge charge = some charged) :
    charged.Ledger budget ∧ tokens.Within charged ∧
      charged.charged = tokens.charged ++ [charge] ∧
      charged.dispatched = tokens.dispatched := by
  obtain ⟨remaining, held, conserved⟩ := ledger.conserved
  obtain ⟨enough, rfl⟩ := charge_some held taken
  refine ⟨⟨⟨remaining - charge, rfl, ?_⟩, ?_⟩, ?_, rfl, rfl⟩
  · simp only [List.sum_append, List.sum_cons, List.sum_nil]
    omega
  · exact ledger.charged.trans (List.sublist_append_left _ _)
  · intro left heldLeft
    cases heldLeft
    exact ⟨remaining, held, Nat.sub_le remaining charge⟩

theorem Ledger.dispatch {budget charge : Nat} {tokens charged : Tokens}
    (before : tokens.Ledger budget) (ledger : charged.Ledger budget)
    (last : charged.charged = tokens.charged ++ [charge])
    (kept : charged.dispatched = tokens.dispatched) :
    (charged.dispatch charge).Ledger budget := by
  refine ⟨ledger.conserved, ?_⟩
  change (charged.dispatched ++ [charge]).Sublist charged.charged
  rw [last, kept]
  exact before.charged.append (List.Sublist.refl [charge])

/-- A report, however large, takes at most what remains. -/
theorem Ledger.reconcile {budget : Nat} {tokens : Tokens} (ledger : tokens.Ledger budget)
    (charge : Nat) (usage : Option Model.ModelUsage) :
    (tokens.reconcile charge usage).2.Ledger budget ∧
      tokens.Within (tokens.reconcile charge usage).2 := by
  obtain ⟨remaining, held, conserved⟩ := ledger.conserved
  cases usage with
  | none => exact ⟨ledger, Within.refl tokens⟩
  | some reported =>
      simp only [Tokens.reconcile, held]
      refine ⟨⟨⟨_, rfl, ?_⟩, ledger.charged⟩, ?_⟩
      · simp only [List.sum_append, List.sum_cons, List.sum_nil]
        omega
      · intro left heldLeft
        cases heldLeft
        exact ⟨remaining, held, Nat.sub_le remaining _⟩

end Tokens

/-- An attempt keeps the ledger, on every path out of it. -/
theorem driveAttempt_ledger {budget : Nat} {tokens : Tokens} (ledger : tokens.Ledger budget)
    (limits : BudgetLimits) (request : ModelRequest) (attempt : Nat) (answers : AttemptAnswers) :
    (driveAttempt limits tokens request attempt answers).1.Ledger budget ∧
      tokens.Within (driveAttempt limits tokens request attempt answers).1 := by
  have unchanged : tokens.Ledger budget ∧ tokens.Within tokens := ⟨ledger, Tokens.Within.refl tokens⟩
  unfold driveAttempt
  cases answers.stopped with
  | true => exact unchanged
  | false =>
      cases answers.pending with
      | true => exact unchanged
      | false =>
          cases answers.expired with
          | true => exact unchanged
          | false =>
              dsimp only
              cases taken : tokens.charge (chargeOf limits request) with
              | none => exact unchanged
              | some charged =>
                  obtain ⟨kept, within, last, same⟩ := ledger.charge taken
                  cases !answers.announced || answers.stoppedThen || !answers.started with
                  | true => exact ⟨kept, within⟩
                  | false =>
                      have sent := ledger.dispatch kept last same
                      obtain ⟨reconciled, below⟩ := sent.reconcile (chargeOf limits request)
                        answers.result.usage
                      exact ⟨reconciled, within.trans below⟩

/-! ## The run -/

/-- The accounting of a run: its ledger, and a step of the recovery for each correction. -/
structure TokenRun.Accounted (budget : Nat) (run : TokenRun) : Prop where
  ledger : run.tokens.Ledger budget
  corrected : run.corrections ≤ run.recovery.spent
  recovery : run.recovery.spent ≤ 2

namespace TokenRun

/-- What a step keeps that neither charges nor corrects. -/
structure SameAccounts (run next : TokenRun) : Prop where
  tokens : next.tokens = run.tokens
  recovery : next.recovery = run.recovery
  corrections : next.corrections = run.corrections

theorem withPhase_same (run : TokenRun) (phase : RunPhase) :
    run.SameAccounts (run.withPhase phase) := ⟨rfl, rfl, rfl⟩

theorem SameAccounts.accounted {budget : Nat} {run next : TokenRun} (same : run.SameAccounts next)
    (accounted : run.Accounted budget) :
    next.Accounted budget ∧ run.tokens.Within next.tokens := by
  refine ⟨⟨same.tokens ▸ accounted.ledger, ?_, ?_⟩, same.tokens ▸ Tokens.Within.refl run.tokens⟩
  · rw [same.corrections, same.recovery]
    exact accounted.corrected
  · rw [same.recovery]
    exact accounted.recovery

theorem head_same (limits : BudgetLimits) (run : TokenRun) (answers : TurnHead) :
    run.SameAccounts (run.head limits answers) := by
  unfold head
  cases answers.stopped with
  | true => exact run.withPhase_same .ended
  | false =>
      cases answers.guided with
      | none => exact run.withPhase_same .ended
      | some guided =>
          dsimp only
          have renewed : run.SameAccounts (if guided then { run with nextAttempt := 1 } else run) := by
            cases guided <;> exact ⟨rfl, rfl, rfl⟩
          generalize (if guided then { run with nextAttempt := 1 } else run) = current at renewed
          have later (phase : RunPhase) : run.SameAccounts (current.withPhase phase) :=
            ⟨renewed.tokens, renewed.recovery, renewed.corrections⟩
          cases answers.turnLimit || decide (limits.maxAttempts < current.nextAttempt) with
          | true => exact later .ended
          | false =>
              cases answers.request with
              | none => exact later .ended
              | some request =>
                  cases answers.started with
                  | true => exact later _
                  | false => exact later .ended

theorem drive_same (limits : BudgetLimits) (run : TokenRun) (turn : Model.ModelTurn)
    (continuity : Continuity) : run.SameAccounts (run.drive limits turn continuity) := by
  cases continuity with
  | stopped => exact run.withPhase_same .ended
  | steered => exact ⟨rfl, rfl, rfl⟩
  | repetitive => exact run.withPhase_same .correcting
  | kept =>
      unfold drive
      dsimp only
      cases validateTurn turn.toModelTurn with
      | error message => exact ⟨rfl, rfl, rfl⟩
      | ok valid => exact ⟨rfl, rfl, rfl⟩

theorem call_same (run : TokenRun) (called : Called) : run.SameAccounts (run.call called) := by
  cases called with
  | again => exact run.withPhase_same .head
  | report => exact run.withPhase_same .correcting
  | stopped => exact run.withPhase_same .ended

theorem Accounted.attempt {budget : Nat} {run : TokenRun} (accounted : run.Accounted budget)
    (limits : BudgetLimits) (request : ModelRequest) (attempt : Nat) (answers : AttemptAnswers) :
    (run.attempt limits request attempt answers).Accounted budget ∧
      run.tokens.Within (run.attempt limits request attempt answers).tokens := by
  obtain ⟨ledger, within⟩ :=
    driveAttempt_ledger accounted.ledger limits request attempt answers
  unfold TokenRun.attempt
  generalize driveAttempt limits run.tokens request attempt answers = driven at ledger within
  dsimp only
  cases driven.2 with
  | again request attempt => exact ⟨⟨ledger, accounted.corrected, accounted.recovery⟩, within⟩
  | turn turn => exact ⟨⟨ledger, accounted.corrected, accounted.recovery⟩, within⟩
  | steering attempt reserve => exact ⟨⟨ledger, accounted.corrected, accounted.recovery⟩, within⟩
  | repetitive => exact ⟨⟨ledger, accounted.corrected, accounted.recovery⟩, within⟩
  | stopped => exact ⟨⟨ledger, accounted.corrected, accounted.recovery⟩, within⟩

theorem take_some {budget next : RecoveryBudget} {step : RecoveryStep}
    (taken : budget.take = (some step, next)) (bounded : budget.spent ≤ 2) :
    next.spent = budget.spent + 1 ∧ next.spent ≤ 2 := by
  unfold RecoveryBudget.take at taken
  by_cases spent : budget.spent = 2
  · rw [if_pos spent] at taken
    cases taken
  · rw [if_neg spent] at taken
    cases taken
    constructor
    · rfl
    · change budget.spent + 1 ≤ 2
      omega

theorem Accounted.correct {budget : Nat} {run : TokenRun} (accounted : run.Accounted budget)
    (limits : BudgetLimits) (answers : CorrectionAnswers) :
    (run.correct limits answers).Accounted budget ∧
      run.tokens.Within (run.correct limits answers).tokens := by
  have afresh (phase : RunPhase) : run.SameAccounts ((run.afresh limits).withPhase phase) :=
    ⟨rfl, rfl, rfl⟩
  unfold TokenRun.correct
  cases answers.stopped with
  | true => exact (run.withPhase_same .ended).accounted accounted
  | false =>
      cases answers.pending with
      | true => exact (afresh .head).accounted accounted
      | false =>
          dsimp only
          have unspent : (run.afresh limits).recovery = run.recovery := rfl
          rw [unspent]
          rcases taken : run.recovery.take with ⟨step, recovery⟩
          cases step with
          | none => exact (afresh .ended).accounted accounted
          | some step =>
              obtain ⟨spent, bounded⟩ := take_some taken accounted.recovery
              have below := accounted.corrected
              dsimp only
              cases !answers.noticed || answers.stoppedThen with
              | true =>
                  refine ⟨⟨accounted.ledger, ?_, bounded⟩, Tokens.Within.refl run.tokens⟩
                  change run.corrections ≤ recovery.spent
                  omega
              | false =>
                  refine ⟨⟨accounted.ledger, ?_, bounded⟩, Tokens.Within.refl run.tokens⟩
                  change run.corrections + 1 ≤ recovery.spent
                  omega

theorem Accounted.step {budget : Nat} {limits : BudgetLimits} {run next : TokenRun}
    {action : RunAction} (accounted : run.Accounted budget)
    (stepped : run.step limits action = some next) :
    next.Accounted budget ∧ run.tokens.Within next.tokens := by
  cases action with
  | head answers =>
      cases phase : run.phase <;> simp only [TokenRun.step, phase] at stepped <;> cases stepped
      exact (head_same limits run answers).accounted accounted
  | attempt answers =>
      cases phase : run.phase <;> simp only [TokenRun.step, phase] at stepped <;> cases stepped
      exact accounted.attempt limits _ _ answers
  | drive continuity =>
      cases phase : run.phase <;> simp only [TokenRun.step, phase] at stepped <;> cases stepped
      exact (drive_same limits run _ continuity).accounted accounted
  | call called =>
      cases phase : run.phase <;> simp only [TokenRun.step, phase] at stepped <;> cases stepped
      exact (call_same run called).accounted accounted
  | correct answers =>
      cases phase : run.phase <;> simp only [TokenRun.step, phase] at stepped <;> cases stepped
      exact accounted.correct limits answers

theorem accounted_start (limits : BudgetLimits) (budget : Nat) :
    (start limits (some budget)).Accounted budget :=
  ⟨⟨⟨budget, rfl, rfl⟩, List.Sublist.refl []⟩, Nat.le_refl 0, Nat.zero_le 2⟩

/-- What every run keeps, and what each of its continuations keeps beyond it. -/
theorem Accounted.run {budget : Nat} {limits : BudgetLimits} {first last : TokenRun}
    (accounted : first.Accounted budget) (actions : List RunAction)
    (reached : Transitions.run (TokenRun.step limits) first actions = some last) :
    last.Accounted budget ∧ first.tokens.Within last.tokens := by
  have preserved : ∀ (run : TokenRun) (action : RunAction) (next : TokenRun),
      (run.Accounted budget ∧ first.tokens.Within run.tokens) →
      run.step limits action = some next →
      next.Accounted budget ∧ first.tokens.Within next.tokens := by
    intro run action next held stepped
    obtain ⟨kept, within⟩ := held.1.step stepped
    exact ⟨kept, held.2.trans within⟩
  exact Transitions.run_preserves preserved actions
    ⟨accounted, Tokens.Within.refl first.tokens⟩ reached

end TokenRun

/-- In every run, whatever is answered, the charges of the dispatched attempts stay within the
budget, what remains is what was not taken and never grows again, and at most two corrections are
made. -/
theorem run_budget (limits : BudgetLimits) (budget : Nat) (front back : List RunAction)
    {middle last : TokenRun}
    (reached : Transitions.run (TokenRun.step limits) (TokenRun.start limits (some budget)) front =
      some middle)
    (continued : Transitions.run (TokenRun.step limits) middle back = some last) :
    ∃ earlier later, middle.tokens.remaining = some earlier ∧
      last.tokens.remaining = some later ∧ later ≤ earlier ∧
      later + last.tokens.charged.sum + last.tokens.overdrawn.sum = budget ∧
      last.tokens.dispatched.Sublist last.tokens.charged ∧
      last.tokens.dispatched.sum ≤ budget ∧ last.corrections ≤ 2 := by
  have start := TokenRun.accounted_start limits budget
  obtain ⟨accounted, -⟩ := start.run front reached
  obtain ⟨final, within⟩ := accounted.run back continued
  obtain ⟨later, held, conserved⟩ := final.ledger.conserved
  obtain ⟨earlier, heldEarlier, below⟩ := within later held
  exact ⟨earlier, later, heldEarlier, held, below, conserved, final.ledger.charged,
    final.ledger.dispatched_le, Nat.le_trans final.corrected final.recovery⟩

def probeLimits : BudgetLimits := ⟨64, 3, 32768⟩

def probeRequest : ModelRequest :=
  ⟨"qwen", [.system "answer", .user "hello"], [], .auto, none, none, none⟩

/-- A turn that is reported to have used more than it was charged. -/
def probeTurn : Model.ModelTurn where
  text := "hello"
  toolIntents := []
  finishReason := .stop
  reasoning := none
  provider := .ollama
  model := "qwen"
  responseId := none
  providerRequestId := none
  usage := some ⟨150, 40, 190⟩

def probeAnswers (repetition : Bool) : AttemptAnswers where
  stopped := false
  pending := false
  expired := false
  announced := true
  stoppedThen := false
  started := true
  result := .complete probeTurn
  presented := true
  recorded := true
  interrupted := false
  stoppedAfter := false
  operationCancelled := repetition
  repetition := repetition
  finished := .over
  lateRepetition := false
  cancelledLate := false
  noticed := true
  waited := .over

/-- A turn that is found to be repetitive, and its correction. -/
def probeFront : List RunAction :=
  [.head ⟨false, some false, false, some probeRequest, true⟩, .attempt (probeAnswers true),
    .correct ⟨false, false, true, false⟩]

def probeBack : List RunAction :=
  [.head ⟨false, some false, false, some probeRequest, true⟩, .attempt (probeAnswers false),
    .drive .kept, .call .stopped]

theorem run_budget_probe : ∃ middle last,
    Transitions.run (TokenRun.step probeLimits) (TokenRun.start probeLimits (some 1000))
      probeFront = some middle ∧
    Transitions.run (TokenRun.step probeLimits) middle probeBack = some last ∧
    ∃ earlier later, middle.tokens.remaining = some earlier ∧
      last.tokens.remaining = some later ∧ later ≤ earlier ∧
      later + last.tokens.charged.sum + last.tokens.overdrawn.sum = 1000 ∧
      last.tokens.dispatched.Sublist last.tokens.charged ∧
      last.tokens.dispatched.sum ≤ 1000 ∧ last.corrections ≤ 2 := by
  have runs : (Transitions.run (TokenRun.step probeLimits)
      (TokenRun.start probeLimits (some 1000)) (probeFront ++ probeBack)).isSome := by
    decide +kernel
  obtain ⟨last, ran⟩ := Option.isSome_iff_exists.mp runs
  rw [Transitions.run_append, Option.bind_eq_some_iff] at ran
  obtain ⟨middle, reached, continued⟩ := ran
  exact ⟨middle, last, reached, continued,
    run_budget probeLimits 1000 probeFront probeBack reached continued⟩

end Kvist.Runtime
