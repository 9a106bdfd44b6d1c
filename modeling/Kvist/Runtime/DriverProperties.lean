import Kvist.Runtime.Driver
import Kvist.Runtime.SessionProperties

/-!
# The history over all runs

Outside the loop over the calls of a turn the history is closed, as long as no run has failed
inside that loop. The history such a failure leaves open is refused by every later request.
-/

set_option autoImplicit false

namespace Kvist.Runtime

/-- A turn that was left open, with user messages behind it. -/
def Fenced (messages : List ModelMessage) : Prop :=
  ∃ opened users remaining, messages = opened ++ users ∧ OpenBatch opened remaining ∧
    remaining ≠ [] ∧ ∀ message ∈ users, message.isUser = true

theorem Fenced.pushUser {messages : List ModelMessage} (fenced : Fenced messages)
    (text : String) : Fenced (messages ++ [.user text]) := by
  obtain ⟨opened, users, remaining, rfl, batch, left, user⟩ := fenced
  refine ⟨opened, users ++ [.user text], remaining, List.append_assoc .., batch, left, ?_⟩
  intro message member
  rcases List.mem_append.mp member with earlier | last
  · exact user message earlier
  · rw [List.mem_singleton.mp last]
    rfl

theorem Fenced.not_closed {messages : List ModelMessage} (fenced : Fenced messages) :
    ¬Closed messages := by
  obtain ⟨opened, users, remaining, rfl, batch, left, user⟩ := fenced
  exact batch.refused left user

theorem OpenBatch.fenced {messages : List ModelMessage} {remaining : List ToolIntent}
    (batch : OpenBatch messages remaining) : Closed messages ∨ Fenced messages := by
  by_cases done : remaining = []
  · exact .inl (done ▸ batch).closed
  · exact .inr ⟨messages, [], remaining, (List.append_nil _).symm, batch, done, by simp⟩

namespace Driver

variable {fromStr : String → Option Json.Value} {driver : Driver}

/-- The history is closed, or an earlier run has failed and left it open. -/
def Settled (driver : Driver) : Prop :=
  Closed driver.session.messages ∨ Fenced driver.session.messages ∧ false ∈ driver.returned

def Sound (driver : Driver) : Prop :=
  match driver.phase with
  | .idle | .head | .preparing => driver.Settled
  | .driving => Closed driver.session.messages
  | .batch batch | .closing batch => OpenBatch driver.session.messages batch.remaining

theorem Settled.finish (settled : driver.Settled) (ok : Bool) : (driver.finish ok).Sound := by
  rcases settled with closed | ⟨fenced, failed⟩
  · exact .inl closed
  · exact .inr ⟨fenced, List.mem_append_left _ failed⟩

theorem Settled.pushUser (settled : driver.Settled) (text : String) :
    (driver.withSession (driver.session.pushUser text)).Settled := by
  rcases settled with closed | ⟨fenced, failed⟩
  · exact .inl (closed.pushUser text)
  · exact .inr ⟨fenced.pushUser text, failed⟩

theorem Settled.deliver (settled : driver.Settled) (texts : List String) :
    (driver.withSession (texts.foldl .pushUser driver.session)).Settled := by
  induction texts generalizing driver with
  | nil => exact settled
  | cons text rest ih => exact ih (settled.pushUser text)

/-- A run that fails inside a batch leaves it closed or open. -/
theorem sound_fail {remaining : List ToolIntent}
    (batch : OpenBatch driver.session.messages remaining) : (driver.finish false).Sound := by
  rcases batch.fenced with closed | fenced
  · exact .inl closed
  · exact .inr ⟨fenced, List.mem_append_right _ (List.mem_singleton.mpr rfl)⟩

theorem sound_recorded_fail {session : AgentSession} {remaining : List ToolIntent}
    (batch : OpenBatch session.messages remaining) :
    ((driver.withSession session).finish false).Sound :=
  sound_fail batch

theorem head_sound (settled : driver.Settled) (answers : HeadAnswers) :
    (driver.head answers).Sound := by
  have delivered := settled.deliver answers.delivered
  unfold head
  split
  · exact settled.finish true
  · simp only
    split
    · exact delivered.finish false
    · split
      · exact delivered.finish _
      · split
        · exact delivered.finish false
        · exact delivered

theorem prepare_sound (settled : driver.Settled) (reserve : Nat) (noticed started : Bool) :
    (driver.prepare fromStr reserve noticed started).Sound := by
  unfold prepare
  simp only
  cases outcome : (driver.session.prepareRequest fromStr driver.context reserve).result with
  | error error =>
      have unchanged := AgentSession.prepareRequest_unchanged outcome
      simp only
      apply Settled.finish
      unfold Settled
      rw [unchanged]
      exact settled
  | ok prepared =>
      obtain ⟨-, closed⟩ := AgentSession.prepareRequest_closed outcome
      cases prepared with
      | none => exact Settled.finish (.inl closed) true
      | some request =>
          obtain ⟨_, compaction⟩ := request
          simp only
          split
          · exact Settled.finish (.inl closed) false
          · split
            · exact closed
            · exact Settled.finish (.inl closed) false

theorem drive_sound (closed : Closed driver.session.messages) (drive : Drive) :
    (driver.drive drive).Sound := by
  cases drive with
  | turn turn =>
      simp only [Driver.drive]
      cases checked : validateTurn turn with
      | error error => exact Settled.finish (.inl closed) true
      | ok => exact openBatch_start closed turn.text (validateTurn_ok checked)
  | steered => exact .inl closed
  | feedback message =>
      have settled : driver.Settled := .inl closed
      exact settled.pushUser message
  | stopped => exact Settled.finish (.inl closed) true
  | failed => exact Settled.finish (.inl closed) false

/-- A result closes one call of the batch, whether or not it could be recorded. -/
theorem foldOutcome_sound {intent : ToolIntent} {rest : List ToolIntent}
    (batch : OpenBatch driver.session.messages (intent :: rest)) (content : String)
    (recorded : Bool) {next : LoopPhase}
    (follows : ∃ batch : Batch, batch.remaining = rest ∧
      (next = .batch batch ∨ next = .closing batch)) :
    (driver.foldOutcome intent content recorded next).Sound := by
  have answered := batch.record content
  obtain ⟨later, rfl, phase⟩ := follows
  unfold foldOutcome
  simp only
  split
  · rcases phase with rfl | rfl
    · exact answered
    · exact answered
  · exact sound_fail answered

theorem call_sound {batch : Batch} {intent : ToolIntent} {rest : List ToolIntent}
    (remaining : batch.remaining = intent :: rest)
    (pending : OpenBatch driver.session.messages (intent :: rest)) (answers : CallAnswers) :
    (driver.call batch intent rest answers).Sound := by
  have closing : (driver.withPhase (.closing batch)).Sound := by
    change OpenBatch driver.session.messages batch.remaining
    rw [remaining]
    exact pending
  unfold call
  split
  · exact closing
  · split
    · exact sound_fail pending
    · split
      · exact foldOutcome_sound pending _ _ ⟨_, rfl, .inl rfl⟩
      · split
        · exact sound_fail pending
        · cases answers.ready with
          | none => exact sound_fail pending
          | some ready =>
              cases ready with
              | false => exact closing
              | true =>
                  simp only
                  split
                  · exact sound_fail pending
                  · split
                    · exact sound_recorded_fail (pending.record _)
                    · exact foldOutcome_sound pending _ _ ⟨_, rfl, .inl rfl⟩

theorem settle_sound (closed : Closed driver.session.messages) (batch : Batch)
    (answers : TurnAnswers) : (driver.settle batch answers).Sound := by
  have settled : driver.Settled := .inl closed
  unfold settle
  split
  · exact settled.finish false
  · split
    · split
      · exact settled.finish true
      · split
        · exact settled
        · cases answers.recovery with
          | none => exact settled.finish _
          | some message =>
              simp only
              split
              · exact settled.finish false
              · split
                · exact settled.finish true
                · exact settled.pushUser message
    · split
      · cases answers.idle with
        | none => exact settled.finish false
        | some idle =>
            cases idle with
            | false => exact settled
            | true => exact settled.finish true
      · split
        · exact settled.finish true
        · exact settled

theorem step_sound {action : DriverAction} {next : Driver} (sound : driver.Sound)
    (stepped : step fromStr driver action = some next) : next.Sound := by
  obtain ⟨session, context, phase, returned⟩ := driver
  cases action with
  | pushUser text =>
      cases phase with
      | idle =>
          obtain rfl := Option.some.inj stepped
          exact Settled.pushUser sound text
      | _ => cases stepped
  | begin context started =>
      cases phase with
      | idle =>
          obtain rfl := Option.some.inj stepped
          cases started with
          | true => exact sound
          | false => exact Settled.finish sound false
      | _ => cases stepped
  | head answers =>
      cases phase with
      | head =>
          obtain rfl := Option.some.inj stepped
          exact head_sound sound answers
      | _ => cases stepped
  | prepare reserve noticed started =>
      cases phase with
      | preparing =>
          obtain rfl := Option.some.inj stepped
          exact prepare_sound sound reserve noticed started
      | _ => cases stepped
  | drive drive =>
      cases phase with
      | driving =>
          obtain rfl := Option.some.inj stepped
          exact drive_sound sound drive
      | _ => cases stepped
  | call answers =>
      cases phase with
      | batch batch =>
          obtain ⟨terminal, failed, report, remaining⟩ := batch
          cases remaining with
          | nil => cases stepped
          | cons intent rest =>
              obtain rfl := Option.some.inj stepped
              exact call_sound rfl sound answers
      | _ => cases stepped
  | close content recorded =>
      cases phase with
      | closing batch =>
          obtain ⟨terminal, failed, report, remaining⟩ := batch
          cases remaining with
          | nil => cases stepped
          | cons intent rest =>
              obtain rfl := Option.some.inj stepped
              exact foldOutcome_sound sound content recorded ⟨_, rfl, .inr rfl⟩
      | _ => cases stepped
  | settle answers =>
      cases phase with
      | batch batch =>
          obtain ⟨terminal, failed, report, remaining⟩ := batch
          cases remaining with
          | nil =>
              obtain rfl := Option.some.inj stepped
              exact settle_sound (OpenBatch.closed sound) _ answers
          | cons => cases stepped
      | closing batch =>
          obtain ⟨terminal, failed, report, remaining⟩ := batch
          cases remaining with
          | nil =>
              obtain rfl := Option.some.inj stepped
              exact settle_sound (OpenBatch.closed sound) _ answers
          | cons => cases stepped
      | _ => cases stepped

theorem run_sound {actions : List DriverAction} {last : Driver} (sound : driver.Sound)
    (reached : Transitions.run (step fromStr) driver actions = some last) : last.Sound :=
  Transitions.run_preserves (fun _ _ _ sound stepped => step_sound sound stepped) actions sound
    reached

/-! ## What the next prompt finds -/

/-- No request can be prepared, whatever user messages are appended before. -/
def Refused (fromStr : String → Option Json.Value) (session : AgentSession) : Prop :=
  ∀ (texts : List String) (context : ContextManager) (reserve : Nat), ∃ error,
    ((texts.foldl .pushUser session).prepareRequest fromStr context reserve).result = .error error

theorem refused_of_fenced {session : AgentSession} (fenced : Fenced session.messages) :
    Refused fromStr session := by
  intro texts context reserve
  have later : Fenced (texts.foldl AgentSession.pushUser session).messages := by
    induction texts generalizing session with
    | nil => exact fenced
    | cons text rest ih => exact ih (fenced.pushUser text)
  cases outcome : ((texts.foldl AgentSession.pushUser session).prepareRequest fromStr context
      reserve).result with
  | error error => exact ⟨error, rfl⟩
  | ok prepared => exact absurd (AgentSession.prepareRequest_closed outcome).1 later.not_closed

/-- Outside the loop over the calls of a turn and the streaming of the next one. -/
def quiet : LoopPhase → Bool
  | .idle | .head | .preparing => true
  | _ => false

theorem Sound.settled (sound : driver.Sound) (outside : quiet driver.phase = true) :
    driver.Settled := by
  obtain ⟨session, context, phase, returned⟩ := driver
  cases phase with
  | idle => exact sound
  | head => exact sound
  | preparing => exact sound
  | driving => cases outside
  | batch => cases outside
  | closing => cases outside

/-- The history is accepted until a run fails inside a turn, and refused from then on. -/
theorem history_kept {session : AgentSession} {context : ContextManager}
    {actions : List DriverAction} (accepted : Accepted session.messages)
    (reached : Transitions.run (step fromStr) (start session context) actions = some driver) :
    (quiet driver.phase = true → false ∉ driver.returned → Accepted driver.session.messages) ∧
      (driver.phase = .driving → Accepted driver.session.messages) ∧
      (quiet driver.phase = true →
        Accepted driver.session.messages ∨ Refused fromStr driver.session) := by
  have first : (start session context).Sound := .inl (accepted_iff.mp accepted)
  have sound := run_sound first reached
  simp only [accepted_iff]
  refine ⟨fun outside unfailed => ?_, fun driving => ?_, fun outside => ?_⟩
  · rcases sound.settled outside with closed | ⟨-, failed⟩
    · exact closed
    · exact absurd failed unfailed
  · unfold Sound at sound
    rw [driving] at sound
    exact sound
  · rcases sound.settled outside with closed | ⟨fenced, -⟩
    · exact .inl closed
    · exact .inr (refused_of_fenced fenced)

/-! ## A failure before a dispatch -/

def briefSession : AgentSession := .new "m" .low [] "s"

def briefContext : ContextManager := .withBounds 8192 6144 4

def readCall : ToolIntent where
  id := "1"
  providerId := none
  name := "read"
  arguments := .object []

def openHead : HeadAnswers where
  stopped := false
  delivered := []
  deliveryFailed := false
  turnLimit := false
  noticed := true
  attemptsExhausted := false

def refusedDispatch : CallAnswers where
  interrupted := false
  observationNoticed := true
  blocked := false
  dispatched := false
  ready := some true
  executed := .outcome
  refusalNoticed := true
  content := ""
  recorded := true
  progressed := true
  report := false

def prompt (text : String) : List DriverAction :=
  [.pushUser text, .begin briefContext true, .head openHead, .prepare 64 true true]

def failingRun : List DriverAction :=
  prompt "a" ++ [.drive (.turn ⟨"", [readCall], .toolCalls⟩), .call refusedDispatch]

theorem history_left_open :
    (Transitions.run (step fun _ => none) (start briefSession briefContext) failingRun).map
        (fun driver => (driver.returned,
          completeGroups none driver.session.messages.zipIdx)) =
      some ([false], .error (.invalidModelTurn
        "assistant tool calls lack a complete set of results")) ∧
    (Transitions.run (step fun _ => none) (start briefSession briefContext)
        (failingRun ++ prompt "b")).map (·.returned) = some [false, false] := by
  decide +kernel

theorem history_kept_failingRun :
    ∃ driver, Transitions.run (step fun _ => none) (start briefSession briefContext) failingRun =
        some driver ∧ quiet driver.phase = true ∧
      (Accepted driver.session.messages ∨ Refused (fun _ => none) driver.session) := by
  have outside : (Transitions.run (step fun _ => none) (start briefSession briefContext)
      failingRun).map (fun driver => quiet driver.phase) = some true := by decide +kernel
  obtain ⟨driver, reached, quiet⟩ := Option.map_eq_some_iff.mp outside
  exact ⟨driver, reached, quiet, (history_kept (accepted_iff.mpr closed_nil) reached).2.2 quiet⟩

end Driver

end Kvist.Runtime
