import Mathlib
import Kvist.LoopDetection.Actions
import Kvist.Json.Bytes
import Kvist.Observations
import Kvist.Json.Encoded

/-!
# Evidence of native executions

What a native execution changed is observed around it and kept until it is asked for. What is kept
is found again by the digest of the intent and the outcome; executions that share it are ambiguous.
-/

set_option autoImplicit false

namespace Kvist.Executor

open Kvist.Runtime (ToolIntent ToolOutcome)
open Kvist.LoopDetection (ProgressEvidence littleEndianBytes flag)

def maxPending : Nat := 128

inductive Error where
  | sandboxExec (tool : Option String) (reason : String)
  | other (description : String)
  deriving DecidableEq, Repr

def Error.describe : Error → String
  | .sandboxExec (some tool) reason =>
      "sandbox execution of \x60" ++ tool ++ "\x60 failed: " ++ reason
  | .sandboxExec none reason => "sandbox execution failed: " ++ reason
  | .other description => description

def failed (phase : String) (error : Error) : Error :=
  .sandboxExec (some "file_tool")
    ("native mutation revision observation " ++ phase ++ " failed: " ++ error.describe ++
      "; reconcile the target before further work; no automatic replay")

def ambiguous : Error :=
  .sandboxExec (some "file_tool")
    ("ambiguous matching native mutation observations; evidence cannot identify " ++
      "this execution; effects may exist, reconcile before further work; no automatic replay")

/-- The bytes that are hashed: the intent, and the outcome behind it. -/
def identityBytes (intent : ToolIntent) (outcome : ToolOutcome) : List UInt8 :=
  Json.encode intent.toJson ++
  [flag outcome.exited, flag outcome.timedOut, flag outcome.outputLimitExceeded,
    flag outcome.cancelled, flag outcome.status.isSome] ++
  littleEndianBytes 4 (outcome.status.getD 0).toBitVec.toNat ++
  littleEndianBytes 8 outcome.stdout.length ++ outcome.stdout ++
  littleEndianBytes 8 outcome.stderr.length ++ outcome.stderr

section Progress

variable {Digest Revision : Type} [DecidableEq Digest] [DecidableEq Revision]
variable (sha256 : List UInt8 → Digest)

def identity (intent : ToolIntent) (outcome : ToolOutcome) : Digest :=
  sha256 (identityBytes intent outcome)

/-- The observations that wait to be asked for, the oldest first. -/
abbrev NativeProgress (Digest : Type) :=
  List (Observations.Observation Digest (Except Error ProgressEvidence))

/-- What is seen around one execution: the two checks for cancellation, the revision before it
where the request changes a file, the binding of its target, the execution itself and the revision
after it. -/
structure Surroundings (Revision : Type) where
  started : Except Error Unit
  before : Except Error (Option Revision)
  bound : Except Error Unit
  continued : Except Error Unit
  outcome : Except Error ToolOutcome
  after : Except Error Revision

def notExecuted {α : Type} (result : Except Error α) : Except Error α :=
  result.mapError (failed "before execution (not executed)")

/-- The outcome, and the evidence where a file is observed. -/
def observe (around : Surroundings Revision) :
    Except Error (ToolOutcome × Option (Except Error ProgressEvidence)) := do
  notExecuted around.started
  let observation ← notExecuted around.before
  if observation.isSome then notExecuted around.bound
  notExecuted around.continued
  let outcome ← around.outcome
  return (outcome, observation.map fun before =>
    (around.after.mapError (failed "after execution (effects may be present)")).map fun after =>
      if before ≠ after then .stateChanged else .none)

/-- Keeps one observation more, and marks it and those of its identity where there are such. -/
def record (pending : NativeProgress Digest) (identity : Digest)
    (evidence : Except Error ProgressEvidence) : NativeProgress Digest :=
  Observations.record maxPending (.error ambiguous) pending identity evidence

def executePrepared (pending : NativeProgress Digest) (intent : ToolIntent)
    (around : Surroundings Revision) : Except Error ToolOutcome × NativeProgress Digest :=
  match observe around with
  | .error error => (.error error, pending)
  | .ok (outcome, none) => (.ok outcome, pending)
  | .ok (outcome, some evidence) =>
      (.ok outcome, record pending (identity sha256 intent outcome) evidence)

/-- The evidence of the first observation of this identity, which is no longer kept. -/
def progress (pending : NativeProgress Digest) (intent : ToolIntent) (outcome : ToolOutcome) :
    Except Error ProgressEvidence × NativeProgress Digest :=
  Observations.take (.ok .none) pending (identity sha256 intent outcome)

end Progress

end Kvist.Executor

/-! ## Pairing of native executions with their evidence

The hashed bytes tell the intent and the outcome. So in every run in which no execution is recorded
beside one whose evidence was given up, each is answered with its own evidence at most.
-/

namespace Kvist.Executor

open Kvist.Runtime (ToolIntent ToolOutcome optionToJson)
open Kvist.LoopDetection (ProgressEvidence littleEndianBytes flag)
open Observations (Event State System)

/-! ## What the identity tells -/

theorem flag_injective {left right : Bool} (same : flag left = flag right) : left = right := by
  cases left <;> cases right <;> first | rfl | exact absurd same (by decide)

theorem length_littleEndianBytes (count value : Nat) :
    (littleEndianBytes count value).length = count := by
  induction count generalizing value with
  | zero => rfl
  | succ count ih => rw [littleEndianBytes, List.length_cons, ih]

theorem littleEndianBytes_injective {count left right : Nat} (leftSmall : left < 256 ^ count)
    (rightSmall : right < 256 ^ count)
    (same : littleEndianBytes count left = littleEndianBytes count right) : left = right := by
  induction count generalizing left right with
  | zero =>
      rw [pow_zero] at leftSmall rightSmall
      omega
  | succ count ih =>
      simp only [littleEndianBytes] at same
      obtain ⟨low, high⟩ := List.cons.inj same
      have low := congrArg UInt8.toNat low
      simp only [UInt8.toNat_ofNat'] at low
      rw [pow_succ] at leftSmall rightSmall
      have high := ih (Nat.div_lt_of_lt_mul (by omega)) (Nat.div_lt_of_lt_mul (by omega)) high
      omega

/-- What stands behind its length in eight bytes is told from everything behind it. -/
theorem counted_unique {left right rest more : List UInt8} (leftBounded : left.length < 2 ^ 64)
    (rightBounded : right.length < 2 ^ 64)
    (same : littleEndianBytes 8 left.length ++ left ++ rest =
      littleEndianBytes 8 right.length ++ right ++ more) : left = right ∧ rest = more := by
  rw [List.append_assoc, List.append_assoc] at same
  obtain ⟨lengths, bodies⟩ := List.append_inj same (by simp only [length_littleEndianBytes])
  exact List.append_inj bodies (littleEndianBytes_injective (by omega) (by omega) lengths)

theorem toJson_injective {left right : ToolIntent} (same : left.toJson = right.toJson) :
    left = right := by
  cases left with
  | mk id providerId name arguments =>
      cases right with
      | mk otherId otherProviderId otherName otherArguments =>
          simp only [ToolIntent.toJson, Json.Value.object.injEq, List.cons.injEq, Prod.mk.injEq,
            Json.Value.string.injEq, true_and, and_true] at same
          obtain ⟨rfl, provider, rfl, rfl⟩ := same
          cases providerId <;> cases otherProviderId <;>
            simp only [optionToJson, Json.Value.string.injEq, reduceCtorEq] at provider <;>
            simp only [provider]

theorem wellFormed_toJson {intent : ToolIntent} (formed : intent.arguments.wellFormed = true) :
    intent.toJson.wellFormed = true := by
  cases intent with
  | mk id providerId name arguments =>
      cases providerId <;>
        simpa [ToolIntent.toJson, optionToJson, Json.Value.wellFormed,
          Json.Value.wellFormedMembers] using formed

theorem status_injective {left right : Option Int32} (some? : left.isSome = right.isSome)
    (same : littleEndianBytes 4 (left.getD 0).toBitVec.toNat =
      littleEndianBytes 4 (right.getD 0).toBitVec.toNat) : left = right := by
  have values := littleEndianBytes_injective (left.getD 0).toBitVec.isLt (right.getD 0).toBitVec.isLt
    same
  cases left with
  | none =>
      cases right with
      | none => rfl
      | some other => cases some?
  | some value =>
      cases right with
      | none => cases some?
      | some other =>
          simp only [Option.getD_some] at values
          rw [Int32.toBitVec_inj.mp (BitVec.eq_of_toNat_eq values)]

theorem breaks_flag (value : Bool) (rest : List UInt8) : Json.Breaks (flag value :: rest) := by
  intro byte others same
  obtain ⟨rfl, -⟩ := List.cons.inj same
  cases value <;> decide

theorem identityBytes_injective {left right : ToolIntent} {outcome other : ToolOutcome}
    (leftFormed : left.arguments.wellFormed = true)
    (rightFormed : right.arguments.wellFormed = true)
    (bounded : outcome.stdout.length < 2 ^ 64 ∧ outcome.stderr.length < 2 ^ 64)
    (otherBounded : other.stdout.length < 2 ^ 64 ∧ other.stderr.length < 2 ^ 64)
    (same : identityBytes left outcome = identityBytes right other) :
    left = right ∧ outcome = other := by
  simp only [identityBytes, List.append_assoc, List.cons_append, List.nil_append] at same
  obtain ⟨intents, rest⟩ := Json.encode_unique (wellFormed_toJson leftFormed)
    (wellFormed_toJson rightFormed) (breaks_flag _ _) (breaks_flag _ _) same
  simp only [List.cons.injEq] at rest
  obtain ⟨exited, timedOut, exceeded, cancelled, some?, rest⟩ := rest
  obtain ⟨statuses, rest⟩ := List.append_inj rest (by simp only [length_littleEndianBytes])
  rw [← List.append_assoc, ← List.append_assoc (littleEndianBytes 8 other.stdout.length)] at rest
  obtain ⟨stdouts, rest⟩ := counted_unique bounded.1 otherBounded.1 rest
  rw [← List.append_nil (_ ++ outcome.stderr), ← List.append_nil (_ ++ other.stderr)] at rest
  obtain ⟨stderrs, -⟩ := counted_unique bounded.2 otherBounded.2 rest
  refine ⟨toJson_injective intents, ?_⟩
  cases outcome with
  | mk outcomeExited status stdout stderr outcomeTimedOut outcomeExceeded outcomeCancelled =>
      cases other with
      | mk otherExited otherStatus otherStdout otherStderr otherTimedOut otherExceeded
          otherCancelled =>
          simp only [ToolOutcome.mk.injEq]
          exact ⟨flag_injective exited, status_injective (flag_injective some?) statuses, stdouts,
            stderrs, flag_injective timedOut, flag_injective exceeded, flag_injective cancelled⟩

/-! ## Runs -/

section Runs

variable {Name Digest Revision : Type} [DecidableEq Name] [DecidableEq Digest]
variable [DecidableEq Revision]

/-- An execution that gave an outcome, with what was observed of it. -/
structure Execution (Revision : Type) [DecidableEq Revision] where
  intent : ToolIntent
  around : Surroundings Revision
  outcome : ToolOutcome
  evidence : Option (Except Error ProgressEvidence)
  returned : observe around = .ok (outcome, evidence)
  wellFormed : intent.arguments.wellFormed = true
  bounded : outcome.stdout.length < 2 ^ 64 ∧ outcome.stderr.length < 2 ^ 64

variable (sha256 : List UInt8 → Digest) (execution : Name → Execution Revision)

def executions : System Name Digest (Except Error ProgressEvidence) where
  capacity := maxPending
  room := by decide
  ambiguous := .error ambiguous
  absent := .ok .none
  identity := fun name => identity sha256 (execution name).intent (execution name).outcome
  evidence := fun name => (execution name).evidence

/-- The executions, told apart by their intent and outcome themselves. -/
def apart : System Name (ToolIntent × ToolOutcome) (Except Error ProgressEvidence) :=
  (executions sha256 execution).foundBy fun name =>
    ((execution name).intent, (execution name).outcome)

/-- The answer to the question what this execution changed. -/
def answer (pending : NativeProgress Digest) (name : Name) : Except Error ProgressEvidence :=
  (progress sha256 pending (execution name).intent (execution name).outcome).1

def step (state : State Name Digest (Except Error ProgressEvidence)) :
    Event Name → Option (State Name Digest (Except Error ProgressEvidence))
  | .execute name =>
      if state.history.contains (.execute name) then none
      else
        some ⟨(executePrepared sha256 state.pending (execution name).intent
          (execution name).around).2, .execute name :: state.history⟩
  | .ask name =>
      some ⟨(progress sha256 state.pending (execution name).intent (execution name).outcome).2,
        .ask name :: state.history⟩

theorem step_eq : step sha256 execution = (executions sha256 execution).step := by
  funext state event
  cases event with
  | execute name =>
      rw [step, System.step, executePrepared, (execution name).returned]
      simp only [List.contains_iff_mem]
      cases observed : (execution name).evidence with
      | none => simp only [executions, observed]
      | some evidence => simp only [executions, observed, record]
  | ask name => rfl

/-- No execution is recorded while one of its intent and outcome waits whose evidence was given up,
and what is given up is of no ambiguous execution. Who asks waits, or none of its identity does. -/
def Separate (state : State Name Digest (Except Error ProgressEvidence)) (event : Event Name) :
    Prop :=
  (executions sha256 execution).Separate state event

/-- Each execution is answered once, with its own evidence at most, and executions of one intent
and outcome that wait at the same time are refused. No more than the bound is kept. -/
theorem progress_paired
    (injective : Set.InjOn sha256 {bytes | ∃ name,
      bytes = identityBytes (execution name).intent (execution name).outcome})
    {events : List (Event Name)} {state : State Name Digest (Except Error ProgressEvidence)}
    (separate : Transitions.Meets (step sha256 execution) (Separate sha256 execution)
      System.start events)
    (reached : Transitions.run (step sha256 execution) System.start events = some state) :
    state.pending.length ≤ maxPending ∧ ∀ name, Separate sha256 execution state (.ask name) →
      (apart sha256 execution).Answered state.history name
        (answer sha256 execution state.pending name) := by
  have same (left right : Name) :
      ((execution left).intent, (execution left).outcome) =
          ((execution right).intent, (execution right).outcome) ↔
        (executions sha256 execution).identity left =
          (executions sha256 execution).identity right := by
    constructor
    · intro equal
      obtain ⟨intents, outcomes⟩ := Prod.mk.inj equal
      simp only [executions, intents, outcomes]
    · intro equal
      obtain ⟨intents, outcomes⟩ := identityBytes_injective (execution left).wellFormed
        (execution right).wellFormed (execution left).bounded (execution right).bounded
        (injective ⟨left, rfl⟩ ⟨right, rfl⟩ equal)
      rw [intents, outcomes]
  rw [step_eq] at separate reached
  obtain ⟨bounded, answered⟩ := Observations.run_answered separate reached
  exact ⟨bounded, fun name separate => Observations.answered_foundBy same (answered name separate)⟩

end Runs

/-! ## Writes of one file -/

def writeIntent (id : String) : ToolIntent where
  id := id
  providerId := none
  name := "write_file"
  arguments := .object [("content", .string "new"), ("path", .string "/workspace/text")]

def writeOutcome : ToolOutcome where
  exited := true
  status := some 0
  stdout := Json.utf8 "claimed mutation success".toList
  stderr := []
  timedOut := false
  outputLimitExceeded := false
  cancelled := false

/-- A write after which the file has this revision; before it the revision is zero. -/
def write (id : String) (after : Nat) : Execution Nat where
  intent := writeIntent id
  around := ⟨.ok (), .ok (some 0), .ok (), .ok (), .ok writeOutcome, .ok after⟩
  outcome := writeOutcome
  evidence := some (.ok (if 0 ≠ after then .stateChanged else .none))
  returned := rfl
  wellFormed := rfl
  bounded := by decide

/-- One write that changes nothing, many others, and at last the first one again, with an effect. -/
def writes (name : Nat) : Execution Nat :=
  if name = 0 then write "mutation-0" 0
  else if name ≤ maxPending then write "mutation-1" 0
  else write "mutation-0" 1

/-- The digest of the first and the last write, as a number. -/
def firstDigest : Nat := 0xbdab0a4cf81fa3d2ca7ad4f2158241d7c072c289290d1f52c1d89ad3ec60ddfe

/-- The digest of the writes between them. -/
def otherDigest : Nat := 0x7030796a464b10eecec3dd7a9b74c67b372172714b6136b8a66908ef4dfb9bb2

def writeSha256 (bytes : List UInt8) : Nat :=
  if bytes = identityBytes (writeIntent "mutation-0") writeOutcome then firstDigest
  else if bytes = identityBytes (writeIntent "mutation-1") writeOutcome then otherDigest
  else bytes.length

theorem identity_first :
    identity writeSha256 (writeIntent "mutation-0") writeOutcome = firstDigest := by
  rw [identity, writeSha256, if_pos rfl]

theorem identity_other :
    identity writeSha256 (writeIntent "mutation-1") writeOutcome = otherDigest := by
  have distinct : identityBytes (writeIntent "mutation-1") writeOutcome ≠
      identityBytes (writeIntent "mutation-0") writeOutcome := by decide
  rw [identity, writeSha256, if_neg distinct, if_pos rfl]

theorem injOn_writeSha256 :
    Set.InjOn writeSha256 {bytes | ∃ name,
      bytes = identityBytes (writes name).intent (writes name).outcome} := by
  have digests : firstDigest ≠ otherDigest := by decide
  have bytes (name : Nat) :
      (identityBytes (writes name).intent (writes name).outcome =
          identityBytes (writeIntent "mutation-0") writeOutcome) ∨
        identityBytes (writes name).intent (writes name).outcome =
          identityBytes (writeIntent "mutation-1") writeOutcome := by
    rw [writes]
    split
    · exact .inl rfl
    · split
      · exact .inr rfl
      · exact .inl rfl
  have first := identity_first
  have other := identity_other
  rw [identity] at first other
  rintro _ ⟨left, rfl⟩ _ ⟨right, rfl⟩ same
  rcases bytes left with leftBytes | leftBytes <;> rcases bytes right with rightBytes | rightBytes <;>
    rw [leftBytes, rightBytes] at same ⊢
  · exact absurd (first.symm.trans (same.trans other)) digests
  · exact absurd (first.symm.trans (same.symm.trans other)) digests

/-- The writes as they are found by their digests. -/
theorem executions_writes :
    executions writeSha256 writes =
      { capacity := maxPending
        room := by decide
        ambiguous := .error ambiguous
        absent := .ok .none
        identity := fun name =>
          if name = 0 then firstDigest
          else if name ≤ maxPending then otherDigest
          else firstDigest
        evidence := fun name =>
          some (.ok (if name ≤ maxPending then .none else .stateChanged)) } := by
  rw [executions, System.mk.injEq]
  refine ⟨rfl, rfl, rfl, ?_, ?_⟩
  · funext name
    rw [writes]
    split
    · exact identity_first
    · split
      · exact identity_other
      · exact identity_first
  · funext name
    rw [writes]
    split
    case isTrue first =>
      subst first
      rfl
    case isFalse later =>
      split <;> rfl

/-- The first write changed nothing, and is answered with what the last one changed: its own
evidence was given up, and so the two were not seen to be ambiguous. -/
theorem foreign_evidence_answered :
    (Transitions.run (step writeSha256 writes) System.start
        ((List.range (maxPending + 2)).map .execute)).map
      (fun state => answer writeSha256 writes state.pending 0) = some (.ok .stateChanged) ∧
    (writes 0).evidence = some (.ok .none) ∧
    (writes (maxPending + 1)).evidence = some (.ok .stateChanged) ∧
    (writes 0).intent = (writes (maxPending + 1)).intent ∧
    (writes 0).outcome = (writes (maxPending + 1)).outcome := by
  refine ⟨?_, rfl, rfl, rfl, rfl⟩
  simp only [step_eq, answer, progress, writes, reduceIte, write, identity_first, executions_writes]
  decide +kernel

/-- The first write and the last one, recorded while the first one waits. -/
theorem progress_paired_twins :
    let state : State Nat Nat (Except Error ProgressEvidence) :=
      ⟨[⟨firstDigest, .error ambiguous⟩, ⟨firstDigest, .error ambiguous⟩],
        [.execute (maxPending + 1), .execute 0]⟩
    state.pending.length ≤ maxPending ∧
      ∀ name, Separate writeSha256 writes state (.ask name) →
        (apart writeSha256 writes).Answered state.history name
          (answer writeSha256 writes state.pending name) := by
  intro state
  have reached : Transitions.run (step writeSha256 writes) System.start
      [.execute 0, .execute (maxPending + 1)] = some state := by
    rw [step_eq, executions_writes]
    rfl
  have first : step writeSha256 writes System.start (.execute 0) =
      some ⟨[⟨firstDigest, .ok .none⟩], [.execute 0]⟩ := by
    rw [step_eq, executions_writes]
    rfl
  have separate : Transitions.Meets (step writeSha256 writes) (Separate writeSha256 writes)
      System.start [.execute 0, .execute (maxPending + 1)] := by
    refine ⟨fun _ => ⟨fun other waiting => waiting.elim, fun full => absurd full (by decide)⟩, ?_⟩
    intro next stepped
    obtain rfl := Option.some.inj (first.symm.trans stepped)
    refine ⟨fun _ => ⟨fun other _ _ => ⟨_, List.mem_singleton_self _, ?_⟩,
      fun full => absurd full (by decide : ¬1 = maxPending)⟩, fun _ _ => trivial⟩
    rw [executions_writes]
    rfl
  exact progress_paired writeSha256 writes injOn_writeSha256 separate reached

end Kvist.Executor
