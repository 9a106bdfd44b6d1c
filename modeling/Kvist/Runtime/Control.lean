import Kvist.Outcome
import Kvist.Text

/-!
# The control mailbox

The mailbox through which clients hand tasks and guidance to the owner of a run. Each operation
runs under the mailbox's lock, so it is one function of the state; the reason of a refused
operation is the reason of `Error::Control`.
-/

set_option autoImplicit false

namespace Kvist.Runtime

def CAPACITY : Nat := 32

def MAX_MESSAGE_BYTES : Nat := 64 * 1024

def MAX_QUEUED_BYTES : Nat := 1024 * 1024

/-- The largest `u64`, where the control identities end. -/
def lastIdentity : Nat := 18446744073709551615

abbrev GuidanceId := Nat

structure Guidance where
  id : GuidanceId
  text : String
  deriving DecidableEq, Repr

inductive SubmissionKind where
  | task
  | guidance
  deriving DecidableEq, Repr

structure Submission where
  id : GuidanceId
  kind : SubmissionKind
  deriving DecidableEq, Repr

inductive GuidanceState where
  | accepted
  | claimed
  | delivered
  | withdrawn
  | dropped
  deriving DecidableEq, Repr

structure GuidanceNotice where
  id : GuidanceId
  state : GuidanceState
  deriving DecidableEq, Repr

structure ControlMailbox where
  sequence : Nat := 0
  active : Bool := false
  owned : Bool := false
  closed : Bool := false
  tasks : List Guidance := []
  guidance : List Guidance := []
  claimed : List (GuidanceId × Bool) := []
  withdrawn : List GuidanceId := []
  dropped : List GuidanceId := []
  bytes : Nat := 0
  deriving DecidableEq, Repr

/-- The total length in bytes of the queued texts. -/
def textBytes : List Guidance → Nat
  | [] => 0
  | message :: rest => message.text.utf8ByteSize + textBytes rest

/-- `iter().position(..)` and the element there, between what stands before and behind it. -/
def locate {α : Type} (matching : α → Bool) : List α → Option (List α × α × List α)
  | [] => none
  | value :: rest =>
      if matching value then some ([], value, rest)
      else (locate matching rest).map fun parts => (value :: parts.1, parts.2)

def validate (text : String) (maxBytes : Nat) : Except String Unit :=
  ensure (!(Text.isBlank text || maxBytes < text.utf8ByteSize || text.toList.contains '\x00'))
    "message must be nonblank, NUL-free and within the task/guidance byte limit"

namespace ControlMailbox

def enqueue (mailbox : ControlMailbox) (text : String) (guidanceOnly : Bool) :
    Except String (ControlMailbox × Submission) := do
  validate text MAX_QUEUED_BYTES
  ensure (!mailbox.closed) "runtime is shut down"
  ensure (!(guidanceOnly && !mailbox.active)) "no active task"
  if mailbox.active then validate text MAX_MESSAGE_BYTES
  ensure (!(CAPACITY ≤ mailbox.guidance.length + mailbox.tasks.length + mailbox.claimed.length ||
    MAX_QUEUED_BYTES < mailbox.bytes + text.utf8ByteSize)) "pending control queue is full"
  ensure (mailbox.sequence < lastIdentity) "control identities exhausted"
  let id := mailbox.sequence + 1
  let queued := { mailbox with sequence := id, bytes := mailbox.bytes + text.utf8ByteSize }
  if mailbox.active then
    return ({ queued with guidance := queued.guidance ++ [⟨id, text⟩] }, ⟨id, .guidance⟩)
  else
    return ({ queued with tasks := queued.tasks ++ [⟨id, text⟩] }, ⟨id, .task⟩)

/-- Submits a task only when idle; otherwise adds guidance to the active task. -/
def submit (mailbox : ControlMailbox) (text : String) :
    Except String (ControlMailbox × Submission) :=
  mailbox.enqueue text false

/-- Adds guidance, refusing an idle or closed runtime. -/
def steer (mailbox : ControlMailbox) (text : String) :
    Except String (ControlMailbox × GuidanceId) := do
  let (mailbox, submission) ← mailbox.enqueue text true
  return (mailbox, submission.id)

def edit (mailbox : ControlMailbox) (id : GuidanceId) (text : String) :
    Except String ControlMailbox := do
  validate text MAX_MESSAGE_BYTES
  ensure (!mailbox.closed) "runtime is shut down"
  match locate (·.id == id) mailbox.guidance with
  | none => .error "guidance is no longer pending"
  | some (before, message, behind) =>
      let bytes := mailbox.bytes - message.text.utf8ByteSize + text.utf8ByteSize
      ensure (bytes ≤ MAX_QUEUED_BYTES) "pending control bytes exceeded"
      return { mailbox with guidance := before ++ { message with text } :: behind, bytes }

def withdraw (mailbox : ControlMailbox) (id : GuidanceId) : Except String ControlMailbox := do
  ensure (!mailbox.closed) "runtime is shut down"
  match locate (·.id == id) mailbox.guidance with
  | none => .error "guidance is no longer pending"
  | some (before, message, behind) =>
      ensure (mailbox.withdrawn.length < CAPACITY) "pending withdrawal notice queue is full"
      return { mailbox with
        guidance := before ++ behind
        bytes := mailbox.bytes - message.text.utf8ByteSize
        withdrawn := mailbox.withdrawn ++ [id] }

def beginRun (mailbox : ControlMailbox) : Except String ControlMailbox := do
  ensure (!mailbox.closed) "runtime is shut down"
  ensure (!mailbox.owned) "a runtime already owns this task"
  return { mailbox with active := true, owned := true }

def nextTask (mailbox : ControlMailbox) : ControlMailbox × Option String :=
  if mailbox.closed || mailbox.active then (mailbox, none)
  else
    match mailbox.tasks with
    | [] => (mailbox, none)
    | message :: rest =>
        ({ mailbox with
            tasks := rest
            bytes := mailbox.bytes - message.text.utf8ByteSize
            active := true },
          some message.text)

def cancelActive (mailbox : ControlMailbox) : Bool := mailbox.active && !mailbox.closed

/-- Whether the callback of `deliver_if_open` runs. -/
def deliverIfOpen (mailbox : ControlMailbox) : Bool := !mailbox.closed

def shutdown (mailbox : ControlMailbox) : ControlMailbox :=
  { mailbox with
    closed := true
    tasks := []
    guidance := []
    dropped := mailbox.dropped ++ mailbox.guidance.map (·.id)
    withdrawn := []
    bytes := 0 }

def isShutdown (mailbox : ControlMailbox) : Bool := mailbox.closed

/-- Linearization point between a final answer and a simultaneous submission. -/
def finishIfIdle (mailbox : ControlMailbox) : ControlMailbox × Bool :=
  if !mailbox.closed && !mailbox.guidance.isEmpty then (mailbox, false)
  else ({ mailbox with active := false }, true)

def claim (mailbox : ControlMailbox) : ControlMailbox × List Guidance :=
  if mailbox.closed then (mailbox, [])
  else
    ({ mailbox with
        guidance := []
        bytes := mailbox.bytes - textBytes mailbox.guidance
        claimed := mailbox.claimed ++ mailbox.guidance.map fun message => (message.id, false) },
      mailbox.guidance)

def markDelivered (mailbox : ControlMailbox) (id : GuidanceId) : Except String ControlMailbox :=
  match locate (·.1 == id) mailbox.claimed with
  | none => .error "guidance is not claimed"
  | some (before, entry, behind) =>
      .ok { mailbox with claimed := before ++ (entry.1, true) :: behind }

def completeClaim (mailbox : ControlMailbox) (id : GuidanceId) : Except String ControlMailbox :=
  match locate (·.1 == id) mailbox.claimed with
  | none => .error "guidance is not claimed"
  | some (before, _, behind) => .ok { mailbox with claimed := before ++ behind }

def finishClaims (mailbox : ControlMailbox) : ControlMailbox × List GuidanceNotice :=
  ({ mailbox with claimed := [] },
    mailbox.claimed.map fun entry => ⟨entry.1, if entry.2 then .delivered else .dropped⟩)

def withdrawals (mailbox : ControlMailbox) : ControlMailbox × List GuidanceId :=
  ({ mailbox with withdrawn := [] }, mailbox.withdrawn)

/-- Ends ownership and returns undelivered guidance, never queued tasks. -/
def endRun (mailbox : ControlMailbox) : ControlMailbox × List GuidanceId :=
  ({ mailbox with
      active := false
      owned := false
      withdrawn := []
      guidance := []
      bytes := mailbox.bytes - textBytes mailbox.guidance
      dropped := []
      claimed := [] },
    mailbox.dropped ++ ((mailbox.claimed.filter (!·.2)).map (·.1)) ++
      mailbox.guidance.map (·.id))

end ControlMailbox

/-! ## Texts and positions -/

@[simp] theorem textBytes_nil : textBytes [] = 0 := rfl

@[simp] theorem textBytes_append (front back : List Guidance) :
    textBytes (front ++ back) = textBytes front + textBytes back := by
  induction front with
  | nil => simp
  | cons message rest ih => simp [textBytes, ih, Nat.add_assoc]

@[simp] theorem textBytes_cons (message : Guidance) (rest : List Guidance) :
    textBytes (message :: rest) = message.text.utf8ByteSize + textBytes rest := rfl

theorem locate_some {α : Type} {matching : α → Bool} {values before behind : List α} {value : α}
    (located : locate matching values = some (before, value, behind)) :
    values = before ++ value :: behind ∧ matching value = true := by
  induction values generalizing before with
  | nil => simp [locate] at located
  | cons first rest ih =>
      rw [locate] at located
      split at located
      · next found =>
          simp only [Option.some.injEq, Prod.mk.injEq] at located
          obtain ⟨rfl, rfl, rfl⟩ := located
          exact ⟨rfl, found⟩
      · simp only [Option.map_eq_some_iff, Prod.exists, Prod.mk.injEq] at located
        obtain ⟨front, _, _, foundLater, rfl, rfl, rfl⟩ := located
        obtain ⟨rfl, found⟩ := ih foundLater
        exact ⟨rfl, found⟩

theorem locate_isSome {α : Type} (matching : α → Bool) {values : List α} {value : α}
    (member : value ∈ values) (found : matching value = true) :
    ∃ parts, locate matching values = some parts := by
  induction values with
  | nil => cases member
  | cons first rest ih =>
      rw [locate]
      split
      · exact ⟨_, rfl⟩
      · next unmatched =>
          rcases List.mem_cons.mp member with rfl | later
          · exact absurd found unmatched
          · obtain ⟨parts, located⟩ := ih later
            exact ⟨_, by rw [located]; rfl⟩

end Kvist.Runtime
