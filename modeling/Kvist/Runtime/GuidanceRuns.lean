import Kvist.Runtime.Control
import Kvist.Transitions

/-!
# Runs around a control mailbox

The mailbox with its clients, the owner of its runs and the conversation that guidance goes to.
Clients act at any time. The owner is one thread: either the native driver (`deliver_guidance`
and the cleanup of `run_controlled`) or the adapter of the protected authoring run
(`RunControls::deliver` and `RunControls::close`), which shares the mailbox but neither marks nor
completes what it claims. Where a notice, a recorder or anything else between two mailbox
operations can fail, the owner can give up and go to its cleanup.
-/

set_option autoImplicit false

namespace Kvist.Runtime

inductive Owner where
  | driver
  | adapter
  deriving DecidableEq, Repr

/-- Where the owner's thread stands between two operations. -/
inductive Phase where
  | idle
  | running
  | withdrawing
  /-- In the loop over a claimed batch, before its next message. -/
  | delivering (batch : List Guidance)
  /-- Found neither shutdown nor cancellation for this message. -/
  | inspected (message : Guidance) (rest : List Guidance)
  /-- The callback has pushed the message; it is not marked yet. -/
  | pushed (message : Guidance) (rest : List Guidance)
  /-- About to give the last notice on the message and to complete its claim. -/
  | disposing (message : Guidance) (delivered : Bool) (rest : List Guidance)
  /-- Found no cancellation behind a terminal turn: `finish_if_idle` is next. -/
  | observed
  | closing
  | settling
  | ending
  deriving DecidableEq, Repr

/-- The fields from `run` on are not read by any operation: they record what has happened. -/
structure System where
  mailbox : ControlMailbox := {}
  owner : Owner := .driver
  phase : Phase := .idle
  cancelled : Bool := false
  /-- The guidance that `push_user` has put into the conversation. -/
  session : List Guidance := []
  run : Nat := 0
  submissions : List Submission := []
  /-- Accepted guidance, with the run that it was accepted for. -/
  accepted : List (GuidanceId × Nat) := []
  withdrawn : List GuidanceId := []
  dropped : List GuidanceId := []
  /-- The runs whose `finish_if_idle` returned true while the mailbox was open. -/
  finished : List Nat := []
  deriving DecidableEq, Repr

inductive Action where
  | submit (text : String)
  | steer (text : String)
  | edit (id : GuidanceId) (text : String)
  | withdraw (id : GuidanceId)
  | shutdown
  | cancelActive
  /-- The host, a signal or the prompt's budget cancels. -/
  | cancel
  | resetCancellation
  | nextTask
  | beginRun (owner : Owner)
  | withdrawals
  | claim
  | inspect
  | deliver
  | mark
  | complete
  | endBatch
  | observe
  | finish
  | giveUp
  | finishClaims
  | endRun
  deriving DecidableEq, Repr

namespace System

def record (system : System) (mailbox : ControlMailbox) (submission : Submission) : System :=
  { system with
    mailbox
    submissions := system.submissions ++ [submission]
    accepted :=
      match submission.kind with
      | .task => system.accepted
      | .guidance => system.accepted ++ [(submission.id, system.run)] }

def submit (system : System) (text : String) : System :=
  match system.mailbox.submit text with
  | .error _ => system
  | .ok (mailbox, submission) => system.record mailbox submission

def steer (system : System) (text : String) : System :=
  match system.mailbox.steer text with
  | .error _ => system
  | .ok (mailbox, id) => system.record mailbox ⟨id, .guidance⟩

def edit (system : System) (id : GuidanceId) (text : String) : System :=
  match system.mailbox.edit id text with
  | .error _ => system
  | .ok mailbox => { system with mailbox }

def withdraw (system : System) (id : GuidanceId) : System :=
  match system.mailbox.withdraw id with
  | .error _ => system
  | .ok mailbox => { system with mailbox, withdrawn := system.withdrawn ++ [id] }

def cancelActive (system : System) : System :=
  { system with cancelled := system.cancelled || system.mailbox.cancelActive }

def beginRun (system : System) (owner : Owner) : System :=
  match system.mailbox.beginRun with
  | .error _ => system
  | .ok mailbox => { system with mailbox, owner, phase := .running }

def withdrawals (system : System) : Option System :=
  let drained := { system with mailbox := system.mailbox.withdrawals.1 }
  match system.phase, system.owner with
  | .running, _ => some { drained with phase := .withdrawing }
  | .closing, .driver => some { drained with phase := .settling }
  | .closing, .adapter => some { drained with phase := .ending }
  | _, _ => none

def claim (system : System) : Option System :=
  match system.phase with
  | .withdrawing =>
      some { system with
        mailbox := system.mailbox.claim.1
        phase := .delivering system.mailbox.claim.2 }
  | _ => none

def inspect (system : System) : Option System :=
  match system.phase with
  | .delivering (message :: rest) =>
      some { system with
        phase :=
          if system.mailbox.isShutdown || system.cancelled then .disposing message false rest
          else .inspected message rest }
  | _ => none

def deliver (system : System) : Option System :=
  match system.phase with
  | .inspected message rest =>
      if system.mailbox.deliverIfOpen && !system.cancelled then
        some { system with
          session := system.session ++ [message]
          phase :=
            match system.owner with
            | .driver => .pushed message rest
            | .adapter => .disposing message true rest }
      else some { system with phase := .disposing message false rest }
  | _ => none

def mark (system : System) : Option System :=
  match system.phase with
  | .pushed message rest =>
      match system.mailbox.markDelivered message.id with
      | .error _ => some { system with phase := .closing }
      | .ok mailbox => some { system with mailbox, phase := .disposing message true rest }
  | _ => none

/-- The driver settles the claim with the mailbox. The adapter does not, and the notices that it
sends, also the one that a message is dropped, are no places of messages. -/
def complete (system : System) : Option System :=
  match system.phase, system.owner with
  | .disposing message delivered rest, .driver =>
      match system.mailbox.completeClaim message.id with
      | .error _ => some { system with phase := .closing }
      | .ok mailbox =>
          some { system with
            mailbox
            phase := .delivering rest
            dropped := if delivered then system.dropped else system.dropped ++ [message.id] }
  | .disposing _ _ rest, .adapter => some { system with phase := .delivering rest }
  | _, _ => none

def endBatch (system : System) : Option System :=
  match system.phase with
  | .delivering [] => some { system with phase := .running }
  | _ => none

def observe (system : System) : Option System :=
  match system.phase with
  | .running => if system.cancelled then none else some { system with phase := .observed }
  | _ => none

def finish (system : System) : Option System :=
  match system.phase with
  | .observed =>
      match system.mailbox.finishIfIdle with
      | (_, false) => some { system with phase := .running }
      | (mailbox, true) =>
          some { system with
            mailbox
            phase := .closing
            finished :=
              if system.mailbox.closed then system.finished
              else system.finished ++ [system.run] }
  | _ => none

def giveUp (system : System) : Option System :=
  match system.phase with
  | .running | .withdrawing | .delivering _ | .inspected _ _ | .disposing _ _ _ | .observed =>
      some { system with phase := .closing }
  | _ => none

def finishClaims (system : System) : Option System :=
  match system.phase with
  | .settling =>
      some { system with
        mailbox := system.mailbox.finishClaims.1
        phase := .ending
        dropped := system.dropped ++
          ((system.mailbox.finishClaims.2.filter (·.state = .dropped)).map (·.id)) }
  | _ => none

def endRun (system : System) : Option System :=
  match system.phase with
  | .ending =>
      some { system with
        mailbox := system.mailbox.endRun.1
        phase := .idle
        run := system.run + 1
        dropped := system.dropped ++ system.mailbox.endRun.2 }
  | _ => none

def step (system : System) : Action → Option System
  | .submit text => some (system.submit text)
  | .steer text => some (system.steer text)
  | .edit id text => some (system.edit id text)
  | .withdraw id => some (system.withdraw id)
  | .shutdown => some { system with mailbox := system.mailbox.shutdown }
  | .cancelActive => some system.cancelActive
  | .cancel => some { system with cancelled := true }
  | .resetCancellation =>
      if system.phase = .idle then some { system with cancelled := false } else none
  | .nextTask =>
      if system.phase = .idle then some { system with mailbox := system.mailbox.nextTask.1 }
      else none
  | .beginRun owner => some (system.beginRun owner)
  | .withdrawals => system.withdrawals
  | .claim => system.claim
  | .inspect => system.inspect
  | .deliver => system.deliver
  | .mark => system.mark
  | .complete => system.complete
  | .endBatch => system.endBatch
  | .observe => system.observe
  | .finish => system.finish
  | .giveUp => system.giveUp
  | .finishClaims => system.finishClaims
  | .endRun => system.endRun

end System

/-! ## Where a message is -/

inductive Place where
  | queued
  | claimed
  | delivered
  | withdrawn
  | dropped
  deriving DecidableEq, Repr

namespace System

def sessionIds (system : System) : List GuidanceId := system.session.map (·.id)

def acceptedIds (system : System) : List GuidanceId := system.accepted.map (·.1)

/-- A claim is open until its message is in the conversation. A message dropped by `shutdown` is
kept in the mailbox until `end_run` returns it. -/
def idsAt (system : System) : Place → List GuidanceId
  | .queued => system.mailbox.guidance.map (·.id)
  | .claimed => (system.mailbox.claimed.map (·.1)).filter (· ∉ system.sessionIds)
  | .delivered => system.sessionIds
  | .withdrawn => system.withdrawn
  | .dropped => system.mailbox.dropped ++ system.dropped

end System

end Kvist.Runtime
