import Kvist.Runtime.GuidanceAccounting

/-! What each operation of the owner does to the system. -/

set_option autoImplicit false

namespace Kvist.Runtime

/-- The claimed messages that the owner has still to deliver or to give up. -/
def Phase.pending : Phase → List Guidance
  | .delivering batch => batch
  | .inspected message rest => message :: rest
  | .pushed _ rest => rest
  | .disposing _ true rest => rest
  | .disposing message false rest => message :: rest
  | _ => []

def Phase.cleaning : Phase → Bool
  | .closing | .settling | .ending => true
  | _ => false

namespace System

variable {system next : System}

theorem withdrawals_some (stepped : system.withdrawals = some next) :
    ∃ phase, next = { system with mailbox := system.mailbox.withdrawals.1, phase } ∧
      ((system.phase = .running ∧ phase = .withdrawing) ∨
        (system.phase = .closing ∧ system.owner = .driver ∧ phase = .settling) ∨
        (system.phase = .closing ∧ system.owner = .adapter ∧ phase = .ending)) := by
  unfold withdrawals at stepped
  simp only at stepped
  split at stepped
  · next standing =>
      exact ⟨.withdrawing, (Option.some.inj stepped).symm, .inl ⟨standing, rfl⟩⟩
  · next standing owner =>
      exact ⟨.settling, (Option.some.inj stepped).symm, .inr (.inl ⟨standing, owner, rfl⟩)⟩
  · next standing owner =>
      exact ⟨.ending, (Option.some.inj stepped).symm, .inr (.inr ⟨standing, owner, rfl⟩)⟩
  · cases stepped

theorem claim_some (stepped : system.claim = some next) :
    system.phase = .withdrawing ∧
      next = { system with
        mailbox := system.mailbox.claim.1
        phase := .delivering system.mailbox.claim.2 } := by
  unfold claim at stepped
  split at stepped
  · next standing => exact ⟨standing, (Option.some.inj stepped).symm⟩
  · cases stepped

theorem inspect_some (stepped : system.inspect = some next) :
    ∃ message rest, system.phase = .delivering (message :: rest) ∧
      (((system.mailbox.closed = true ∨ system.cancelled = true) ∧
          next = { system with phase := .disposing message false rest }) ∨
        next = { system with phase := .inspected message rest }) := by
  unfold inspect at stepped
  split at stepped
  · next message rest standing =>
      refine ⟨message, rest, standing, ?_⟩
      obtain rfl := Option.some.inj stepped
      split
      · next stopped =>
          exact .inl ⟨by simpa [ControlMailbox.isShutdown] using stopped, rfl⟩
      · exact .inr rfl
  · cases stepped

theorem deliver_some (stepped : system.deliver = some next) :
    ∃ message rest, system.phase = .inspected message rest ∧
      ((system.owner = .driver ∧
          next = { system with
            session := system.session ++ [message], phase := .pushed message rest }) ∨
        (system.owner = .adapter ∧
          next = { system with
            session := system.session ++ [message], phase := .disposing message true rest }) ∨
        ((system.mailbox.closed = true ∨ system.cancelled = true) ∧
          next = { system with phase := .disposing message false rest })) := by
  unfold deliver at stepped
  split at stepped
  · next message rest standing =>
      refine ⟨message, rest, standing, ?_⟩
      split at stepped
      · obtain rfl := Option.some.inj stepped
        cases owner : system.owner with
        | driver => exact .inl ⟨rfl, by simp⟩
        | adapter => exact .inr (.inl ⟨rfl, by simp⟩)
      · next refused =>
          refine .inr (.inr ⟨?_, (Option.some.inj stepped).symm⟩)
          simp only [ControlMailbox.deliverIfOpen, Bool.and_eq_true, Bool.not_eq_true', not_and,
            Bool.not_eq_false] at refused
          cases closed : system.mailbox.closed with
          | false => exact .inr (refused closed)
          | true => exact .inl rfl
  · cases stepped

theorem mark_some (stepped : system.mark = some next) :
    ∃ message rest, system.phase = .pushed message rest ∧
      ((∃ reason, system.mailbox.markDelivered message.id = .error reason ∧
          next = { system with phase := .closing }) ∨
        ∃ mailbox, system.mailbox.markDelivered message.id = .ok mailbox ∧
          next = { system with mailbox, phase := .disposing message true rest }) := by
  unfold mark at stepped
  split at stepped
  · next message rest standing =>
      refine ⟨message, rest, standing, ?_⟩
      split at stepped
      · next reason refused =>
          exact .inl ⟨reason, refused, (Option.some.inj stepped).symm⟩
      · next mailbox marked =>
          exact .inr ⟨mailbox, marked, (Option.some.inj stepped).symm⟩
  · cases stepped

theorem complete_some (stepped : system.complete = some next) :
    ∃ message delivered rest, system.phase = .disposing message delivered rest ∧
      ((system.owner = .driver ∧
          ∃ reason, system.mailbox.completeClaim message.id = .error reason ∧
            next = { system with phase := .closing }) ∨
        (system.owner = .driver ∧
          ∃ mailbox, system.mailbox.completeClaim message.id = .ok mailbox ∧
            next = { system with
              mailbox
              phase := .delivering rest
              dropped :=
                if delivered then system.dropped else system.dropped ++ [message.id] }) ∨
        (system.owner = .adapter ∧ next = { system with phase := .delivering rest })) := by
  unfold complete at stepped
  split at stepped
  · next message delivered rest standing owner =>
      refine ⟨message, delivered, rest, standing, ?_⟩
      split at stepped
      · next reason refused =>
          exact .inl ⟨owner, reason, refused, (Option.some.inj stepped).symm⟩
      · next mailbox completed =>
          exact .inr (.inl ⟨owner, mailbox, completed, (Option.some.inj stepped).symm⟩)
  · next message delivered rest standing owner =>
      exact ⟨message, delivered, rest, standing,
        .inr (.inr ⟨owner, (Option.some.inj stepped).symm⟩)⟩
  · cases stepped

theorem endBatch_some (stepped : system.endBatch = some next) :
    system.phase = .delivering [] ∧ next = { system with phase := .running } := by
  unfold endBatch at stepped
  split at stepped
  · next standing => exact ⟨standing, (Option.some.inj stepped).symm⟩
  · cases stepped

theorem observe_some (stepped : system.observe = some next) :
    system.phase = .running ∧ system.cancelled = false ∧
      next = { system with phase := .observed } := by
  unfold observe at stepped
  split at stepped
  · next standing =>
      split at stepped
      · cases stepped
      · next calm => exact ⟨standing, by simpa using calm, (Option.some.inj stepped).symm⟩
  · cases stepped

theorem finish_some (stepped : system.finish = some next) :
    system.phase = .observed ∧
      (next = { system with phase := .running } ∨
        (system.mailbox.closed = true ∧
          next = { system with
            mailbox := { system.mailbox with active := false }, phase := .closing }) ∨
        (system.mailbox.closed = false ∧ system.mailbox.guidance = [] ∧
          next = { system with
            mailbox := { system.mailbox with active := false }
            phase := .closing
            finished := system.finished ++ [system.run] })) := by
  unfold finish at stepped
  split at stepped
  · next standing =>
      refine ⟨standing, ?_⟩
      rcases ControlMailbox.finishIfIdle_cases system.mailbox with kept | ⟨idle, permitted⟩
      · rw [kept] at stepped
        exact .inl (Option.some.inj stepped).symm
      · rw [idle] at stepped
        obtain rfl := Option.some.inj stepped
        by_cases shut : system.mailbox.closed = true
        · exact .inr (.inl ⟨shut, by simp only [if_pos shut]⟩)
        · refine .inr (.inr ⟨by simpa using shut, permitted.resolve_left shut, ?_⟩)
          simp only [if_neg shut]
  · cases stepped

theorem giveUp_some (stepped : system.giveUp = some next) :
    system.phase ≠ .idle ∧ system.phase.cleaning = false ∧
      (∀ message rest, system.phase ≠ .pushed message rest) ∧
      next = { system with phase := .closing } := by
  unfold giveUp at stepped
  split at stepped
  case h_7 => cases stepped
  all_goals
    next standing =>
      rw [standing]
      exact ⟨Phase.noConfusion, rfl, fun _ _ => Phase.noConfusion, (Option.some.inj stepped).symm⟩

theorem finishClaims_some (stepped : system.finishClaims = some next) :
    system.phase = .settling ∧
      next = { system with
        mailbox := system.mailbox.finishClaims.1
        phase := .ending
        dropped := system.dropped ++ (system.mailbox.claimed.filter (!·.2)).map (·.1) } := by
  unfold finishClaims at stepped
  split at stepped
  · next standing =>
      rw [← Option.some.inj stepped, ← noticed_dropped]
      exact ⟨standing, rfl⟩
  · cases stepped

theorem endRun_some (stepped : system.endRun = some next) :
    system.phase = .ending ∧
      next = { system with
        mailbox := system.mailbox.endRun.1
        phase := .idle
        run := system.run + 1
        dropped := system.dropped ++ system.mailbox.endRun.2 } := by
  unfold endRun at stepped
  split at stepped
  · next standing => exact ⟨standing, (Option.some.inj stepped).symm⟩
  · cases stepped

end System

end Kvist.Runtime
