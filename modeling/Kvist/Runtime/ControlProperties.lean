import Kvist.Runtime.Control

/-! What each operation of the control mailbox does, and the counters it keeps. -/

set_option autoImplicit false

namespace Kvist.Runtime.ControlMailbox

/-- The counters agree with the queues and stay within their limits. -/
structure Counted (mailbox : ControlMailbox) : Prop where
  bytes : mailbox.bytes = textBytes mailbox.tasks + textBytes mailbox.guidance
  bounded : mailbox.bytes ≤ MAX_QUEUED_BYTES
  capacity : mailbox.guidance.length + mailbox.tasks.length + mailbox.claimed.length ≤ CAPACITY

/-! ## Inversion of the operations that can be refused -/

theorem enqueue_ok {mailbox after : ControlMailbox} {text : String} {guidanceOnly : Bool}
    {submission : Submission} (accepted : mailbox.enqueue text guidanceOnly = .ok (after, submission)) :
    mailbox.closed = false ∧
      mailbox.guidance.length + mailbox.tasks.length + mailbox.claimed.length < CAPACITY ∧
      mailbox.bytes + text.utf8ByteSize ≤ MAX_QUEUED_BYTES ∧
      mailbox.sequence < lastIdentity ∧
      ((mailbox.active = true ∧ submission = ⟨mailbox.sequence + 1, .guidance⟩ ∧
          after = { mailbox with
            sequence := mailbox.sequence + 1
            bytes := mailbox.bytes + text.utf8ByteSize
            guidance := mailbox.guidance ++ [⟨mailbox.sequence + 1, text⟩] }) ∨
        (mailbox.active = false ∧ guidanceOnly = false ∧
          submission = ⟨mailbox.sequence + 1, .task⟩ ∧
          after = { mailbox with
            sequence := mailbox.sequence + 1
            bytes := mailbox.bytes + text.utf8ByteSize
            tasks := mailbox.tasks ++ [⟨mailbox.sequence + 1, text⟩] })) := by
  simp only [enqueue, bind_unit_ok_iff, ensure_ok_iff, Bool.not_eq_true'] at accepted
  obtain ⟨-, unclosed, permitted, accepted⟩ := accepted
  cases activity : mailbox.active with
  | true =>
      simp only [activity, if_true, bind_unit_ok_iff, ensure_ok_iff, Bool.not_eq_true',
        Bool.or_eq_false_iff, decide_eq_false_iff_not, decide_eq_true_eq, not_le, not_lt,
        pure_eq_ok, Except.ok.injEq, Prod.mk.injEq] at accepted
      obtain ⟨-, ⟨room, fits⟩, identity, rfl, rfl⟩ := accepted
      exact ⟨unclosed, room, fits, identity, .inl ⟨rfl, rfl, by simp⟩⟩
  | false =>
      simp only [activity, Bool.false_eq_true, if_false, pure_eq_ok, bind_unit_ok_iff,
        ensure_ok_iff, Bool.not_eq_true', Bool.or_eq_false_iff, decide_eq_false_iff_not,
        decide_eq_true_eq, not_le, not_lt, Except.ok.injEq, Prod.mk.injEq] at accepted
      obtain ⟨⟨room, fits⟩, identity, rfl, rfl⟩ := accepted
      refine ⟨unclosed, room, fits, identity, .inr ⟨rfl, ?_, rfl, by simp⟩⟩
      simpa [activity] using permitted

theorem steer_ok {mailbox after : ControlMailbox} {text : String} {id : GuidanceId}
    (accepted : mailbox.steer text = .ok (after, id)) :
    mailbox.enqueue text true = .ok (after, ⟨id, .guidance⟩) := by
  simp only [steer, bind_ok_iff, pure_eq_ok, Except.ok.injEq, Prod.mk.injEq, Prod.exists] at accepted
  obtain ⟨_, submission, enqueued, rfl, rfl⟩ := accepted
  obtain ⟨-, -, -, -, ⟨-, same, -⟩ | ⟨-, impossible, -⟩⟩ := enqueue_ok enqueued
  · rw [enqueued, same]
  · cases impossible

theorem edit_ok {mailbox after : ControlMailbox} {id : GuidanceId} {text : String}
    (edited : mailbox.edit id text = .ok after) :
    ∃ before message behind, mailbox.guidance = before ++ message :: behind ∧ message.id = id ∧
      mailbox.bytes - message.text.utf8ByteSize + text.utf8ByteSize ≤ MAX_QUEUED_BYTES ∧
      after = { mailbox with
        guidance := before ++ { message with text } :: behind
        bytes := mailbox.bytes - message.text.utf8ByteSize + text.utf8ByteSize } := by
  simp only [edit, bind_unit_ok_iff] at edited
  obtain ⟨-, -, edited⟩ := edited
  cases located : locate (·.id == id) mailbox.guidance with
  | none => simp [located] at edited
  | some parts =>
      obtain ⟨before, message, behind⟩ := parts
      obtain ⟨split, found⟩ := locate_some located
      simp only [located, bind_unit_ok_iff, ensure_ok_iff, decide_eq_true_eq, pure_eq_ok,
        Except.ok.injEq] at edited
      exact ⟨before, message, behind, split, by simpa using found, edited.1, edited.2.symm⟩

theorem withdraw_ok {mailbox after : ControlMailbox} {id : GuidanceId}
    (removed : mailbox.withdraw id = .ok after) :
    ∃ before message behind, mailbox.guidance = before ++ message :: behind ∧ message.id = id ∧
      after = { mailbox with
        guidance := before ++ behind
        bytes := mailbox.bytes - message.text.utf8ByteSize
        withdrawn := mailbox.withdrawn ++ [id] } := by
  simp only [withdraw, bind_unit_ok_iff] at removed
  obtain ⟨-, removed⟩ := removed
  cases located : locate (·.id == id) mailbox.guidance with
  | none => simp [located] at removed
  | some parts =>
      obtain ⟨before, message, behind⟩ := parts
      obtain ⟨split, found⟩ := locate_some located
      simp only [located, bind_unit_ok_iff, pure_eq_ok, Except.ok.injEq] at removed
      exact ⟨before, message, behind, split, by simpa using found, removed.2.symm⟩

theorem beginRun_ok {mailbox after : ControlMailbox} (begun : mailbox.beginRun = .ok after) :
    mailbox.closed = false ∧ mailbox.owned = false ∧
      after = { mailbox with active := true, owned := true } := by
  simp only [beginRun, bind_unit_ok_iff, ensure_ok_iff, Bool.not_eq_true', pure_eq_ok,
    Except.ok.injEq] at begun
  exact ⟨begun.1, begun.2.1, begun.2.2.symm⟩

theorem markDelivered_ok {mailbox after : ControlMailbox} {id : GuidanceId}
    (marked : mailbox.markDelivered id = .ok after) :
    ∃ before flag behind, mailbox.claimed = before ++ (id, flag) :: behind ∧
      after = { mailbox with claimed := before ++ (id, true) :: behind } := by
  unfold markDelivered at marked
  cases located : locate (·.1 == id) mailbox.claimed with
  | none => simp [located] at marked
  | some parts =>
      obtain ⟨before, ⟨entry, flag⟩, behind⟩ := parts
      obtain ⟨split, found⟩ := locate_some located
      obtain rfl : entry = id := by simpa using found
      simp only [located, Except.ok.injEq] at marked
      exact ⟨before, flag, behind, split, marked.symm⟩

theorem completeClaim_ok {mailbox after : ControlMailbox} {id : GuidanceId}
    (completed : mailbox.completeClaim id = .ok after) :
    ∃ before flag behind, mailbox.claimed = before ++ (id, flag) :: behind ∧
      after = { mailbox with claimed := before ++ behind } := by
  unfold completeClaim at completed
  cases located : locate (·.1 == id) mailbox.claimed with
  | none => simp [located] at completed
  | some parts =>
      obtain ⟨before, ⟨entry, flag⟩, behind⟩ := parts
      obtain ⟨split, found⟩ := locate_some located
      obtain rfl : entry = id := by simpa using found
      simp only [located, Except.ok.injEq] at completed
      exact ⟨before, flag, behind, split, completed.symm⟩

theorem finishIfIdle_cases (mailbox : ControlMailbox) :
    mailbox.finishIfIdle = (mailbox, false) ∨
      (mailbox.finishIfIdle = ({ mailbox with active := false }, true) ∧
        (mailbox.closed = true ∨ mailbox.guidance = [])) := by
  unfold finishIfIdle
  split
  · exact .inl rfl
  · next idle =>
      refine .inr ⟨rfl, ?_⟩
      cases closed : mailbox.closed with
      | true => exact .inl rfl
      | false => exact .inr (by simpa [closed] using idle)

/-! ## The counters -/

theorem Counted.enqueue {mailbox after : ControlMailbox} {text : String} {guidanceOnly : Bool}
    {submission : Submission} (counted : mailbox.Counted)
    (accepted : mailbox.enqueue text guidanceOnly = .ok (after, submission)) : after.Counted := by
  have bytes := counted.bytes
  obtain ⟨-, room, fits, -, ⟨-, -, rfl⟩ | ⟨-, -, -, rfl⟩⟩ := enqueue_ok accepted
  · constructor
    · simp only [textBytes_append, textBytes_cons, textBytes_nil]
      omega
    · exact fits
    · simp only [List.length_append, List.length_singleton]
      omega
  · constructor
    · simp only [textBytes_append, textBytes_cons, textBytes_nil]
      omega
    · exact fits
    · simp only [List.length_append, List.length_singleton]
      omega

theorem Counted.edit {mailbox after : ControlMailbox} {id : GuidanceId} {text : String}
    (counted : mailbox.Counted) (edited : mailbox.edit id text = .ok after) : after.Counted := by
  have bytes := counted.bytes
  have capacity := counted.capacity
  obtain ⟨before, message, behind, split, -, fits, rfl⟩ := edit_ok edited
  simp only [split, textBytes_append, textBytes_cons] at bytes
  constructor
  · simp only [textBytes_append, textBytes_cons]
    omega
  · exact fits
  · simpa [split] using capacity

theorem Counted.withdraw {mailbox after : ControlMailbox} {id : GuidanceId}
    (counted : mailbox.Counted) (removed : mailbox.withdraw id = .ok after) : after.Counted := by
  have bytes := counted.bytes
  have bounded := counted.bounded
  have capacity := counted.capacity
  obtain ⟨before, message, behind, split, -, rfl⟩ := withdraw_ok removed
  simp only [split, textBytes_append, textBytes_cons] at bytes
  simp only [split, List.length_append, List.length_cons] at capacity
  constructor
  · simp only [textBytes_append]
    omega
  · exact Nat.le_trans (Nat.sub_le _ _) bounded
  · simp only [List.length_append]
    omega

theorem Counted.beginRun {mailbox after : ControlMailbox} (counted : mailbox.Counted)
    (begun : mailbox.beginRun = .ok after) : after.Counted := by
  obtain ⟨-, -, rfl⟩ := beginRun_ok begun
  exact ⟨counted.bytes, counted.bounded, counted.capacity⟩

theorem Counted.nextTask {mailbox : ControlMailbox} (counted : mailbox.Counted) :
    mailbox.nextTask.1.Counted := by
  have bytes := counted.bytes
  have bounded := counted.bounded
  have capacity := counted.capacity
  unfold ControlMailbox.nextTask
  split
  · exact counted
  · split
    · exact counted
    · next message rest queued =>
        simp only [queued, textBytes_cons, List.length_cons] at bytes capacity
        constructor
        · simp only
          omega
        · exact Nat.le_trans (Nat.sub_le _ _) bounded
        · simp only
          omega

theorem Counted.shutdown {mailbox : ControlMailbox} (counted : mailbox.Counted) :
    mailbox.shutdown.Counted := by
  have capacity := counted.capacity
  refine ⟨rfl, Nat.zero_le _, ?_⟩
  simp only [ControlMailbox.shutdown, List.length_nil]
  omega

theorem Counted.claim {mailbox : ControlMailbox} (counted : mailbox.Counted) :
    mailbox.claim.1.Counted := by
  have bytes := counted.bytes
  have bounded := counted.bounded
  have capacity := counted.capacity
  unfold ControlMailbox.claim
  split
  · exact counted
  · constructor
    · simp only [textBytes_nil]
      omega
    · exact Nat.le_trans (Nat.sub_le _ _) bounded
    · simp only [List.length_nil, List.length_append, List.length_map]
      omega

theorem Counted.markDelivered {mailbox after : ControlMailbox} {id : GuidanceId}
    (counted : mailbox.Counted) (marked : mailbox.markDelivered id = .ok after) :
    after.Counted := by
  have capacity := counted.capacity
  obtain ⟨before, flag, behind, split, rfl⟩ := markDelivered_ok marked
  refine ⟨counted.bytes, counted.bounded, ?_⟩
  simpa [split] using capacity

theorem Counted.completeClaim {mailbox after : ControlMailbox} {id : GuidanceId}
    (counted : mailbox.Counted) (completed : mailbox.completeClaim id = .ok after) :
    after.Counted := by
  have capacity := counted.capacity
  obtain ⟨before, flag, behind, split, rfl⟩ := completeClaim_ok completed
  refine ⟨counted.bytes, counted.bounded, ?_⟩
  simp only [split, List.length_append, List.length_cons] at capacity ⊢
  omega

theorem Counted.finishClaims {mailbox : ControlMailbox} (counted : mailbox.Counted) :
    mailbox.finishClaims.1.Counted := by
  have capacity := counted.capacity
  refine ⟨counted.bytes, counted.bounded, ?_⟩
  simp only [ControlMailbox.finishClaims, List.length_nil]
  omega

theorem Counted.withdrawals {mailbox : ControlMailbox} (counted : mailbox.Counted) :
    mailbox.withdrawals.1.Counted :=
  ⟨counted.bytes, counted.bounded, counted.capacity⟩

theorem Counted.endRun {mailbox : ControlMailbox} (counted : mailbox.Counted) :
    mailbox.endRun.1.Counted := by
  have bytes := counted.bytes
  have bounded := counted.bounded
  have capacity := counted.capacity
  constructor
  · simp only [ControlMailbox.endRun, textBytes_nil]
    omega
  · exact Nat.le_trans (Nat.sub_le _ _) bounded
  · simp only [ControlMailbox.endRun, List.length_nil]
    omega

end Kvist.Runtime.ControlMailbox
