import Kvist.Runtime.GuidanceKept

/-!
# Guidance is neither lost nor duplicated

The invariant of the mailbox with its clients and owners, its preservation by every step, and
what follows for every run.
-/

set_option autoImplicit false

namespace Kvist.Runtime.System

structure Sound (system : System) : Prop where
  counted : system.mailbox.Counted
  accounted : system.Accounted
  shaped : system.Shaped
  kept : system.Kept

/-- No message that the owner has put into the conversation is still claimed and unmarked when it
ends its run. Only the adapter has to meet it: the driver marks and completes its claims. -/
def EndsSettled (system : System) : Action → Prop
  | .endRun => system.owner = .adapter → ∀ entry ∈ system.mailbox.claimed, entry.2 = false →
      entry.1 ∉ system.sessionIds
  | _ => True

variable {system next : System}

theorem sound_initial : ({} : System).Sound where
  counted := ⟨rfl, Nat.zero_le _, Nat.zero_le _⟩
  accounted := by
    refine ⟨List.Pairwise.nil, ?_, List.Sublist.slnil, fun _ => rfl, List.nodup_nil, ?_⟩
    · intro submission member
      cases member
    · intro id member
      cases member
  shaped := by
    refine ⟨by simp, fun _ => rfl, ?_, List.nodup_nil, ?_, ?_, ?_, ?_, ?_⟩
    · intro message member
      cases member
    · intro message rest impossible
      cases impossible
    · intro message rest impossible
      cases impossible
    · intro _ id member
      cases member
    · intro impossible
      cases impossible
    · intro impossible
      cases impossible
  kept := by
    refine ⟨?_, ?_, ?_, ?_, ?_⟩
    · intro entry member
      cases member
    · intro entry member
      cases member
    · intro message rest impossible
      cases impossible
    · intro _ _ _
      refine ⟨fun id member => ?_, fun entry member => ?_⟩
      · simp [idsAt] at member
      · cases member
    · intro run member
      cases member

/-! ## Clients -/

theorem Sound.enqueue (sound : system.Sound) {text : String} {guidanceOnly : Bool}
    {mailbox : ControlMailbox} {submission : Submission}
    (enqueued : system.mailbox.enqueue text guidanceOnly = .ok (mailbox, submission)) :
    (system.record mailbox submission).Sound := by
  have counted := sound.counted.enqueue enqueued
  obtain ⟨-, -, -, -, ⟨active, rfl, rfl⟩ | ⟨-, -, rfl, rfl⟩⟩ :=
    ControlMailbox.enqueue_ok enqueued
  · have shaped := sound.shaped.keep
      { system.mailbox with
        sequence := system.mailbox.sequence + 1
        bytes := system.mailbox.bytes + text.utf8ByteSize
        guidance := system.mailbox.guidance ++ [⟨system.mailbox.sequence + 1, text⟩] } rfl rfl
    exact ⟨counted, sound.accounted.record_guidance,
      ⟨shaped.owned, shaped.idle, shaped.pending, shaped.distinct, shaped.pushed,
        shaped.disposing, shaped.settled, shaped.settling, shaped.ending⟩,
      sound.kept.record_guidance sound.accounted active⟩
  · have shaped := sound.shaped.keep
      { system.mailbox with
        sequence := system.mailbox.sequence + 1
        bytes := system.mailbox.bytes + text.utf8ByteSize
        tasks := system.mailbox.tasks ++ [⟨system.mailbox.sequence + 1, text⟩] } rfl rfl
    exact ⟨counted, sound.accounted.record_task,
      ⟨shaped.owned, shaped.idle, shaped.pending, shaped.distinct, shaped.pushed,
        shaped.disposing, shaped.settled, shaped.settling, shaped.ending⟩,
      sound.kept.record_task⟩

theorem Sound.submit (sound : system.Sound) (text : String) : (system.submit text).Sound := by
  unfold System.submit
  split
  · exact sound
  · next mailbox submission enqueued => exact sound.enqueue enqueued

theorem Sound.steer (sound : system.Sound) (text : String) : (system.steer text).Sound := by
  unfold System.steer
  split
  · exact sound
  · next mailbox id steered => exact sound.enqueue (ControlMailbox.steer_ok steered)

theorem Sound.edit (sound : system.Sound) (id : GuidanceId) (text : String) :
    (system.edit id text).Sound := by
  unfold System.edit
  split
  · exact sound
  · next mailbox edited =>
      have counted := sound.counted.edit edited
      obtain ⟨before, message, behind, split, -, -, rfl⟩ := ControlMailbox.edit_ok edited
      exact ⟨counted, sound.accounted.keep _ rfl (by simp [split]) rfl rfl,
        sound.shaped.keep _ rfl rfl, sound.kept.keep _ rfl (by simp [split]) rfl rfl fun _ => rfl⟩

theorem Sound.withdraw (sound : system.Sound) (id : GuidanceId) :
    (system.withdraw id).Sound := by
  unfold System.withdraw
  split
  · exact sound
  · next mailbox removed =>
      have counted := sound.counted.withdraw removed
      obtain ⟨before, message, behind, split, rfl, rfl⟩ := ControlMailbox.withdraw_ok removed
      have shaped := sound.shaped
      exact ⟨counted, sound.accounted.withdraw split,
        ⟨shaped.owned, shaped.idle, shaped.pending, shaped.distinct, shaped.pushed,
          shaped.disposing, shaped.settled, shaped.settling, shaped.ending⟩,
        sound.kept.withdraw split⟩

theorem Sound.shutdown (sound : system.Sound) :
    ({ system with mailbox := system.mailbox.shutdown } : System).Sound :=
  ⟨sound.counted.shutdown, sound.accounted.shutdown, sound.shaped.keep _ rfl rfl,
    sound.kept.shutdown⟩

theorem Sound.cancel (sound : system.Sound) {cancelled : Bool}
    (sticky : system.cancelled = true → cancelled = true) :
    ({ system with cancelled } : System).Sound := by
  have accounted := sound.accounted
  have shaped := sound.shaped
  exact ⟨sound.counted, ⟨accounted.increasing, accounted.issued, accounted.submitted,
      accounted.once, accounted.unique, accounted.marked⟩,
    ⟨shaped.owned, shaped.idle, shaped.pending, shaped.distinct, shaped.pushed,
      shaped.disposing, shaped.settled, shaped.settling, shaped.ending⟩,
    sound.kept.cancel sticky⟩

/-! ## The owner between runs -/

theorem Sound.reset (sound : system.Sound) (standing : system.phase = .idle) :
    ({ system with cancelled := false } : System).Sound := by
  have accounted := sound.accounted
  have shaped := sound.shaped
  exact ⟨sound.counted, ⟨accounted.increasing, accounted.issued, accounted.submitted,
      accounted.once, accounted.unique, accounted.marked⟩,
    ⟨shaped.owned, shaped.idle, shaped.pending, shaped.distinct, shaped.pushed,
      shaped.disposing, shaped.settled, shaped.settling, shaped.ending⟩,
    sound.kept.reset standing⟩

theorem Sound.nextTask (sound : system.Sound) (standing : system.phase = .idle) :
    ({ system with mailbox := system.mailbox.nextTask.1 } : System).Sound := by
  have counted := sound.counted.nextTask
  have working : system.phase.cleaning ≠ true := by
    rw [standing]
    exact Bool.false_ne_true
  revert counted
  unfold ControlMailbox.nextTask
  split
  · exact fun _ => sound
  · split
    · exact fun _ => sound
    · exact fun counted => ⟨counted, sound.accounted.keep _ rfl rfl rfl rfl,
        sound.shaped.keep _ rfl rfl,
        sound.kept.keep _ rfl rfl rfl rfl fun cleaning => absurd cleaning working⟩

theorem Sound.beginRun (sound : system.Sound) (owner : Owner) :
    (system.beginRun owner).Sound := by
  unfold System.beginRun
  split
  · exact sound
  · next mailbox begun =>
      have counted := sound.counted.beginRun begun
      obtain ⟨-, free, rfl⟩ := ControlMailbox.beginRun_ok begun
      have standing : system.phase = .idle := by
        by_contra busy
        exact absurd (free.symm.trans (sound.shaped.owned.mpr busy)) Bool.false_ne_true
      have accounted := sound.accounted
      exact ⟨counted, ⟨accounted.increasing, accounted.issued, accounted.submitted,
          accounted.once, accounted.unique, accounted.marked⟩,
        sound.shaped.beginRun owner free, sound.kept.beginRun owner standing⟩

/-! ## The owner in a run -/

/-- A step that moves only the owner's position. -/
theorem Sound.move (sound : system.Sound) (phase : Phase)
    (shaped : ({ system with phase } : System).Shaped)
    (kept : ({ system with phase } : System).Kept) : ({ system with phase } : System).Sound := by
  have accounted := sound.accounted
  exact ⟨sound.counted, ⟨accounted.increasing, accounted.issued, accounted.submitted,
    accounted.once, accounted.unique, accounted.marked⟩, shaped, kept⟩

theorem Sound.withdrawals (sound : system.Sound) (stepped : system.withdrawals = some next) :
    next.Sound := by
  obtain ⟨phase, rfl, position⟩ := withdrawals_some stepped
  have accounted := sound.accounted.keep system.mailbox.withdrawals.1 rfl rfl rfl rfl
  refine ⟨sound.counted.withdrawals, ⟨accounted.increasing, accounted.issued,
    accounted.submitted, accounted.once, accounted.unique, accounted.marked⟩, ?_, ?_⟩
  · apply sound.shaped.advance system.mailbox.withdrawals.1 phase rfl rfl
    · rcases position with ⟨standing, -⟩ | ⟨standing, -⟩ | ⟨standing, -⟩ <;> simp [standing]
    · rcases position with ⟨standing, -⟩ | ⟨standing, -⟩ | ⟨standing, -⟩ <;> simp [standing]
    · rcases position with ⟨-, rfl⟩ | ⟨-, owner, rfl⟩ | ⟨-, owner, rfl⟩
      · exact .inr (.inl rfl)
      · exact .inr (.inr (.inr (.inr (.inl ⟨rfl, owner⟩))))
      · exact .inr (.inr (.inr (.inr (.inr ⟨rfl, owner⟩))))
  · have drained := sound.kept.keep system.mailbox.withdrawals.1 rfl rfl rfl rfl fun _ => rfl
    rcases position with ⟨standing, rfl⟩ | ⟨-, -, rfl⟩ | ⟨-, -, rfl⟩
    · refine drained.advance .withdrawing ?_ ?_ (by simp) (by simp)
      · simp only [standing]
        rfl
      · intro _ _ calm
        exact ⟨calm.imp id (fun impossible => by cases impossible), by simp only [standing]; rfl⟩
    · exact sound.kept.clean _ _ rfl rfl rfl rfl rfl
    · exact sound.kept.clean _ _ rfl rfl rfl rfl rfl

theorem Sound.claim (sound : system.Sound) (stepped : system.claim = some next) :
    next.Sound := by
  obtain ⟨standing, rfl⟩ := claim_some stepped
  have accounted := sound.accounted.claim
  exact ⟨sound.counted.claim, ⟨accounted.increasing, accounted.issued, accounted.submitted,
      accounted.once, accounted.unique, accounted.marked⟩,
    sound.shaped.claim sound.accounted standing, sound.kept.claim standing⟩

theorem Sound.inspect (sound : system.Sound) (stepped : system.inspect = some next) :
    next.Sound := by
  obtain ⟨message, rest, standing, outcome⟩ := inspect_some stepped
  have working : system.phase.cleaning = false := by rw [standing]; rfl
  rcases outcome with ⟨stopped, rfl⟩ | rfl
  · apply sound.move
    · exact sound.shaped.decide _ (by rw [standing]; rfl) (by simp [standing])
        (by simp [standing]) (.inr ⟨message, rest, rfl⟩)
    · refine sound.kept.advance _ working (fun _ _ calm => ?_) (by simp) fun _ _ _ => stopped
      exact ⟨.inl (by simpa using calm), by rw [standing]; rfl⟩
  · apply sound.move
    · exact sound.shaped.decide _ (by rw [standing]; rfl) (by simp [standing])
        (by simp [standing]) (.inl ⟨message, rest, rfl⟩)
    · refine sound.kept.advance _ working (fun _ _ calm => ?_) (by simp) (by simp)
      exact ⟨.inl (by simpa using calm), by rw [standing]; rfl⟩

theorem Sound.deliver (sound : system.Sound) (stepped : system.deliver = some next) :
    next.Sound := by
  obtain ⟨message, rest, standing, outcome⟩ := deliver_some stepped
  have working : system.phase.cleaning = false := by rw [standing]; rfl
  obtain ⟨claimed, absent⟩ := sound.shaped.pending message (by simp [standing, Phase.pending])
  have pushed := sound.accounted.push claimed absent
  rcases outcome with ⟨owner, rfl⟩ | ⟨owner, rfl⟩ | ⟨stopped, rfl⟩
  · exact ⟨sound.counted, ⟨pushed.increasing, pushed.issued, pushed.submitted, pushed.once,
        pushed.unique, pushed.marked⟩,
      sound.shaped.push standing owner, sound.kept.push _ standing (.inl rfl)⟩
  · exact ⟨sound.counted, ⟨pushed.increasing, pushed.issued, pushed.submitted, pushed.once,
        pushed.unique, pushed.marked⟩,
      sound.shaped.hand standing owner, sound.kept.push _ standing (.inr rfl)⟩
  · apply sound.move
    · exact sound.shaped.decide _ (by rw [standing]; rfl) (by simp [standing])
        (by simp [standing]) (.inr ⟨message, rest, rfl⟩)
    · refine sound.kept.advance _ working (fun _ _ calm => ?_) (by simp) fun _ _ _ => stopped
      exact ⟨.inl (by simpa using calm), by rw [standing]; rfl⟩

theorem Sound.mark (sound : system.Sound) (stepped : system.mark = some next) : next.Sound := by
  obtain ⟨message, rest, standing, outcome⟩ := mark_some stepped
  obtain ⟨owner, claimed, delivered⟩ := sound.shaped.pushed message rest standing
  rcases outcome with ⟨reason, refused, -⟩ | ⟨mailbox, marked, rfl⟩
  · obtain ⟨parts, located⟩ := locate_isSome (·.1 == message.id) claimed (by simp)
    simp [ControlMailbox.markDelivered, located] at refused
  · have counted := sound.counted.markDelivered marked
    obtain ⟨before, flag, behind, split, rfl⟩ := ControlMailbox.markDelivered_ok marked
    have accounted := sound.accounted.mark split delivered
    exact ⟨counted, ⟨accounted.increasing, accounted.issued, accounted.submitted,
        accounted.once, accounted.unique, accounted.marked⟩,
      sound.shaped.mark standing split sound.accounted.unique, sound.kept.mark standing split⟩

theorem Sound.complete (sound : system.Sound) (stepped : system.complete = some next) :
    next.Sound := by
  obtain ⟨message, delivered, rest, standing, outcome⟩ := complete_some stepped
  have elsewhere : ∀ other batch, system.phase ≠ .pushed other batch := by simp [standing]
  have working : system.phase.cleaning = false := by rw [standing]; rfl
  rcases outcome with ⟨owner, reason, -, rfl⟩ | ⟨owner, mailbox, completed, rfl⟩ | ⟨owner, rfl⟩
  · apply sound.move
    · exact sound.shaped.advance _ _ rfl rfl (by simp [standing]) elsewhere
        (.inr (.inr (.inr (.inl rfl))))
    · exact sound.kept.advance _ working (fun impossible => by cases impossible) (by simp)
        (by simp)
  · have counted := sound.counted.completeClaim completed
    obtain ⟨before, flag, behind, split, rfl⟩ := ControlMailbox.completeClaim_ok completed
    obtain rfl := sound.shaped.disposition standing owner split sound.accounted.unique
    have accounted := sound.accounted.complete split (by
      rintro rfl
      exact (sound.shaped.pending message (by simp [standing, Phase.pending])).2)
    exact ⟨counted, ⟨accounted.increasing, accounted.issued, accounted.submitted,
        accounted.once, accounted.unique, accounted.marked⟩,
      sound.shaped.complete sound.accounted standing owner split,
      sound.kept.complete standing split⟩
  · exact sound.move _ (sound.shaped.pass standing owner) (sound.kept.pass standing)

theorem Sound.endBatch (sound : system.Sound) (stepped : system.endBatch = some next) :
    next.Sound := by
  obtain ⟨standing, rfl⟩ := endBatch_some stepped
  apply sound.move
  · exact sound.shaped.advance _ _ rfl rfl (by simp [standing]) (by simp [standing]) (.inl rfl)
  · refine sound.kept.advance _ (by rw [standing]; rfl) (fun _ _ calm => ?_) (by simp) (by simp)
    exact ⟨.inl (by simpa using calm), by rw [standing]; rfl⟩

theorem Sound.observe (sound : system.Sound) (stepped : system.observe = some next) :
    next.Sound := by
  obtain ⟨standing, quiet, rfl⟩ := observe_some stepped
  apply sound.move
  · exact sound.shaped.advance _ _ rfl rfl (by simp [standing]) (by simp [standing])
      (.inr (.inr (.inl rfl)))
  · exact sound.kept.advance _ (by rw [standing]; rfl)
      (fun _ _ _ => ⟨.inl quiet, by rw [standing]; rfl⟩) (by simp) (by simp)

theorem Sound.finish (sound : system.Sound) (stepped : system.finish = some next) :
    next.Sound := by
  obtain ⟨standing, outcome⟩ := finish_some stepped
  have accounted := sound.accounted.keep { system.mailbox with active := false } rfl rfl rfl rfl
  have counted := sound.counted
  have shaped := sound.shaped.advance { system.mailbox with active := false } .closing rfl rfl
    (by simp [standing]) (by simp [standing]) (.inr (.inr (.inr (.inl rfl))))
  rcases outcome with rfl | ⟨closed, rfl⟩ | ⟨opened, empty, rfl⟩
  · apply sound.move
    · exact sound.shaped.advance _ _ rfl rfl (by simp [standing]) (by simp [standing]) (.inl rfl)
    · refine sound.kept.advance _ (by rw [standing]; rfl) (fun _ _ calm => ?_) (by simp) (by simp)
      exact ⟨.inr standing, by rw [standing]; rfl⟩
  · exact ⟨⟨counted.bytes, counted.bounded, counted.capacity⟩,
      ⟨accounted.increasing, accounted.issued, accounted.submitted, accounted.once,
        accounted.unique, accounted.marked⟩, shaped, sound.kept.finish_closed standing⟩
  · exact ⟨⟨counted.bytes, counted.bounded, counted.capacity⟩,
      ⟨accounted.increasing, accounted.issued, accounted.submitted, accounted.once,
        accounted.unique, accounted.marked⟩,
      ⟨shaped.owned, shaped.idle, shaped.pending, shaped.distinct, shaped.pushed,
        shaped.disposing, shaped.settled, shaped.settling, shaped.ending⟩,
      sound.kept.finish standing opened empty⟩

theorem Sound.giveUp (sound : system.Sound) (stepped : system.giveUp = some next) :
    next.Sound := by
  obtain ⟨busy, working, elsewhere, rfl⟩ := giveUp_some stepped
  apply sound.move
  · exact sound.shaped.advance _ _ rfl rfl busy elsewhere (.inr (.inr (.inr (.inl rfl))))
  · exact sound.kept.advance _ working (fun impossible => by cases impossible) (by simp) (by simp)

theorem Sound.finishClaims (sound : system.Sound) (stepped : system.finishClaims = some next) :
    next.Sound := by
  obtain ⟨standing, rfl⟩ := finishClaims_some stepped
  have settled : ∀ id, (id, false) ∈ system.mailbox.claimed → id ∉ system.sessionIds :=
    fun id unmarked => sound.shaped.open_of_unmarked (sound.shaped.settling standing)
      (by simp [standing]) unmarked
  have accounted := sound.accounted.finishClaims settled
  exact ⟨sound.counted.finishClaims, ⟨accounted.increasing, accounted.issued,
      accounted.submitted, accounted.once, accounted.unique, accounted.marked⟩,
    sound.shaped.finishClaims standing, sound.kept.finishClaims settled⟩

theorem Sound.endRun (sound : system.Sound) (ends : system.EndsSettled .endRun)
    (stepped : system.endRun = some next) : next.Sound := by
  obtain ⟨standing, rfl⟩ := endRun_some stepped
  have settled : ∀ id, (id, false) ∈ system.mailbox.claimed → id ∉ system.sessionIds := by
    intro id unmarked
    cases owner : system.owner with
    | driver =>
        rw [sound.shaped.ending standing owner] at unmarked
        cases unmarked
    | adapter => exact ends owner (id, false) unmarked rfl
  have accounted := sound.accounted.endRun settled
  exact ⟨sound.counted.endRun, ⟨accounted.increasing, accounted.issued, accounted.submitted,
      accounted.once, accounted.unique, accounted.marked⟩,
    Shaped.endRun _ _, sound.kept.endRun settled⟩

theorem Sound.step (sound : system.Sound) {action : Action} (ends : system.EndsSettled action)
    (stepped : system.step action = some next) : next.Sound := by
  cases action with
  | submit text => exact Option.some.inj stepped ▸ sound.submit text
  | steer text => exact Option.some.inj stepped ▸ sound.steer text
  | edit id text => exact Option.some.inj stepped ▸ sound.edit id text
  | withdraw id => exact Option.some.inj stepped ▸ sound.withdraw id
  | shutdown => exact Option.some.inj stepped ▸ sound.shutdown
  | cancelActive =>
      exact Option.some.inj stepped ▸ sound.cancel fun already => by simp [already]
  | cancel => exact Option.some.inj stepped ▸ sound.cancel fun _ => rfl
  | resetCancellation =>
      simp only [System.step, Option.ite_none_right_eq_some, Option.some.injEq] at stepped
      exact stepped.2 ▸ sound.reset stepped.1
  | nextTask =>
      simp only [System.step, Option.ite_none_right_eq_some, Option.some.injEq] at stepped
      exact stepped.2 ▸ sound.nextTask stepped.1
  | beginRun owner => exact Option.some.inj stepped ▸ sound.beginRun owner
  | withdrawals => exact sound.withdrawals stepped
  | claim => exact sound.claim stepped
  | inspect => exact sound.inspect stepped
  | deliver => exact sound.deliver stepped
  | mark => exact sound.mark stepped
  | complete => exact sound.complete stepped
  | endBatch => exact sound.endBatch stepped
  | observe => exact sound.observe stepped
  | finish => exact sound.finish stepped
  | giveUp => exact sound.giveUp stepped
  | finishClaims => exact sound.finishClaims stepped
  | endRun => exact sound.endRun ends stepped

theorem sound_run (actions : List Action)
    (settled : Transitions.Meets System.step EndsSettled {} actions)
    (reached : Transitions.run System.step {} actions = some system) : system.Sound :=
  Transitions.run_invariant (fun _ _ _ sound ends stepped => Sound.step sound ends stepped)
    actions sound_initial settled reached

/-! ## What a mailbox promises -/

/-- The counters are right, every accepted message is at exactly one place and at most once in
the conversation, and a run that finished on an open mailbox has dropped nothing. -/
structure Promised (system : System) : Prop where
  bytes : system.mailbox.bytes =
    textBytes system.mailbox.tasks + textBytes system.mailbox.guidance
  bounded : system.mailbox.bytes ≤ MAX_QUEUED_BYTES
  capacity : system.mailbox.guidance.length + system.mailbox.tasks.length +
    system.mailbox.claimed.length ≤ CAPACITY
  increasing : (system.submissions.map (·.id)).Pairwise (· < ·)
  submitted : system.acceptedIds.Sublist (system.submissions.map (·.id))
  place : ∀ id ∈ system.acceptedIds, ∃! place, id ∈ system.idsAt place
  once : ∀ place, (system.idsAt place).Nodup ∧ ∀ id ∈ system.idsAt place, id ∈ system.acceptedIds
  finished : ∀ run ∈ system.finished, ∀ entry ∈ system.accepted, entry.2 = run →
    entry.1 ∉ system.idsAt .dropped

theorem Sound.promised (sound : system.Sound) : system.Promised where
  bytes := sound.counted.bytes
  bounded := sound.counted.bounded
  capacity := sound.counted.capacity
  increasing := sound.accounted.increasing
  submitted := sound.accounted.submitted
  place := fun _ member => sound.accounted.existsUnique_place member
  once := by
    refine fun place => ⟨sound.accounted.idsAt_nodup place, fun id member => ?_⟩
    apply sound.accounted.accepted_of_occurs
    have present := List.count_pos_iff.mpr member
    rw [occurrences_eq]
    cases place <;> omega
  finished := fun run member => (sound.kept.finished run member).2.1

theorem guidance_promised (actions : List Action)
    (settled : Transitions.Meets System.step EndsSettled {} actions)
    (reached : Transitions.run System.step {} actions = some system) : system.Promised :=
  (sound_run actions settled reached).promised

/-! ## The driver meets the condition, the adapter does not -/

theorem owner_of_step {action : Action} (stepped : system.step action = some next)
    (driven : action ≠ .beginRun .adapter) (owner : system.owner = .driver) :
    next.owner = .driver := by
  cases action with
  | submit text =>
      rw [← Option.some.inj stepped, submit]
      split <;> exact owner
  | steer text =>
      rw [← Option.some.inj stepped, steer]
      split <;> exact owner
  | edit id text =>
      rw [← Option.some.inj stepped, edit]
      split <;> exact owner
  | withdraw id =>
      rw [← Option.some.inj stepped, withdraw]
      split <;> exact owner
  | shutdown => exact Option.some.inj stepped ▸ owner
  | cancelActive => exact Option.some.inj stepped ▸ owner
  | cancel => exact Option.some.inj stepped ▸ owner
  | resetCancellation =>
      simp only [step, Option.ite_none_right_eq_some, Option.some.injEq] at stepped
      exact stepped.2 ▸ owner
  | nextTask =>
      simp only [step, Option.ite_none_right_eq_some, Option.some.injEq] at stepped
      exact stepped.2 ▸ owner
  | beginRun chosen =>
      rw [← Option.some.inj stepped, beginRun]
      split
      · exact owner
      · cases chosen with
        | driver => rfl
        | adapter => exact absurd rfl driven
  | withdrawals =>
      obtain ⟨_, rfl, -⟩ := withdrawals_some stepped
      exact owner
  | claim => exact (claim_some stepped).2 ▸ owner
  | inspect =>
      obtain ⟨_, _, -, ⟨-, rfl⟩ | rfl⟩ := inspect_some stepped <;> exact owner
  | deliver =>
      obtain ⟨_, _, -, ⟨-, rfl⟩ | ⟨-, rfl⟩ | ⟨-, rfl⟩⟩ := deliver_some stepped <;> exact owner
  | mark =>
      obtain ⟨_, _, -, ⟨_, -, rfl⟩ | ⟨_, -, rfl⟩⟩ := mark_some stepped <;> exact owner
  | complete =>
      obtain ⟨_, _, _, -, ⟨-, _, -, rfl⟩ | ⟨-, _, -, rfl⟩ | ⟨-, rfl⟩⟩ :=
        complete_some stepped <;> exact owner
  | endBatch => exact (endBatch_some stepped).2 ▸ owner
  | observe => exact (observe_some stepped).2.2 ▸ owner
  | finish =>
      obtain ⟨-, rfl | ⟨-, rfl⟩ | ⟨-, -, rfl⟩⟩ := finish_some stepped <;> exact owner
  | giveUp => exact (giveUp_some stepped).2.2.2 ▸ owner
  | finishClaims => exact (finishClaims_some stepped).2 ▸ owner
  | endRun => exact (endRun_some stepped).2 ▸ owner

theorem meets_of_driver (actions : List Action)
    (driven : ∀ action ∈ actions, action ≠ .beginRun .adapter) {first : System}
    (owner : first.owner = .driver) : Transitions.Meets System.step EndsSettled first actions := by
  induction actions generalizing first with
  | nil => trivial
  | cons action rest ih =>
      refine ⟨?_, fun next stepped => ?_⟩
      · cases action <;> try trivial
        intro adapter
        exact absurd (owner.symm.trans adapter) (by decide)
      · exact ih (fun other member => driven other (List.mem_cons_of_mem _ member))
          (owner_of_step stepped (driven action (List.mem_cons_self ..)) owner)

/-- A message is steered into a run of the driver, delivered, and the run finishes. -/
def driverRun : List Action :=
  [.beginRun .driver, .steer "on", .withdrawals, .claim, .inspect, .deliver, .mark, .complete,
    .endBatch, .observe, .finish, .withdrawals, .finishClaims, .endRun]

theorem guidance_promised_driverRun :
    ∃ system, Transitions.run System.step {} driverRun = some system ∧ system.Promised :=
  ⟨_, rfl, guidance_promised driverRun (meets_of_driver driverRun (by decide) rfl) rfl⟩

/-- The same run of the adapter. -/
def adapterRun : List Action :=
  [.beginRun .adapter, .steer "on", .withdrawals, .claim, .inspect, .deliver, .complete,
    .endBatch, .observe, .finish, .withdrawals, .endRun]

theorem adapter_drops_delivered :
    ∃ system, Transitions.run System.step {} adapterRun = some system ∧
      system.finished = [0] ∧ system.accepted = [(1, 0)] ∧ 1 ∈ system.idsAt .delivered ∧
        1 ∈ system.idsAt .dropped ∧ ¬ system.Promised := by
  refine ⟨_, rfl, rfl, rfl, by decide, by decide, fun promised => ?_⟩
  exact promised.finished 0 (by decide) (1, 0) (by decide) rfl (by decide)

end Kvist.Runtime.System
