import Kvist.Runtime.GuidanceSteps

/-!
# Claims and the owner's position

The claims in the mailbox belong to the batch the owner works on: what is pending is claimed and
not delivered, and the driver has marked what it delivered before it goes on.
-/

set_option autoImplicit false

namespace Kvist.Runtime.System

structure Shaped (system : System) : Prop where
  owned : system.mailbox.owned = true ↔ system.phase ≠ .idle
  idle : system.phase = .idle → system.mailbox.claimed = []
  pending : ∀ message ∈ system.phase.pending,
    (message.id, false) ∈ system.mailbox.claimed ∧ message.id ∉ system.sessionIds
  distinct : (system.phase.pending.map (·.id)).Nodup
  pushed : ∀ message rest, system.phase = .pushed message rest →
    system.owner = .driver ∧ (message.id, false) ∈ system.mailbox.claimed ∧
      message.id ∈ system.sessionIds
  disposing : ∀ message rest, system.phase = .disposing message true rest →
    system.owner = .driver → (message.id, true) ∈ system.mailbox.claimed
  settled : system.owner = .driver → ∀ id, (id, false) ∈ system.mailbox.claimed →
    id ∈ system.sessionIds → ∃ message rest, system.phase = .pushed message rest ∧ message.id = id
  settling : system.phase = .settling → system.owner = .driver
  ending : system.phase = .ending → system.owner = .driver → system.mailbox.claimed = []

variable {system : System}

/-- No unmarked claim is in the conversation, as long as the driver does not stand right behind
its push. -/
theorem Shaped.open_of_unmarked (shaped : system.Shaped) (owner : system.owner = .driver)
    (elsewhere : ∀ message rest, system.phase ≠ .pushed message rest) {id : GuidanceId}
    (unmarked : (id, false) ∈ system.mailbox.claimed) : id ∉ system.sessionIds := by
  intro delivered
  obtain ⟨message, rest, standing, -⟩ := shaped.settled owner id unmarked delivered
  exact elsewhere message rest standing

theorem Shaped.keep (shaped : system.Shaped) (mailbox : ControlMailbox)
    (owned : mailbox.owned = system.mailbox.owned)
    (claimed : mailbox.claimed = system.mailbox.claimed) :
    ({ system with mailbox } : System).Shaped where
  owned := by
    rw [owned]
    exact shaped.owned
  idle := by
    rw [claimed]
    exact shaped.idle
  pending := by
    simp only [claimed]
    exact shaped.pending
  distinct := shaped.distinct
  pushed := by
    simp only [claimed]
    exact shaped.pushed
  disposing := by
    simp only [claimed]
    exact shaped.disposing
  settled := by
    simp only [claimed]
    exact shaped.settled
  settling := shaped.settling
  ending := by
    rw [claimed]
    exact shaped.ending

/-- Moving on to a position without pending messages. -/
theorem Shaped.advance (shaped : system.Shaped) (mailbox : ControlMailbox) (phase : Phase)
    (owned : mailbox.owned = system.mailbox.owned)
    (claimed : mailbox.claimed = system.mailbox.claimed)
    (busy : system.phase ≠ .idle) (elsewhere : ∀ message rest, system.phase ≠ .pushed message rest)
    (next : phase = .running ∨ phase = .withdrawing ∨ phase = .observed ∨ phase = .closing ∨
      (phase = .settling ∧ system.owner = .driver) ∨ (phase = .ending ∧ system.owner = .adapter)) :
    ({ system with mailbox, phase } : System).Shaped := by
  have pending : phase.pending = [] := by
    rcases next with rfl | rfl | rfl | rfl | ⟨rfl, -⟩ | ⟨rfl, -⟩ <;> rfl
  refine ⟨?_, ?_, ?_, ?_, ?_, ?_, ?_, ?_, ?_⟩
  · rw [owned]
    simp only [shaped.owned, busy, ne_eq, not_false_eq_true, true_iff]
    rintro rfl
    simp at next
  · rintro rfl
    simp at next
  · intro message member
    simp [pending] at member
  · simp [pending]
  · rintro message rest rfl
    simp at next
  · rintro message rest rfl
    simp at next
  · intro owner id unmarked delivered
    rw [claimed] at unmarked
    exact absurd delivered (shaped.open_of_unmarked owner elsewhere unmarked)
  · rintro rfl
    simpa using next
  · rintro rfl driver
    simp only [reduceCtorEq, false_and, false_or, true_and] at next
    exact absurd (driver.symm.trans next) (by decide)

theorem Shaped.beginRun (shaped : system.Shaped) (owner : Owner)
    (free : system.mailbox.owned = false) :
    ({ system with
      mailbox := { system.mailbox with active := true, owned := true }
      owner
      phase := .running } : System).Shaped := by
  have idle : system.phase = .idle := by
    by_contra busy
    rw [shaped.owned.mpr busy] at free
    cases free
  have claimed := shaped.idle idle
  refine ⟨?_, ?_, ?_, ?_, ?_, ?_, ?_, ?_, ?_⟩
  · simp
  · intro impossible
    cases impossible
  · intro message member
    cases member
  · exact List.nodup_nil
  · intro message rest impossible
    cases impossible
  · intro message rest impossible
    cases impossible
  · intro _ id unmarked
    simp [claimed] at unmarked
  · intro impossible
    cases impossible
  · intro impossible
    cases impossible

theorem Shaped.claim (shaped : system.Shaped) (accounted : system.Accounted)
    (standing : system.phase = .withdrawing) :
    ({ system with
      mailbox := system.mailbox.claim.1
      phase := .delivering system.mailbox.claim.2 } : System).Shaped := by
  have elsewhere : ∀ message rest, system.phase ≠ .pushed message rest := by
    simp [standing]
  have busy : system.mailbox.owned = true := shaped.owned.mpr (by simp [standing])
  unfold ControlMailbox.claim
  split
  · refine ⟨?_, ?_, ?_, ?_, ?_, ?_, ?_, ?_, ?_⟩ <;> simp only [reduceCtorEq, false_implies,
      implies_true, ne_eq, not_false_eq_true, iff_true]
    · exact busy
    · intro message member
      cases member
    · exact List.nodup_nil
    · intro owner id unmarked delivered
      exact absurd delivered (shaped.open_of_unmarked owner elsewhere unmarked)
  · refine ⟨?_, ?_, ?_, ?_, ?_, ?_, ?_, ?_, ?_⟩ <;> simp only [reduceCtorEq, false_implies,
      implies_true, ne_eq, not_false_eq_true, iff_true]
    · exact busy
    · intro message member
      have queued : message.id ∈ system.mailbox.guidance.map (·.id) :=
        List.mem_map.mpr ⟨message, member, rfl⟩
      refine ⟨?_, (accounted.queued_elsewhere queued).2⟩
      exact List.mem_append_right _ (List.mem_map.mpr ⟨message, member, rfl⟩)
    · exact accounted.idsAt_nodup .queued
    · intro owner id unmarked delivered
      rcases List.mem_append.mp unmarked with earlier | new
      · exact absurd delivered (shaped.open_of_unmarked owner elsewhere earlier)
      · obtain ⟨message, member, same⟩ := List.mem_map.mp new
        obtain ⟨rfl, -⟩ := Prod.mk.inj same
        exact absurd delivered (accounted.queued_elsewhere (List.mem_map.mpr ⟨message, member, rfl⟩)).2

/-- The position changes within the loop while the batch stays the same. -/
theorem Shaped.decide (shaped : system.Shaped) (phase : Phase)
    (pending : phase.pending = system.phase.pending) (busy : system.phase ≠ .idle)
    (elsewhere : ∀ message rest, system.phase ≠ .pushed message rest)
    (next : (∃ message rest, phase = .inspected message rest) ∨
      ∃ message rest, phase = .disposing message false rest) :
    ({ system with phase } : System).Shaped := by
  refine ⟨?_, ?_, ?_, ?_, ?_, ?_, ?_, ?_, ?_⟩
  · simp only [shaped.owned, busy, ne_eq, not_false_eq_true, true_iff]
    rcases next with ⟨message, rest, rfl⟩ | ⟨message, rest, rfl⟩ <;> simp
  · rcases next with ⟨message, rest, rfl⟩ | ⟨message, rest, rfl⟩ <;> simp
  · simp only [pending]
    exact shaped.pending
  · simp only [pending]
    exact shaped.distinct
  · rcases next with ⟨message, rest, rfl⟩ | ⟨message, rest, rfl⟩ <;> simp
  · rcases next with ⟨message, rest, rfl⟩ | ⟨message, rest, rfl⟩ <;> simp
  · intro owner id unmarked delivered
    exact absurd delivered (shaped.open_of_unmarked owner elsewhere unmarked)
  · rcases next with ⟨message, rest, rfl⟩ | ⟨message, rest, rfl⟩ <;> simp
  · rcases next with ⟨message, rest, rfl⟩ | ⟨message, rest, rfl⟩ <;> simp

/-- What stays pending behind a delivered message. -/
private theorem pending_rest (shaped : system.Shaped) {message : Guidance} {rest : List Guidance}
    (standing : system.phase = .inspected message rest) :
    (rest.map (·.id)).Nodup ∧ ∀ other ∈ rest, (other.id, false) ∈ system.mailbox.claimed ∧
      other.id ∉ (system.session ++ [message]).map (·.id) := by
  have pending := shaped.pending
  have distinct := shaped.distinct
  simp only [standing, Phase.pending, List.map_cons, List.nodup_cons, List.mem_map, not_exists,
    not_and] at pending distinct
  refine ⟨distinct.2, fun other member => ?_⟩
  obtain ⟨claimed, absent⟩ := pending other (List.mem_cons_of_mem _ member)
  refine ⟨claimed, ?_⟩
  simp only [List.map_append, List.map_cons, List.map_nil, List.mem_append, List.mem_singleton,
    not_or]
  exact ⟨absent, distinct.1 other member⟩

theorem Shaped.push (shaped : system.Shaped) {message : Guidance} {rest : List Guidance}
    (standing : system.phase = .inspected message rest) (owner : system.owner = .driver) :
    ({ system with
      session := system.session ++ [message], phase := .pushed message rest } : System).Shaped := by
  have elsewhere : ∀ other batch, system.phase ≠ .pushed other batch := by simp [standing]
  obtain ⟨distinct, pending⟩ := pending_rest shaped standing
  refine ⟨?_, ?_, ?_, ?_, ?_, ?_, ?_, ?_, ?_⟩ <;> simp only [reduceCtorEq, false_implies,
    implies_true, ne_eq, not_false_eq_true, iff_true]
  · exact shaped.owned.mpr (by simp [standing])
  · exact pending
  · exact distinct
  · intro other batch same
    simp only [Phase.pushed.injEq] at same
    obtain ⟨rfl, rfl⟩ := same
    refine ⟨owner, (shaped.pending message ?_).1, by simp [sessionIds]⟩
    simp [standing, Phase.pending]
  · intro _ id unmarked delivered
    simp only [sessionIds, List.map_append, List.map_cons, List.map_nil, List.mem_append,
      List.mem_singleton] at delivered
    rcases delivered with earlier | rfl
    · exact absurd earlier (shaped.open_of_unmarked owner elsewhere unmarked)
    · exact ⟨message, rest, rfl, rfl⟩

theorem Shaped.hand (shaped : system.Shaped) {message : Guidance} {rest : List Guidance}
    (standing : system.phase = .inspected message rest) (owner : system.owner = .adapter) :
    ({ system with
      session := system.session ++ [message]
      phase := .disposing message true rest } : System).Shaped := by
  obtain ⟨distinct, pending⟩ := pending_rest shaped standing
  refine ⟨?_, ?_, ?_, ?_, ?_, ?_, ?_, ?_, ?_⟩ <;> simp only [reduceCtorEq, false_implies,
    implies_true, ne_eq, not_false_eq_true, iff_true, owner]
  · exact shaped.owned.mpr (by simp [standing])
  · exact pending
  · exact distinct

theorem Shaped.mark (shaped : system.Shaped) {message : Guidance} {rest : List Guidance}
    {before behind : List (GuidanceId × Bool)} {flag : Bool}
    (standing : system.phase = .pushed message rest)
    (split : system.mailbox.claimed = before ++ (message.id, flag) :: behind)
    (unique : system.claimedIds.Nodup) :
    ({ system with
      mailbox := { system.mailbox with claimed := before ++ (message.id, true) :: behind }
      phase := .disposing message true rest } : System).Shaped := by
  obtain ⟨owner, -, delivered⟩ := shaped.pushed message rest standing
  have pending := shaped.pending
  have distinct := shaped.distinct
  simp only [standing, Phase.pending, split] at pending distinct
  refine ⟨?_, ?_, ?_, ?_, ?_, ?_, ?_, ?_, ?_⟩ <;> simp only [reduceCtorEq, false_implies,
    implies_true, ne_eq, not_false_eq_true, iff_true]
  · exact shaped.owned.mpr (by simp [standing])
  · intro other member
    obtain ⟨claimed, absent⟩ := pending other member
    have differs : other.id ≠ message.id := fun same => absent (same ▸ delivered)
    refine ⟨?_, absent⟩
    simpa [differs] using claimed
  · exact distinct
  · intro other batch same _
    simp only [Phase.disposing.injEq, true_and] at same
    obtain ⟨rfl, rfl⟩ := same
    simp
  · intro _ id unmarked present
    simp only [claimedIds, split, List.map_append, List.map_cons] at unique
    have other : (id, false) ∈ system.mailbox.claimed ∧ id ≠ message.id := by
      simp only [List.mem_append, List.mem_cons, Prod.mk.injEq, Bool.false_eq_true, and_false,
        false_or] at unmarked
      refine ⟨?_, ?_⟩
      · rw [split]
        simp only [List.mem_append, List.mem_cons]
        tauto
      · rintro rfl
        rw [List.nodup_append, List.nodup_cons] at unique
        rcases unmarked with front | back
        · exact unique.2.2 message.id (List.mem_map.mpr ⟨_, front, rfl⟩) message.id
            (List.mem_cons_self ..) rfl
        · exact unique.2.1.1 (List.mem_map.mpr ⟨_, back, rfl⟩)
    obtain ⟨found, batch, same, rfl⟩ := shaped.settled owner id other.1 present
    rw [standing] at same
    exact absurd (Phase.pushed.inj same).1 (fun equal => other.2 (congrArg (·.id) equal.symm))

theorem Shaped.disposition (shaped : system.Shaped) {message : Guidance} {delivered flag : Bool}
    {rest : List Guidance} {before behind : List (GuidanceId × Bool)}
    (standing : system.phase = .disposing message delivered rest)
    (owner : system.owner = .driver)
    (split : system.mailbox.claimed = before ++ (message.id, flag) :: behind)
    (unique : system.claimedIds.Nodup) : flag = delivered := by
  have claimed : (message.id, delivered) ∈ system.mailbox.claimed := by
    cases delivered with
    | true => exact shaped.disposing message rest standing owner
    | false => exact (shaped.pending message (by simp [standing, Phase.pending])).1
  simp only [claimedIds, split, List.map_append, List.map_cons, List.nodup_append,
    List.nodup_cons] at unique
  simp only [split, List.mem_append, List.mem_cons, Prod.mk.injEq, true_and] at claimed
  rcases claimed with front | same | back
  · exact absurd rfl (unique.2.2 message.id (List.mem_map.mpr ⟨_, front, rfl⟩) message.id
      (List.mem_cons_self ..))
  · exact same.symm
  · exact absurd (List.mem_map.mpr ⟨_, back, rfl⟩) unique.2.1.1

theorem Shaped.complete (shaped : system.Shaped) (accounted : system.Accounted)
    {message : Guidance} {delivered flag : Bool} {rest : List Guidance}
    {before behind : List (GuidanceId × Bool)} {dropped : List GuidanceId}
    (standing : system.phase = .disposing message delivered rest)
    (owner : system.owner = .driver)
    (split : system.mailbox.claimed = before ++ (message.id, flag) :: behind) :
    ({ system with
      mailbox := { system.mailbox with claimed := before ++ behind }
      phase := .delivering rest
      dropped } : System).Shaped := by
  have elsewhere : ∀ other batch, system.phase ≠ .pushed other batch := by simp [standing]
  have same := shaped.disposition standing owner split accounted.unique
  subst same
  have marked := accounted.marked message.id
  have pending := shaped.pending
  have distinct := shaped.distinct
  have kept : (rest.map (·.id)).Nodup ∧ ∀ other ∈ rest, other.id ≠ message.id ∧
      (other.id, false) ∈ before ++ (message.id, flag) :: behind ∧
        other.id ∉ system.sessionIds := by
    simp only [standing, split] at pending distinct marked
    cases flag with
    | true =>
        refine ⟨distinct, fun other member => ?_⟩
        obtain ⟨claimed, absent⟩ := pending other member
        exact ⟨fun equal => absent (equal ▸ marked (by simp)), claimed, absent⟩
    | false =>
        simp only [Phase.pending, List.map_cons, List.nodup_cons, List.mem_map, not_exists,
          not_and] at distinct pending
        exact ⟨distinct.2, fun other member =>
          ⟨distinct.1 other member, pending other (List.mem_cons_of_mem _ member)⟩⟩
  refine ⟨?_, ?_, ?_, ?_, ?_, ?_, ?_, ?_, ?_⟩ <;> simp only [reduceCtorEq, false_implies,
    implies_true, ne_eq, not_false_eq_true, iff_true]
  · exact shaped.owned.mpr (by simp [standing])
  · intro other member
    obtain ⟨differs, claimed, absent⟩ := kept.2 other member
    refine ⟨?_, absent⟩
    simpa [differs] using claimed
  · exact kept.1
  · intro _ id unmarked present
    refine absurd present (shaped.open_of_unmarked owner elsewhere ?_)
    rw [split]
    simp only [List.mem_append, List.mem_cons] at unmarked ⊢
    tauto

theorem Shaped.pass (shaped : system.Shaped) {message : Guidance} {delivered : Bool}
    {rest : List Guidance} (standing : system.phase = .disposing message delivered rest)
    (owner : system.owner = .adapter) :
    ({ system with phase := .delivering rest } : System).Shaped := by
  have pending := shaped.pending
  have distinct := shaped.distinct
  refine ⟨?_, ?_, ?_, ?_, ?_, ?_, ?_, ?_, ?_⟩ <;> simp only [reduceCtorEq, false_implies,
    implies_true, ne_eq, not_false_eq_true, iff_true, owner]
  · exact shaped.owned.mpr (by simp [standing])
  · intro other member
    cases delivered with
    | true => exact pending other (by simpa [standing, Phase.pending] using member)
    | false =>
        refine pending other ?_
        rw [standing]
        exact List.mem_cons_of_mem _ member
  · cases delivered with
    | true => simpa [standing, Phase.pending] using distinct
    | false =>
        simp only [standing, Phase.pending, List.map_cons, List.nodup_cons] at distinct
        exact distinct.2

theorem Shaped.finishClaims (shaped : system.Shaped) {dropped : List GuidanceId}
    (standing : system.phase = .settling) :
    ({ system with
      mailbox := system.mailbox.finishClaims.1, phase := .ending, dropped } : System).Shaped := by
  refine ⟨?_, ?_, ?_, ?_, ?_, ?_, ?_, ?_, ?_⟩ <;> simp only [reduceCtorEq, false_implies,
    implies_true, ne_eq, not_false_eq_true, iff_true]
  · exact shaped.owned.mpr (by simp [standing])
  · intro message member
    cases member
  · exact List.nodup_nil
  · intro _ id unmarked
    cases unmarked
  · intro _ _
    rfl

theorem Shaped.endRun (run : Nat) (dropped : List GuidanceId) :
    ({ system with
      mailbox := system.mailbox.endRun.1, phase := .idle, run, dropped } : System).Shaped := by
  refine ⟨?_, ?_, ?_, ?_, ?_, ?_, ?_, ?_, ?_⟩ <;> simp only [reduceCtorEq, false_implies,
    implies_true, ne_eq, not_true_eq_false, iff_false]
  · simp [ControlMailbox.endRun]
  · intro _
    rfl
  · intro message member
    cases member
  · exact List.nodup_nil
  · intro _ id unmarked
    cases unmarked

end Kvist.Runtime.System
