import Kvist.Runtime.GuidanceShape

/-!
# No guidance is dropped in a run that finishes

As long as neither shutdown nor cancellation has been seen, the open claims are the pending
messages and no guidance of the current run is dropped.
-/

set_option autoImplicit false

namespace Kvist.Runtime.System

structure Kept (system : System) : Prop where
  current : ∀ entry ∈ system.accepted, entry.2 ≤ system.run
  live : ∀ entry ∈ system.accepted,
    entry.1 ∈ system.idsAt .queued ∨ entry.1 ∈ system.claimedIds → entry.2 = system.run
  doomed : ∀ message rest, system.phase = .disposing message false rest →
    system.mailbox.closed = true ∨ system.cancelled = true
  calm : system.mailbox.closed = false → system.phase.cleaning = false →
    system.cancelled = false ∨ system.phase = .idle ∨ system.phase = .observed →
      (∀ id ∈ system.idsAt .claimed, id ∈ system.phase.pending.map (·.id)) ∧
        ∀ entry ∈ system.accepted, entry.2 = system.run → entry.1 ∉ system.idsAt .dropped
  finished : ∀ run ∈ system.finished, run ≤ system.run ∧
    (∀ entry ∈ system.accepted, entry.2 = run → entry.1 ∉ system.idsAt .dropped) ∧
    (run = system.run → system.phase.cleaning = true ∧ system.mailbox.guidance = [] ∧
      system.mailbox.active = false ∧ system.idsAt .claimed = [])

variable {system : System}

/-- A finished run is over once the owner has left its cleanup. -/
theorem Kept.past (kept : system.Kept) (working : system.phase.cleaning = false) {run : Nat}
    (member : run ∈ system.finished) : run ≠ system.run := by
  intro same
  have cleaning := ((kept.finished run member).2.2 same).1
  rw [working] at cleaning
  cases cleaning

theorem Kept.record_guidance (kept : system.Kept) (accounted : system.Accounted) {text : String}
    {bytes : Nat} (active : system.mailbox.active = true) :
    (system.record
      { system.mailbox with
        sequence := system.mailbox.sequence + 1
        bytes
        guidance := system.mailbox.guidance ++ [⟨system.mailbox.sequence + 1, text⟩] }
      ⟨system.mailbox.sequence + 1, .guidance⟩).Kept := by
  have unused : system.mailbox.sequence + 1 ∉ system.idsAt .dropped := by
    have none := accounted.fresh (Nat.lt_add_one system.mailbox.sequence)
    rw [occurrences_eq] at none
    rw [← List.count_eq_zero]
    omega
  have older : ∀ entry ∈ system.accepted, entry.1 ≠ system.mailbox.sequence + 1 := by
    intro entry member same
    have bound := accounted.issued_id (List.mem_map.mpr ⟨entry, member, rfl⟩)
    exact absurd (same ▸ bound) (Nat.not_succ_le_self _)
  have undropped : ∀ run, (∀ entry ∈ system.accepted, entry.2 = run →
      entry.1 ∉ system.idsAt .dropped) → ∀ entry ∈ system.accepted ++
        [(system.mailbox.sequence + 1, system.run)], entry.2 = run →
          entry.1 ∉ system.idsAt .dropped := by
    intro run before entry member same
    rcases List.mem_append.mp member with earlier | new
    · exact before entry earlier same
    · rw [List.mem_singleton.mp new]
      exact unused
  constructor
  · intro entry member
    rcases List.mem_append.mp member with earlier | new
    · exact kept.current entry earlier
    · exact (congrArg (·.2) (List.mem_singleton.mp new)).le
  · intro entry member place
    rcases List.mem_append.mp member with earlier | new
    · refine kept.live entry earlier ?_
      simpa [record, idsAt, claimedIds, older entry earlier] using place
    · exact congrArg (·.2) (List.mem_singleton.mp new)
  · exact kept.doomed
  · intro opened working calm
    obtain ⟨claims, kept⟩ := kept.calm opened working calm
    exact ⟨claims, undropped _ kept⟩
  · intro run member
    obtain ⟨bound, before, ended⟩ := kept.finished run member
    refine ⟨bound, undropped _ before, fun same => ?_⟩
    rw [(ended same).2.2.1] at active
    cases active

/-- An operation of a client, or of the owner between runs, that moves no message. -/
theorem Kept.keep (kept : system.Kept) (mailbox : ControlMailbox)
    (closed : mailbox.closed = system.mailbox.closed)
    (guidance : mailbox.guidance.map (·.id) = system.mailbox.guidance.map (·.id))
    (claimed : mailbox.claimed = system.mailbox.claimed)
    (dropped : mailbox.dropped = system.mailbox.dropped)
    (active : system.phase.cleaning = true → mailbox.active = system.mailbox.active) :
    ({ system with mailbox } : System).Kept := by
  have empty : system.mailbox.guidance = [] → mailbox.guidance = [] := by
    intro none
    simpa [none] using guidance
  constructor
  · exact kept.current
  · simp only [idsAt, claimedIds, guidance, claimed]
    exact kept.live
  · simp only [closed]
    exact kept.doomed
  · simp only [closed, idsAt, claimed, dropped]
    exact kept.calm
  · intro run member
    obtain ⟨bound, before, ended⟩ := kept.finished run member
    simp only [idsAt, claimed, dropped] at before ended ⊢
    refine ⟨bound, before, fun same => ?_⟩
    obtain ⟨cleaning, none, inactive, settled⟩ := ended same
    exact ⟨cleaning, empty none, (active cleaning).trans inactive, settled⟩

theorem Kept.record_task (kept : system.Kept) {bytes : Nat} {tasks : List Guidance} :
    (system.record
      { system.mailbox with sequence := system.mailbox.sequence + 1, bytes, tasks }
      ⟨system.mailbox.sequence + 1, .task⟩).Kept := by
  have same := kept.keep
    { system.mailbox with sequence := system.mailbox.sequence + 1, bytes, tasks }
    rfl rfl rfl rfl fun _ => rfl
  exact ⟨same.current, same.live, same.doomed, same.calm, same.finished⟩

theorem Kept.withdraw (kept : system.Kept) {before behind : List Guidance} {message : Guidance}
    {bytes : Nat} {notices withdrawn : List GuidanceId}
    (split : system.mailbox.guidance = before ++ message :: behind) :
    ({ system with
      mailbox := { system.mailbox with guidance := before ++ behind, bytes, withdrawn := notices }
      withdrawn } : System).Kept := by
  constructor
  · exact kept.current
  · intro entry member place
    refine kept.live entry member ?_
    simp only [idsAt, claimedIds, split, List.map_append, List.map_cons, List.mem_append,
      List.mem_cons] at place ⊢
    tauto
  · exact kept.doomed
  · exact kept.calm
  · intro run member
    obtain ⟨bound, undropped, ended⟩ := kept.finished run member
    refine ⟨bound, undropped, fun same => ?_⟩
    have none := (ended same).2.1
    simp [split] at none

theorem Kept.shutdown (kept : system.Kept) :
    ({ system with mailbox := system.mailbox.shutdown } : System).Kept := by
  constructor
  · exact kept.current
  · intro entry member place
    refine kept.live entry member (.inr ?_)
    simpa [idsAt, claimedIds, ControlMailbox.shutdown] using place
  · intro _ _ _
    exact .inl rfl
  · intro opened
    cases opened
  · intro run member
    obtain ⟨bound, undropped, ended⟩ := kept.finished run member
    refine ⟨bound, ?_, fun same => ?_⟩
    · intro entry accepted same dropped
      simp only [idsAt, ControlMailbox.shutdown, List.mem_append] at dropped
      rcases dropped with (earlier | queued) | reported
      · exact undropped entry accepted same (List.mem_append_left _ earlier)
      · have current := kept.live entry accepted (.inl queued)
        have none := (ended (same.symm.trans current)).2.1
        simp [none] at queued
      · exact undropped entry accepted same (List.mem_append_right _ reported)
    · obtain ⟨cleaning, -, inactive, settled⟩ := ended same
      exact ⟨cleaning, rfl, inactive, settled⟩

theorem Kept.cancel (kept : system.Kept) {cancelled : Bool}
    (sticky : system.cancelled = true → cancelled = true) :
    ({ system with cancelled } : System).Kept := by
  constructor
  · exact kept.current
  · exact kept.live
  · intro message rest standing
    exact (kept.doomed message rest standing).imp id sticky
  · intro opened working calm
    refine kept.calm opened working (calm.imp (fun uncancelled => ?_) id)
    cases before : system.cancelled with
    | false => rfl
    | true => exact absurd ((sticky before).symm.trans uncancelled) (by decide)
  · exact kept.finished

theorem Kept.reset (kept : system.Kept) (standing : system.phase = .idle) :
    ({ system with cancelled := false } : System).Kept := by
  constructor
  · exact kept.current
  · exact kept.live
  · intro message rest impossible
    simp [standing] at impossible
  · intro opened working _
    exact kept.calm opened working (.inr (.inl standing))
  · exact kept.finished

theorem Kept.beginRun (kept : system.Kept) (owner : Owner) (standing : system.phase = .idle) :
    ({ system with
      mailbox := { system.mailbox with active := true, owned := true }
      owner
      phase := .running } : System).Kept := by
  constructor
  · exact kept.current
  · exact kept.live
  · intro message rest impossible
    cases impossible
  · intro opened _ _
    have calm := kept.calm opened (by rw [standing]; rfl) (.inr (.inl standing))
    rw [standing] at calm
    exact calm
  · intro run member
    obtain ⟨bound, undropped, -⟩ := kept.finished run member
    exact ⟨bound, undropped, fun same => absurd same (kept.past (by rw [standing]; rfl) member)⟩

/-- Moving on within a run, from a position without a finished run. -/
theorem Kept.advance (kept : system.Kept) (phase : Phase)
    (working : system.phase.cleaning = false)
    (calm : phase.cleaning = false → system.mailbox.closed = false →
      system.cancelled = false ∨ phase = .observed →
        (system.cancelled = false ∨ system.phase = .observed) ∧
          system.phase.pending = phase.pending)
    (busy : phase ≠ .idle)
    (doomed : ∀ message rest, phase = .disposing message false rest →
      system.mailbox.closed = true ∨ system.cancelled = true) :
    ({ system with phase } : System).Kept := by
  constructor
  · exact kept.current
  · exact kept.live
  · exact doomed
  · intro opened going quiet
    simp only [busy, false_or] at quiet
    obtain ⟨before, pending⟩ := calm going opened quiet
    have old := kept.calm opened working (before.imp id .inr)
    rw [pending] at old
    exact old
  · intro run member
    obtain ⟨bound, undropped, -⟩ := kept.finished run member
    exact ⟨bound, undropped, fun same => absurd same (kept.past working member)⟩

theorem Kept.clean (kept : system.Kept) (mailbox : ControlMailbox) (phase : Phase)
    (stays : phase.cleaning = true)
    (guidance : mailbox.guidance = system.mailbox.guidance)
    (claimed : mailbox.claimed = system.mailbox.claimed)
    (dropped : mailbox.dropped = system.mailbox.dropped)
    (active : mailbox.active = system.mailbox.active) :
    ({ system with mailbox, phase } : System).Kept := by
  constructor
  · exact kept.current
  · simp only [idsAt, claimedIds, guidance, claimed]
    exact kept.live
  · rintro message rest rfl
    cases stays
  · intro _ working
    exact absurd (working.symm.trans stays) (by decide)
  · intro run member
    obtain ⟨bound, undropped, ended⟩ := kept.finished run member
    simp only [idsAt, claimed, dropped, guidance, active] at undropped ended ⊢
    exact ⟨bound, undropped, fun same => ⟨stays, (ended same).2⟩⟩

theorem Kept.claim (kept : system.Kept) (standing : system.phase = .withdrawing) :
    ({ system with
      mailbox := system.mailbox.claim.1
      phase := .delivering system.mailbox.claim.2 } : System).Kept := by
  have working : system.phase.cleaning = false := by rw [standing]; rfl
  have finished : ∀ run ∈ system.finished, run ≤ system.run ∧
      (∀ entry ∈ system.accepted, entry.2 = run → entry.1 ∉ system.idsAt .dropped) ∧
        run ≠ system.run := fun run member =>
    ⟨(kept.finished run member).1, (kept.finished run member).2.1, kept.past working member⟩
  unfold ControlMailbox.claim
  split
  · next closed =>
      constructor
      · exact kept.current
      · exact kept.live
      · intro message rest impossible
        cases impossible
      · intro opened
        exact absurd (opened.symm.trans closed) (by decide)
      · intro run member
        obtain ⟨bound, undropped, past⟩ := finished run member
        exact ⟨bound, undropped, fun same => absurd same past⟩
  · constructor
    · exact kept.current
    · intro entry member place
      refine kept.live entry member ?_
      simp only [idsAt, claimedIds, List.map_nil, List.not_mem_nil, false_or, List.map_append,
        List.map_map, Function.comp_def, List.mem_append] at place ⊢
      exact place.symm
    · intro message rest impossible
      cases impossible
    · intro opened _ calm
      simp only [reduceCtorEq, or_self, or_false] at calm
      obtain ⟨claims, undropped⟩ := kept.calm opened working (.inl calm)
      refine ⟨fun id member => ?_, undropped⟩
      simp only [mem_idsAt_claimed, claimedIds, List.map_append, List.map_map, Function.comp_def,
        List.mem_append] at member
      rcases member.1 with earlier | new
      · have old := claims id (mem_idsAt_claimed.mpr ⟨earlier, member.2⟩)
        simp [standing, Phase.pending] at old
      · exact new
    · intro run member
      obtain ⟨bound, undropped, past⟩ := finished run member
      exact ⟨bound, undropped, fun same => absurd same past⟩

/-- A delivered message leaves the open claims. -/
theorem Kept.push (kept : system.Kept) {message : Guidance} {rest : List Guidance} (phase : Phase)
    (standing : system.phase = .inspected message rest)
    (next : phase = .pushed message rest ∨ phase = .disposing message true rest) :
    ({ system with session := system.session ++ [message], phase } : System).Kept := by
  have working : system.phase.cleaning = false := by rw [standing]; rfl
  have pending : phase.pending = rest := by rcases next with rfl | rfl <;> rfl
  constructor
  · exact kept.current
  · exact kept.live
  · rintro other batch rfl
    simp at next
  · intro opened _ calm
    have quiet : system.cancelled = false := by
      rcases next with rfl | rfl <;> simpa using calm
    obtain ⟨claims, undropped⟩ := kept.calm opened working (.inl quiet)
    refine ⟨fun id member => ?_, undropped⟩
    simp only [mem_idsAt_claimed, sessionIds, List.map_append, List.map_cons, List.map_nil,
      List.mem_append, List.mem_singleton, not_or] at member
    have old := claims id (mem_idsAt_claimed.mpr ⟨member.1, member.2.1⟩)
    rw [standing] at old
    rw [pending]
    exact (List.mem_cons.mp old).resolve_left member.2.2
  · intro run member
    obtain ⟨bound, undropped, -⟩ := kept.finished run member
    exact ⟨bound, undropped, fun same => absurd same (kept.past working member)⟩

theorem Kept.mark (kept : system.Kept) {message : Guidance} {rest : List Guidance}
    {before behind : List (GuidanceId × Bool)} {flag : Bool}
    (standing : system.phase = .pushed message rest)
    (split : system.mailbox.claimed = before ++ (message.id, flag) :: behind) :
    ({ system with
      mailbox := { system.mailbox with claimed := before ++ (message.id, true) :: behind }
      phase := .disposing message true rest } : System).Kept := by
  have working : system.phase.cleaning = false := by rw [standing]; rfl
  have ids : (before ++ (message.id, true) :: behind).map (·.1) = system.claimedIds := by
    simp [claimedIds, split]
  constructor
  · exact kept.current
  · simp only [claimedIds] at ids ⊢
    rw [ids]
    exact kept.live
  · intro other batch impossible
    cases impossible
  · intro opened _ calm
    obtain ⟨claims, undropped⟩ := kept.calm opened working (.inl (by simpa using calm))
    refine ⟨fun id member => ?_, undropped⟩
    obtain ⟨claimed, absent⟩ := mem_idsAt_claimed.mp member
    simp only [claimedIds] at ids claimed
    rw [ids] at claimed
    have old := claims id (mem_idsAt_claimed.mpr ⟨claimed, absent⟩)
    rw [standing] at old
    exact old
  · intro run member
    obtain ⟨bound, undropped, -⟩ := kept.finished run member
    exact ⟨bound, undropped, fun same => absurd same (kept.past working member)⟩

theorem Kept.complete (kept : system.Kept) {message : Guidance} {delivered : Bool}
    {rest : List Guidance} {before behind : List (GuidanceId × Bool)}
    (standing : system.phase = .disposing message delivered rest)
    (split : system.mailbox.claimed = before ++ (message.id, delivered) :: behind) :
    ({ system with
      mailbox := { system.mailbox with claimed := before ++ behind }
      phase := .delivering rest
      dropped := if delivered then system.dropped else system.dropped ++ [message.id] } :
        System).Kept := by
  have working : system.phase.cleaning = false := by rw [standing]; rfl
  have fewer : ∀ id, id ∈ (before ++ behind).map (·.1) → id ∈ system.claimedIds := by
    intro id member
    simp only [claimedIds, split, List.map_append, List.map_cons, List.mem_append,
      List.mem_cons] at member ⊢
    tauto
  constructor
  · exact kept.current
  · intro entry member place
    exact kept.live entry member (place.imp id (fewer entry.1))
  · intro other batch impossible
    cases impossible
  · intro opened _ calm
    simp only [reduceCtorEq, or_self, or_false] at calm
    cases delivered with
    | false =>
        rcases kept.doomed message rest standing with closed | cancelled
        · exact absurd (opened.symm.trans closed) (by decide)
        · exact absurd (calm.symm.trans cancelled) (by decide)
    | true =>
        obtain ⟨claims, undropped⟩ := kept.calm opened working (.inl calm)
        refine ⟨fun id member => ?_, undropped⟩
        obtain ⟨claimed, absent⟩ := mem_idsAt_claimed.mp member
        have old := claims id (mem_idsAt_claimed.mpr ⟨fewer id claimed, absent⟩)
        rw [standing] at old
        exact old
  · intro run member
    obtain ⟨bound, undropped, -⟩ := kept.finished run member
    have past := kept.past working member
    refine ⟨bound, ?_, fun same => absurd same past⟩
    intro entry accepted same dropped
    cases delivered with
    | true => exact undropped entry accepted same dropped
    | false =>
        simp only [idsAt, Bool.false_eq_true, if_false, ← List.append_assoc] at dropped
        rcases List.mem_append.mp dropped with earlier | last
        · exact undropped entry accepted same earlier
        · refine past (same.symm.trans (kept.live entry accepted (.inr ?_)))
          rw [List.mem_singleton.mp last]
          simp [claimedIds, split]

theorem Kept.pass (kept : system.Kept) {message : Guidance} {delivered : Bool}
    {rest : List Guidance} (standing : system.phase = .disposing message delivered rest) :
    ({ system with phase := .delivering rest } : System).Kept := by
  refine kept.advance _ (by rw [standing]; rfl) (fun _ opened calm => ?_) (by simp) (by simp)
  simp only [reduceCtorEq, or_false] at calm
  refine ⟨.inl calm, ?_⟩
  cases delivered with
  | true => rw [standing]; rfl
  | false =>
      rcases kept.doomed message rest standing with closed | cancelled
      · exact absurd (opened.symm.trans closed) (by decide)
      · exact absurd (calm.symm.trans cancelled) (by decide)

/-- `finish_if_idle` returned true on an open mailbox. -/
theorem Kept.finish (kept : system.Kept) (standing : system.phase = .observed)
    (opened : system.mailbox.closed = false) (empty : system.mailbox.guidance = []) :
    ({ system with
      mailbox := { system.mailbox with active := false }
      phase := .closing
      finished := system.finished ++ [system.run] } : System).Kept := by
  have working : system.phase.cleaning = false := by rw [standing]; rfl
  obtain ⟨claims, undropped⟩ := kept.calm opened working (.inr (.inr standing))
  rw [standing] at claims
  constructor
  · exact kept.current
  · exact kept.live
  · intro message rest impossible
    cases impossible
  · intro _ impossible
    cases impossible
  · intro run member
    rcases List.mem_append.mp member with earlier | last
    · obtain ⟨bound, before, -⟩ := kept.finished run earlier
      exact ⟨bound, before, fun same => absurd same (kept.past working earlier)⟩
    · obtain rfl := List.mem_singleton.mp last
      refine ⟨Nat.le_refl _, undropped, fun _ => ⟨rfl, empty, rfl, ?_⟩⟩
      exact List.eq_nil_iff_forall_not_mem.mpr fun id claimed =>
        absurd (claims id claimed) List.not_mem_nil

theorem Kept.finish_closed (kept : system.Kept) (standing : system.phase = .observed) :
    ({ system with
      mailbox := { system.mailbox with active := false }, phase := .closing } : System).Kept := by
  have working : system.phase.cleaning = false := by rw [standing]; rfl
  constructor
  · exact kept.current
  · exact kept.live
  · intro message rest impossible
    cases impossible
  · intro _ impossible
    cases impossible
  · intro run member
    obtain ⟨bound, before, -⟩ := kept.finished run member
    exact ⟨bound, before, fun same => absurd same (kept.past working member)⟩

private theorem Kept.undropped_claims (kept : system.Kept)
    (settled : ∀ id, (id, false) ∈ system.mailbox.claimed → id ∉ system.sessionIds) {run : Nat}
    (member : run ∈ system.finished) {entry : GuidanceId × Nat} (accepted : entry ∈ system.accepted)
    (same : entry.2 = run) : entry.1 ∉ (system.mailbox.claimed.filter (!·.2)).map (·.1) := by
  intro dropped
  obtain ⟨⟨id, flag⟩, kept', equal⟩ := List.mem_map.mp dropped
  obtain ⟨claimed, unmarked⟩ := List.mem_filter.mp kept'
  obtain rfl : flag = false := by simpa using unmarked
  obtain rfl : id = entry.1 := equal
  have current := kept.live entry accepted (.inr (List.mem_map.mpr ⟨_, claimed, rfl⟩))
  have none := ((kept.finished run member).2.2 (same.symm.trans current)).2.2.2
  have opened : entry.1 ∈ system.idsAt .claimed :=
    mem_idsAt_claimed.mpr ⟨List.mem_map.mpr ⟨_, claimed, rfl⟩, settled _ claimed⟩
  rw [none] at opened
  cases opened

theorem Kept.finishClaims (kept : system.Kept)
    (settled : ∀ id, (id, false) ∈ system.mailbox.claimed → id ∉ system.sessionIds) :
    ({ system with
      mailbox := system.mailbox.finishClaims.1
      phase := .ending
      dropped := system.dropped ++ (system.mailbox.claimed.filter (!·.2)).map (·.1) } :
        System).Kept := by
  constructor
  · exact kept.current
  · intro entry member place
    refine kept.live entry member (.inl ?_)
    simpa [idsAt, claimedIds, ControlMailbox.finishClaims] using place
  · intro message rest impossible
    cases impossible
  · intro _ impossible
    cases impossible
  · intro run member
    obtain ⟨bound, undropped, ended⟩ := kept.finished run member
    refine ⟨bound, ?_, fun same => ?_⟩
    · intro entry accepted same dropped
      simp only [idsAt, ControlMailbox.finishClaims, ← List.append_assoc] at dropped
      rcases List.mem_append.mp dropped with earlier | claimed
      · exact undropped entry accepted same earlier
      · exact kept.undropped_claims settled member accepted same claimed
    · obtain ⟨-, empty, inactive, -⟩ := ended same
      exact ⟨rfl, empty, inactive, rfl⟩

theorem Kept.endRun (kept : system.Kept)
    (settled : ∀ id, (id, false) ∈ system.mailbox.claimed → id ∉ system.sessionIds) :
    ({ system with
      mailbox := system.mailbox.endRun.1
      phase := .idle
      run := system.run + 1
      dropped := system.dropped ++ system.mailbox.endRun.2 } : System).Kept := by
  constructor
  · intro entry member
    exact Nat.le_succ_of_le (kept.current entry member)
  · intro entry _ place
    simp [idsAt, claimedIds, ControlMailbox.endRun] at place
  · intro message rest impossible
    cases impossible
  · intro _ _ _
    refine ⟨fun id claimed => ?_, fun entry member same => ?_⟩
    · simp [mem_idsAt_claimed, claimedIds, ControlMailbox.endRun] at claimed
    · exact absurd (same ▸ kept.current entry member) (Nat.not_succ_le_self _)
  · intro run member
    obtain ⟨bound, undropped, ended⟩ := kept.finished run member
    refine ⟨Nat.le_succ_of_le bound, ?_, fun same =>
      absurd (same ▸ bound) (Nat.not_succ_le_self _)⟩
    intro entry accepted same dropped
    simp only [idsAt, ControlMailbox.endRun, List.nil_append, List.mem_append] at dropped
    rcases dropped with reported | (pending | claimed) | queued
    · exact undropped entry accepted same (List.mem_append_right _ reported)
    · exact undropped entry accepted same (List.mem_append_left _ pending)
    · exact kept.undropped_claims settled member accepted same claimed
    · have current := kept.live entry accepted (.inl queued)
      have none := (ended (same.symm.trans current)).2.1
      simp [none] at queued

end Kvist.Runtime.System
