import Kvist.Runtime.ControlProperties
import Kvist.Runtime.GuidanceRuns
import Mathlib.Data.List.Nodup

/-!
# Accounting for guidance

Every accepted message is counted at exactly one place. What an operation moves from one place
to another leaves the sum over the places unchanged.
-/

set_option autoImplicit false

namespace Kvist.Runtime.System

def claimedIds (system : System) : List GuidanceId := system.mailbox.claimed.map (·.1)

/-- How often a message is claimed without being in the conversation. -/
def openCount (session claims : List GuidanceId) (id : GuidanceId) : Nat :=
  if id ∈ session then 0 else claims.count id

/-- How often a message occurs at the places together. -/
def occurrences (system : System) (id : GuidanceId) : Nat :=
  (system.mailbox.guidance.map (·.id)).count id +
    openCount system.sessionIds system.claimedIds id +
    system.sessionIds.count id + system.withdrawn.count id +
    (system.mailbox.dropped.count id + system.dropped.count id)

structure Accounted (system : System) : Prop where
  increasing : (system.submissions.map (·.id)).Pairwise (· < ·)
  issued : ∀ submission ∈ system.submissions, submission.id ≤ system.mailbox.sequence
  submitted : system.acceptedIds.Sublist (system.submissions.map (·.id))
  once : ∀ id, system.occurrences id = system.acceptedIds.count id
  unique : system.claimedIds.Nodup
  marked : ∀ id, (id, true) ∈ system.mailbox.claimed → id ∈ system.sessionIds

theorem openCount_of_mem {session claims : List GuidanceId} {id : GuidanceId}
    (member : id ∈ session) : openCount session claims id = 0 := if_pos member

theorem openCount_of_not_mem {session claims : List GuidanceId} {id : GuidanceId}
    (absent : id ∉ session) : openCount session claims id = claims.count id := if_neg absent

@[simp] theorem openCount_nil (session : List GuidanceId) (id : GuidanceId) :
    openCount session [] id = 0 := by
  simp [openCount]

/-! ## What the counts say -/

theorem Accounted.distinct {system : System} (accounted : system.Accounted) :
    system.acceptedIds.Nodup :=
  (accounted.increasing.imp fun less => Nat.ne_of_lt less).sublist accounted.submitted

theorem Accounted.occurrences_le_one {system : System} (accounted : system.Accounted)
    (id : GuidanceId) : system.occurrences id ≤ 1 := by
  rw [accounted.once]
  exact List.nodup_iff_count_le_one.mp accounted.distinct id

theorem Accounted.issued_id {system : System} (accounted : system.Accounted) {id : GuidanceId}
    (member : id ∈ system.acceptedIds) : id ≤ system.mailbox.sequence := by
  obtain ⟨submission, submitted, rfl⟩ := List.mem_map.mp (accounted.submitted.subset member)
  exact accounted.issued submission submitted

theorem Accounted.accepted_of_occurs {system : System} (accounted : system.Accounted)
    {id : GuidanceId} (occurs : 0 < system.occurrences id) : id ∈ system.acceptedIds := by
  rw [accounted.once] at occurs
  exact List.count_pos_iff.mp occurs

/-- A number beyond the sequence has not been used anywhere. -/
theorem Accounted.fresh {system : System} (accounted : system.Accounted) {id : GuidanceId}
    (beyond : system.mailbox.sequence < id) : system.occurrences id = 0 := by
  rcases Nat.eq_zero_or_pos (system.occurrences id) with none | occurs
  · exact none
  · exact absurd (accounted.issued_id (accounted.accepted_of_occurs occurs)) (Nat.not_le.mpr beyond)

theorem Accounted.queued_elsewhere {system : System} (accounted : system.Accounted)
    {id : GuidanceId} (queued : id ∈ system.mailbox.guidance.map (·.id)) :
    id ∉ system.claimedIds ∧ id ∉ system.sessionIds := by
  have bound := accounted.occurrences_le_one id
  have present := List.count_pos_iff.mpr queued
  unfold occurrences at bound
  have absent : id ∉ system.sessionIds := by
    intro member
    have counted := List.count_pos_iff.mpr member
    omega
  refine ⟨fun member => ?_, absent⟩
  have counted := List.count_pos_iff.mpr member
  rw [openCount_of_not_mem absent] at bound
  omega

theorem count_idsAt_claimed (system : System) (id : GuidanceId) :
    (system.idsAt .claimed).count id = openCount system.sessionIds system.claimedIds id := by
  by_cases member : id ∈ system.sessionIds
  · rw [openCount_of_mem member]
    exact List.count_eq_zero.mpr fun kept => by simp [idsAt, member] at kept
  · rw [openCount_of_not_mem member]
    exact List.count_filter (by simpa using member)

theorem mem_idsAt_claimed {system : System} {id : GuidanceId} :
    id ∈ system.idsAt .claimed ↔ id ∈ system.claimedIds ∧ id ∉ system.sessionIds := by
  simp [idsAt, claimedIds]

theorem occurrences_eq (system : System) (id : GuidanceId) :
    system.occurrences id = (system.idsAt .queued).count id + (system.idsAt .claimed).count id +
      (system.idsAt .delivered).count id + (system.idsAt .withdrawn).count id +
      (system.idsAt .dropped).count id := by
  rw [count_idsAt_claimed]
  simp [occurrences, idsAt, List.count_append]

theorem Accounted.idsAt_nodup {system : System} (accounted : system.Accounted) (place : Place) :
    (system.idsAt place).Nodup := by
  apply List.nodup_iff_count_le_one.mpr
  intro id
  have bound := accounted.occurrences_le_one id
  rw [occurrences_eq] at bound
  cases place <;> omega

theorem Accounted.existsUnique_place {system : System} (accounted : system.Accounted)
    {id : GuidanceId} (member : id ∈ system.acceptedIds) : ∃! place, id ∈ system.idsAt place := by
  have one : system.occurrences id = 1 := by
    rw [accounted.once]
    exact List.count_eq_one_of_mem accounted.distinct member
  rw [occurrences_eq] at one
  simp only [← List.count_pos_iff]
  have counted : ∃ place, 0 < (system.idsAt place).count id := by
    by_contra absent
    simp only [not_exists, Nat.not_lt, Nat.le_zero] at absent
    have queued := absent .queued
    have claimed := absent .claimed
    have delivered := absent .delivered
    have withdrawn := absent .withdrawn
    have dropped := absent .dropped
    omega
  obtain ⟨place, here⟩ := counted
  refine ⟨place, here, fun other there => ?_⟩
  simp only at there
  cases place <;> cases other <;> first | rfl | omega

/-! ## Client operations -/

theorem Accounted.next_issued {system : System} (accounted : system.Accounted)
    (kind : SubmissionKind) :
    let submissions := system.submissions ++ [⟨system.mailbox.sequence + 1, kind⟩]
    (submissions.map (·.id)).Pairwise (· < ·) ∧
      ∀ submission ∈ submissions, submission.id ≤ system.mailbox.sequence + 1 := by
  intro submissions
  constructor
  · rw [List.map_append]
    refine List.pairwise_append.mpr ⟨accounted.increasing, List.pairwise_singleton _ _, ?_⟩
    intro id member last same
    obtain ⟨submission, submitted, rfl⟩ := List.mem_map.mp member
    obtain rfl := List.mem_singleton.mp same
    exact Nat.lt_succ_of_le (accounted.issued submission submitted)
  · intro submission member
    rcases List.mem_append.mp member with earlier | last
    · exact Nat.le_succ_of_le (accounted.issued submission earlier)
    · rw [List.mem_singleton.mp last]

theorem Accounted.record_guidance {system : System} (accounted : system.Accounted)
    {text : String} {bytes : Nat} :
    (system.record
      { system.mailbox with
        sequence := system.mailbox.sequence + 1
        bytes
        guidance := system.mailbox.guidance ++ [⟨system.mailbox.sequence + 1, text⟩] }
      ⟨system.mailbox.sequence + 1, .guidance⟩).Accounted where
  increasing := (accounted.next_issued _).1
  issued := (accounted.next_issued _).2
  submitted := by
    simp only [record, acceptedIds, List.map_append, List.map_cons, List.map_nil]
    exact accounted.submitted.append (List.Sublist.refl _)
  once := by
    intro id
    have before := accounted.once id
    simp only [occurrences, acceptedIds, claimedIds, sessionIds, record, List.map_append,
      List.map_cons, List.map_nil, List.count_append] at before ⊢
    omega
  unique := accounted.unique
  marked := accounted.marked

theorem Accounted.record_task {system : System} (accounted : system.Accounted) {bytes : Nat}
    {tasks : List Guidance} :
    (system.record
      { system.mailbox with sequence := system.mailbox.sequence + 1, bytes, tasks }
      ⟨system.mailbox.sequence + 1, .task⟩).Accounted where
  increasing := (accounted.next_issued _).1
  issued := (accounted.next_issued _).2
  submitted := by
    simp only [record, List.map_append]
    exact accounted.submitted.trans (List.sublist_append_left _ _)
  once := accounted.once
  unique := accounted.unique
  marked := accounted.marked

theorem Accounted.keep {system : System} (accounted : system.Accounted)
    (mailbox : ControlMailbox) (sequence : mailbox.sequence = system.mailbox.sequence)
    (guidance : mailbox.guidance.map (·.id) = system.mailbox.guidance.map (·.id))
    (claimed : mailbox.claimed = system.mailbox.claimed)
    (dropped : mailbox.dropped = system.mailbox.dropped) :
    ({ system with mailbox } : System).Accounted where
  increasing := accounted.increasing
  issued := by
    rw [sequence]
    exact accounted.issued
  submitted := accounted.submitted
  once := by
    intro id
    have before := accounted.once id
    simp only [occurrences, acceptedIds, claimedIds, sessionIds, guidance, claimed, dropped]
      at before ⊢
    exact before
  unique := by
    simp only [claimedIds, claimed]
    exact accounted.unique
  marked := by
    simp only [claimed]
    exact accounted.marked

theorem Accounted.withdraw {system : System} (accounted : system.Accounted)
    {before behind : List Guidance} {message : Guidance} {bytes : Nat}
    {withdrawn : List GuidanceId}
    (split : system.mailbox.guidance = before ++ message :: behind) :
    ({ system with
      mailbox := { system.mailbox with guidance := before ++ behind, bytes, withdrawn }
      withdrawn := system.withdrawn ++ [message.id] } : System).Accounted where
  increasing := accounted.increasing
  issued := accounted.issued
  submitted := accounted.submitted
  once := by
    intro id
    have counted := accounted.once id
    simp only [occurrences, acceptedIds, claimedIds, sessionIds, split, List.map_append,
      List.map_cons, List.count_append, List.count_cons, List.count_nil] at counted ⊢
    omega
  unique := accounted.unique
  marked := accounted.marked

theorem Accounted.shutdown {system : System} (accounted : system.Accounted) :
    ({ system with mailbox := system.mailbox.shutdown } : System).Accounted where
  increasing := accounted.increasing
  issued := accounted.issued
  submitted := accounted.submitted
  once := by
    intro id
    have counted := accounted.once id
    simp only [occurrences, acceptedIds, claimedIds, sessionIds, ControlMailbox.shutdown,
      List.map_nil, List.count_nil, List.count_append] at counted ⊢
    omega
  unique := accounted.unique
  marked := accounted.marked

/-! ## Owner operations -/

theorem Accounted.claim {system : System} (accounted : system.Accounted) :
    ({ system with mailbox := system.mailbox.claim.1 } : System).Accounted := by
  unfold ControlMailbox.claim
  split
  · exact accounted
  · have entries : (system.mailbox.claimed ++
        system.mailbox.guidance.map fun message => (message.id, false)).map (·.1) =
          system.claimedIds ++ system.mailbox.guidance.map (·.id) := by
      simp [claimedIds, Function.comp_def]
    constructor
    · exact accounted.increasing
    · exact accounted.issued
    · exact accounted.submitted
    · intro id
      have counted := accounted.once id
      have elsewhere := @Accounted.queued_elsewhere _ accounted id
      have absent : id ∉ system.mailbox.guidance.map (·.id) →
          (system.mailbox.guidance.map (·.id)).count id = 0 := List.count_eq_zero.mpr
      simp only [occurrences, acceptedIds, claimedIds, sessionIds, List.map_nil, List.count_nil]
        at counted elsewhere entries ⊢
      rw [entries]
      by_cases queued : id ∈ system.mailbox.guidance.map (·.id)
      · rw [openCount_of_not_mem (elsewhere queued).2] at counted ⊢
        rw [List.count_append]
        omega
      · simp only [openCount, List.count_append, absent queued] at counted ⊢
        exact counted
    · rw [claimedIds, entries]
      refine List.nodup_append.mpr ⟨accounted.unique, accounted.idsAt_nodup .queued, ?_⟩
      intro id claimed other queued same
      exact (accounted.queued_elsewhere queued).1 (same ▸ claimed)
    · intro id member
      simp only [List.mem_append, List.mem_map, Prod.mk.injEq, Bool.false_eq_true, and_false,
        exists_false, or_false] at member
      exact accounted.marked id member

theorem Accounted.push {system : System} (accounted : system.Accounted) {message : Guidance}
    (claimed : (message.id, false) ∈ system.mailbox.claimed)
    (absent : message.id ∉ system.sessionIds) :
    ({ system with session := system.session ++ [message] } : System).Accounted where
  increasing := accounted.increasing
  issued := accounted.issued
  submitted := accounted.submitted
  once := by
    intro id
    have counted := accounted.once id
    have once : system.claimedIds.count message.id = 1 :=
      List.count_eq_one_of_mem accounted.unique (List.mem_map.mpr ⟨_, claimed, rfl⟩)
    simp only [occurrences, acceptedIds, claimedIds, sessionIds, openCount, List.map_append,
      List.map_cons, List.map_nil, List.count_append, List.mem_append, List.mem_singleton,
      List.count_singleton] at once absent counted ⊢
    by_cases same : id = message.id
    · subst same
      simp only [absent, or_true, if_true, if_false, beq_self_eq_true, once] at counted ⊢
      omega
    · simpa [same, Ne.symm same] using counted
  unique := accounted.unique
  marked := by
    intro id member
    simp only [sessionIds, List.map_append, List.mem_append]
    exact .inl (accounted.marked id member)

theorem Accounted.mark {system : System} (accounted : system.Accounted)
    {before behind : List (GuidanceId × Bool)} {id : GuidanceId} {flag : Bool}
    (split : system.mailbox.claimed = before ++ (id, flag) :: behind)
    (delivered : id ∈ system.sessionIds) :
    ({ system with
      mailbox := { system.mailbox with claimed := before ++ (id, true) :: behind } } : System).Accounted where
  increasing := accounted.increasing
  issued := accounted.issued
  submitted := accounted.submitted
  once := by
    intro other
    have counted := accounted.once other
    simp only [occurrences, acceptedIds, claimedIds, sessionIds, split, List.map_append,
      List.map_cons] at counted ⊢
    exact counted
  unique := by
    have unique := accounted.unique
    simp only [claimedIds, split, List.map_append, List.map_cons] at unique ⊢
    exact unique
  marked := by
    have marked := accounted.marked
    simp only [split] at marked
    intro other member
    simp only [List.mem_append, List.mem_cons, Prod.mk.injEq, and_true] at member
    rcases member with front | rfl | back
    · exact marked other (by simp [front])
    · exact delivered
    · exact marked other (by simp [back])

/-- A completed claim was delivered, or it is dropped now. -/
theorem Accounted.complete {system : System} (accounted : system.Accounted)
    {before behind : List (GuidanceId × Bool)} {id : GuidanceId} {flag : Bool}
    (split : system.mailbox.claimed = before ++ (id, flag) :: behind)
    (undelivered : flag = false → id ∉ system.sessionIds) :
    ({ system with
      mailbox := { system.mailbox with claimed := before ++ behind }
      dropped := if flag then system.dropped else system.dropped ++ [id] } : System).Accounted where
  increasing := accounted.increasing
  issued := accounted.issued
  submitted := accounted.submitted
  once := by
    intro other
    have counted := accounted.once other
    have delivered : flag = true → id ∈ system.sessionIds := by
      rintro rfl
      exact accounted.marked id (by simp [split])
    simp only [occurrences, acceptedIds, claimedIds, sessionIds, openCount, split,
      List.map_append, List.map_cons, List.count_append, List.count_cons]
      at counted delivered undelivered ⊢
    cases flag with
    | true =>
        by_cases same : id = other
        · subst same
          simpa [delivered rfl] using counted
        · simpa [same] using counted
    | false =>
        by_cases same : id = other
        · subst same
          simp only [undelivered rfl, if_false, Bool.false_eq_true, List.count_append,
            List.count_singleton, beq_self_eq_true, if_true] at counted ⊢
          omega
        · simpa [same, List.count_append] using counted
  unique := by
    have unique := accounted.unique
    simp only [claimedIds, split, List.map_append, List.map_cons] at unique ⊢
    exact unique.sublist ((List.Sublist.refl _).append (List.sublist_cons_self _ _))
  marked := by
    have marked := accounted.marked
    simp only [split] at marked
    intro other member
    apply marked
    simp only [List.mem_append, List.mem_cons] at member ⊢
    tauto

/-- The claims that are neither marked nor delivered are the open ones. -/
theorem count_unmarked {claims : List (GuidanceId × Bool)} {session : List GuidanceId}
    (marked : ∀ id, (id, true) ∈ claims → id ∈ session)
    (settled : ∀ id, (id, false) ∈ claims → id ∉ session) (id : GuidanceId) :
    ((claims.filter (!·.2)).map (·.1)).count id =
      openCount session (claims.map (·.1)) id := by
  unfold openCount
  induction claims with
  | nil => simp
  | cons claim rest ih =>
      obtain ⟨first, flag⟩ := claim
      have ih := ih (fun other member => marked other (List.mem_cons_of_mem _ member))
        fun other member => settled other (List.mem_cons_of_mem _ member)
      cases flag with
      | true =>
          have delivered := marked first (List.mem_cons_self ..)
          simp only [List.filter_cons, Bool.not_true, Bool.false_eq_true, if_false, List.map_cons]
          rw [ih]
          split
          · rfl
          · next absent =>
              rw [List.count_cons_of_ne]
              rintro rfl
              exact absent delivered
      | false =>
          have open' := settled first (List.mem_cons_self ..)
          simp only [List.filter_cons, Bool.not_false, if_true, List.map_cons, List.count_cons]
          rw [ih]
          split
          · next delivered =>
              have other : first ≠ id := fun same => open' (same ▸ delivered)
              simp [other]
          · rfl

theorem noticed_dropped (claims : List (GuidanceId × Bool)) :
    ((claims.map fun entry => (⟨entry.1, if entry.2 then .delivered else .dropped⟩ :
      GuidanceNotice)).filter (·.state = .dropped)).map (·.id) =
      (claims.filter (!·.2)).map (·.1) := by
  induction claims with
  | nil => rfl
  | cons claim rest ih =>
      obtain ⟨id, flag⟩ := claim
      cases flag <;> simpa using ih

theorem Accounted.finishClaims {system : System} (accounted : system.Accounted)
    (settled : ∀ id, (id, false) ∈ system.mailbox.claimed → id ∉ system.sessionIds) :
    ({ system with
      mailbox := system.mailbox.finishClaims.1
      dropped := system.dropped ++ (system.mailbox.claimed.filter (!·.2)).map (·.1) } :
        System).Accounted where
  increasing := accounted.increasing
  issued := accounted.issued
  submitted := accounted.submitted
  once := by
    intro id
    have counted := accounted.once id
    have drained := count_unmarked accounted.marked settled id
    simp only [occurrences, acceptedIds, claimedIds, sessionIds, ControlMailbox.finishClaims,
      List.map_nil, List.count_append, openCount_nil] at counted drained ⊢
    omega
  unique := List.nodup_nil
  marked := by
    intro id member
    cases member

theorem Accounted.endRun {system : System} (accounted : system.Accounted)
    (settled : ∀ id, (id, false) ∈ system.mailbox.claimed → id ∉ system.sessionIds) :
    ({ system with
      mailbox := system.mailbox.endRun.1
      dropped := system.dropped ++ system.mailbox.endRun.2 } : System).Accounted where
  increasing := accounted.increasing
  issued := accounted.issued
  submitted := accounted.submitted
  once := by
    intro id
    have counted := accounted.once id
    have drained := count_unmarked accounted.marked settled id
    simp only [occurrences, acceptedIds, claimedIds, sessionIds, ControlMailbox.endRun,
      List.map_nil, List.count_nil, List.count_append, openCount_nil] at counted drained ⊢
    omega
  unique := List.nodup_nil
  marked := by
    intro id member
    cases member

end Kvist.Runtime.System
