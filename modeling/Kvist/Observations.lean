import Mathlib.Data.List.Basic
import Mathlib.Data.List.Nodup
import Kvist.Transitions

/-!
# Observations that are found by an identity

What was observed of an execution waits in a queue with room for so many observations. It is found
again by the identity of the execution only, so executions that share it and wait at the same time
are ambiguous. The history says which execution waits, and which met another of its identity.
-/

set_option autoImplicit false

namespace Kvist.Observations

structure Observation (Identity Evidence : Type) where
  identity : Identity
  evidence : Evidence

section Queue

variable {Identity Evidence : Type} [DecidableEq Identity]

/-- Keeps one observation more. Those of the same identity are ambiguous from now on, with the new
one, and the oldest is given up where there is no room. -/
def record (capacity : Nat) (ambiguous : Evidence) (pending : List (Observation Identity Evidence))
    (identity : Identity) (evidence : Evidence) : List (Observation Identity Evidence) :=
  let marked := pending.map fun entry =>
    if entry.identity = identity then { entry with evidence := ambiguous } else entry
  let evidence := if pending.any (·.identity = identity) then ambiguous else evidence
  let kept := if marked.length = capacity then marked.drop 1 else marked
  kept ++ [⟨identity, evidence⟩]

/-- The first observation of this identity, which is no longer kept. -/
def take (absent : Evidence) (pending : List (Observation Identity Evidence))
    (identity : Identity) : Evidence × List (Observation Identity Evidence) :=
  match pending.find? (·.identity = identity) with
  | none => (absent, pending)
  | some entry => (entry.evidence, pending.eraseP (·.identity = identity))

theorem identity_marked (identity : Identity) (ambiguous : Evidence)
    (entry : Observation Identity Evidence) :
    (if entry.identity = identity then { entry with evidence := ambiguous }
      else entry).identity = entry.identity := by
  split <;> rfl

/-- The new observation is the last one, behind some of those that were kept. -/
theorem record_eq (capacity : Nat) (ambiguous : Evidence)
    (pending : List (Observation Identity Evidence)) (identity : Identity) (evidence : Evidence) :
    ∃ front last, record capacity ambiguous pending identity evidence = front ++ [last] ∧
      front.Sublist (pending.map fun entry =>
        if entry.identity = identity then { entry with evidence := ambiguous } else entry) ∧
      last.identity = identity := by
  refine ⟨_, _, rfl, ?_, rfl⟩
  split
  · exact List.drop_sublist 1 _
  · exact List.Sublist.refl _

/-- Nothing of the identity is kept, or the first of it is given out. -/
theorem take_cases (absent : Evidence) (pending : List (Observation Identity Evidence))
    (identity : Identity) :
    (take absent pending identity = (absent, pending) ∧
        ∀ entry ∈ pending, entry.identity ≠ identity) ∨
      ∃ front entry back, pending = front ++ entry :: back ∧
        take absent pending identity = (entry.evidence, front ++ back) ∧
        entry.identity = identity ∧ ∀ earlier ∈ front, earlier.identity ≠ identity := by
  cases found : pending.find? (·.identity = identity) with
  | none =>
      refine .inl ⟨by rw [take, found], fun entry member => ?_⟩
      simpa using List.find?_eq_none.mp found entry member
  | some entry =>
      obtain ⟨same, front, back, whole, others⟩ := List.find?_eq_some_iff_append.mp found
      have same := of_decide_eq_true same
      have others : ∀ earlier ∈ front, earlier.identity ≠ identity := by simpa using others
      refine .inr ⟨front, entry, back, whole, ?_, same, others⟩
      rw [take, found, whole, List.eraseP_append_right _ (by simpa using others),
        List.eraseP_cons_of_pos (by simpa using same)]

end Queue

/-- Executions by their names: what they are found by, and what was observed of them, if it was. -/
structure System (Name Identity Evidence : Type) where
  capacity : Nat
  room : 0 < capacity
  ambiguous : Evidence
  absent : Evidence
  identity : Name → Identity
  evidence : Name → Option Evidence

inductive Event (Name : Type) where
  | execute (name : Name)
  | ask (name : Name)
  deriving DecidableEq

structure State (Name Identity Evidence : Type) where
  pending : List (Observation Identity Evidence)
  history : List (Event Name)

namespace System

variable {Name Identity Evidence : Type} (system : System Name Identity Evidence)

/-! ## What the history tells, with the last event first -/

def Waiting : List (Event Name) → Name → Prop
  | [], _ => False
  | .execute other :: earlier, name =>
      (other = name ∧ (system.evidence name).isSome) ∨ Waiting earlier name
  | .ask other :: earlier, name => other ≠ name ∧ Waiting earlier name

def Ambiguous : List (Event Name) → Name → Prop
  | [], _ => False
  | .execute other :: earlier, name =>
      (other = name ∧ (system.evidence name).isSome ∧
        ∃ met, system.Waiting earlier met ∧ system.identity met = system.identity name) ∨
      (system.Waiting earlier name ∧ (system.evidence other).isSome ∧
        system.identity other = system.identity name) ∨
      Ambiguous earlier name
  | .ask other :: earlier, name => other ≠ name ∧ Ambiguous earlier name

/-- The number of observations that were recorded after that of this execution. -/
def recordedSince [DecidableEq Name] : List (Event Name) → Name → Nat
  | [], _ => 0
  | .execute other :: earlier, name =>
      if other = name then 0
      else recordedSince earlier name + if (system.evidence other).isSome then 1 else 0
  | .ask _ :: earlier, name => recordedSince earlier name

/-- The answer is the execution's own observation, or none where it was given up for so many later
ones as there is room for. Ambiguous executions are refused, and nothing is answered twice. -/
structure Answered [DecidableEq Name] (history : List (Event Name)) (name : Name)
    (answer : Evidence) : Prop where
  ambiguous : system.Ambiguous history name → answer = system.ambiguous
  own : system.Waiting history name → ¬system.Ambiguous history name →
    some answer = system.evidence name ∨
      (answer = system.absent ∧ system.capacity ≤ system.recordedSince history name)
  absent : ¬system.Waiting history name → answer = system.absent

/-! ## Runs -/

def start : State Name Identity Evidence := ⟨[], []⟩

variable [DecidableEq Name] [DecidableEq Identity]

/-- An execution happens once, and is asked for at any time. -/
def step (state : State Name Identity Evidence) :
    Event Name → Option (State Name Identity Evidence)
  | .execute name =>
      if .execute name ∈ state.history then none
      else
        let pending := match system.evidence name with
          | none => state.pending
          | some evidence =>
              record system.capacity system.ambiguous state.pending (system.identity name) evidence
        some ⟨pending, .execute name :: state.history⟩
  | .ask name =>
      some ⟨(take system.absent state.pending (system.identity name)).2, .ask name :: state.history⟩

/-- No execution is recorded while one of its identity waits in vain, and what is given up for it
is of no ambiguous execution. What is asked for waits, or nothing of its identity is kept. -/
def Separate (state : State Name Identity Evidence) : Event Name → Prop
  | .execute name => (system.evidence name).isSome →
      (∀ other, system.Waiting state.history other → system.identity other = system.identity name →
        ∃ entry ∈ state.pending, entry.identity = system.identity name) ∧
      (state.pending.length = system.capacity → ∀ oldest ∈ state.pending.head?,
        oldest.identity ≠ system.identity name ∧
          ∀ other, system.Ambiguous state.history other → system.identity other ≠ oldest.identity)
  | .ask name => system.Waiting state.history name ∨
      ∀ entry ∈ state.pending, entry.identity ≠ system.identity name

end System

section History

variable {Name Identity Evidence : Type} {system : System Name Identity Evidence}
variable {history : List (Event Name)} {name other : Name}

theorem executed_of_waiting (waiting : system.Waiting history name) : .execute name ∈ history := by
  induction history with
  | nil => cases waiting
  | cons event earlier ih =>
      cases event with
      | execute first =>
          rcases waiting with ⟨rfl, -⟩ | waiting
          · exact List.mem_cons_self
          · exact List.mem_cons_of_mem _ (ih waiting)
      | ask first => exact List.mem_cons_of_mem _ (ih waiting.2)

theorem isSome_of_waiting (waiting : system.Waiting history name) :
    (system.evidence name).isSome := by
  induction history with
  | nil => cases waiting
  | cons event earlier ih =>
      cases event with
      | execute first =>
          rcases waiting with ⟨-, recorded⟩ | waiting
          · exact recorded
          · exact ih waiting
      | ask first => exact ih waiting.2

theorem waiting_of_ambiguous (ambiguous : system.Ambiguous history name) :
    system.Waiting history name := by
  induction history with
  | nil => cases ambiguous
  | cons event earlier ih =>
      cases event with
      | execute first =>
          rcases ambiguous with ⟨same, recorded, -⟩ | ⟨waiting, -⟩ | ambiguous
          · exact .inl ⟨same, recorded⟩
          · exact .inr waiting
          · exact .inr (ih ambiguous)
      | ask first => exact ⟨ambiguous.1, ih ambiguous.2⟩

/-- Of two that wait and share their identity, the later one met the earlier one. -/
theorem ambiguous_of_twins (waiting : system.Waiting history name)
    (otherWaiting : system.Waiting history other) (distinct : name ≠ other)
    (same : system.identity other = system.identity name) : system.Ambiguous history name := by
  induction history with
  | nil => cases waiting
  | cons event earlier ih =>
      cases event with
      | execute first =>
          rcases waiting with ⟨rfl, recorded⟩ | waiting
          · rcases otherWaiting with ⟨rfl, -⟩ | otherWaiting
            · exact absurd rfl distinct
            · exact .inl ⟨rfl, recorded, other, otherWaiting, same⟩
          · rcases otherWaiting with ⟨rfl, recorded⟩ | otherWaiting
            · exact .inr (.inl ⟨waiting, recorded, same⟩)
            · exact .inr (.inr (ih waiting otherWaiting))
      | ask first => exact ⟨waiting.1, ih waiting.2 otherWaiting.2⟩

/-- Who waits alone has an identity that no other waiting execution has. -/
theorem identity_ne_of_clear (waiting : system.Waiting history name)
    (clear : ¬system.Ambiguous history name) (otherWaiting : system.Waiting history other)
    (distinct : name ≠ other) : system.identity other ≠ system.identity name :=
  fun same => clear (ambiguous_of_twins waiting otherWaiting distinct same)

theorem ambiguous_execute_iff (waiting : system.Waiting history name) (fresh : other ≠ name)
    (recorded : (system.evidence other).isSome) :
    system.Ambiguous (.execute other :: history) name ↔
      system.identity other = system.identity name ∨ system.Ambiguous history name := by
  simp only [System.Ambiguous, fresh, false_and, false_or, waiting, recorded, true_and]

theorem waiting_execute_iff (fresh : other ≠ name) :
    system.Waiting (.execute other :: history) name ↔ system.Waiting history name := by
  simp only [System.Waiting, fresh, false_and, false_or]

theorem ambiguous_ask_iff (distinct : other ≠ name) :
    system.Ambiguous (.ask other :: history) name ↔ system.Ambiguous history name := by
  simp only [System.Ambiguous, ne_eq, distinct, not_false_eq_true, true_and]

end History

/-! ## How far behind the end an identity is found -/

section Within

variable {Identity Evidence : Type}
variable {pending others : List (Observation Identity Evidence)} {identity : Identity} {bound : Nat}

/-- Behind what is found by this identity are at most so many observations. -/
def Within (pending : List (Observation Identity Evidence)) (identity : Identity) (bound : Nat) :
    Prop :=
  ∀ front entry back, pending = front ++ entry :: back → entry.identity = identity →
    back.length ≤ bound

theorem Within.sublist (within : Within pending identity bound) (fewer : others.Sublist pending) :
    Within others identity bound := by
  intro front entry back whole found
  rw [whole, List.append_sublist_iff] at fewer
  obtain ⟨before, after, rfl, -, later⟩ := fewer
  obtain ⟨between, rest, rfl, member, shorter⟩ := List.cons_sublist_iff.mp later
  obtain ⟨first, last, rfl⟩ := List.append_of_mem member
  have bounded := within (before ++ first) entry (last ++ rest) (by simp) found
  rw [List.length_append] at bounded
  exact Nat.le_trans shorter.length_le (by omega)

theorem Within.map (within : Within pending identity bound)
    {change : Observation Identity Evidence → Observation Identity Evidence}
    (kept : ∀ entry, (change entry).identity = entry.identity) :
    Within (pending.map change) identity bound := by
  intro front entry back whole found
  obtain ⟨before, after, rfl, rfl, later⟩ := List.map_eq_append_iff.mp whole
  obtain ⟨old, rest, rfl, rfl, rfl⟩ := List.map_eq_cons_iff.mp later
  rw [List.length_map]
  exact within before old rest rfl (kept old ▸ found)

theorem Within.concat (within : Within pending identity bound)
    (last : Observation Identity Evidence) : Within (pending ++ [last]) identity (bound + 1) := by
  intro front entry back whole found
  rcases List.eq_nil_or_concat back with rfl | ⟨back, final, rfl⟩
  · exact Nat.zero_le _
  · rw [List.concat_eq_append, ← List.cons_append, ← List.append_assoc] at whole
    obtain ⟨whole, -⟩ := List.append_inj' whole rfl
    rw [List.concat_eq_append, List.length_append]
    exact Nat.succ_le_succ (within front entry back whole found)

/-- What is found by an identity that nothing before shares is found at the end. -/
theorem within_last (others : ∀ entry ∈ pending, entry.identity ≠ identity)
    (last : Observation Identity Evidence) : Within (pending ++ [last]) identity 0 := by
  intro front entry back whole found
  rcases List.eq_nil_or_concat back with rfl | ⟨back, final, rfl⟩
  · exact Nat.zero_le _
  · rw [List.concat_eq_append, ← List.cons_append, ← List.append_assoc] at whole
    obtain ⟨whole, -⟩ := List.append_inj' whole rfl
    exact absurd found (others entry (by rw [whole]; simp))

end Within

/-! ## The invariant of a run -/

section Invariant

variable {Name Identity Evidence : Type} (system : System Name Identity Evidence)

open Classical in
/-- The observation of an execution that waits, as the history tells it. -/
noncomputable def observed (history : List (Event Name)) (name : Name) :
    Observation Identity Evidence where
  identity := system.identity name
  evidence :=
    if system.Ambiguous history name then system.ambiguous
    else (system.evidence name).getD system.absent

section Observed

variable {system} {history later : List (Event Name)} {name : Name}

theorem observed_of_ambiguous (ambiguous : system.Ambiguous history name) :
    observed system history name = ⟨system.identity name, system.ambiguous⟩ := by
  rw [observed, if_pos ambiguous]

theorem observed_of_clear (clear : ¬system.Ambiguous history name) :
    observed system history name =
      ⟨system.identity name, (system.evidence name).getD system.absent⟩ := by
  rw [observed, if_neg clear]

theorem observed_of_iff (same : system.Ambiguous later name ↔ system.Ambiguous history name) :
    observed system later name = observed system history name := by
  by_cases ambiguous : system.Ambiguous history name
  · rw [observed_of_ambiguous ambiguous, observed_of_ambiguous (same.mpr ambiguous)]
  · rw [observed_of_clear ambiguous, observed_of_clear (mt same.mp ambiguous)]

end Observed

/-- Those whose observations are kept where there has to be room for a further one. -/
def keptOwners (owners : List Name) : List Name :=
  if owners.length = system.capacity then owners.drop 1 else owners

theorem keptOwners_sublist (owners : List Name) :
    (keptOwners system owners).Sublist owners := by
  rw [keptOwners]
  split
  · exact List.drop_sublist 1 owners
  · exact List.Sublist.refl owners

variable [DecidableEq Name]

/-- What waits in vain is not ambiguous, and so many later ones were recorded as there is room
for. -/
structure GivenUp (history : List (Event Name)) (name : Name) : Prop where
  clear : ¬system.Ambiguous history name
  late : system.capacity ≤ system.recordedSince history name

/-- Each observation that is kept is owned by one execution that waits. -/
structure Paired (state : State Name Identity Evidence) (owners : List Name) : Prop where
  distinct : owners.Nodup
  pending : state.pending = owners.map (observed system state.history)
  waiting : ∀ name ∈ owners, system.Waiting state.history name
  givenUp : ∀ name, system.Waiting state.history name → name ∉ owners →
    GivenUp system state.history name
  within : ∀ name, system.Waiting state.history name → ¬system.Ambiguous state.history name →
    Within state.pending (system.identity name) (system.recordedSince state.history name)
  bounded : state.pending.length ≤ system.capacity


variable {system}

theorem paired_start : Paired system System.start [] where
  distinct := List.nodup_nil
  pending := rfl
  waiting := by simp
  givenUp := fun _ waiting _ => waiting.elim
  within := fun _ waiting _ => waiting.elim
  bounded := Nat.zero_le _

namespace Paired

variable {state : State Name Identity Evidence} {owners : List Name} {name : Name}

/-- An observation that is found belongs to an execution of its identity. -/
theorem exists_owner (paired : Paired system state owners) {entry : Observation Identity Evidence}
    (member : entry ∈ state.pending) :
    ∃ owner ∈ owners, entry = observed system state.history owner ∧
      system.identity owner = entry.identity := by
  rw [paired.pending] at member
  obtain ⟨owner, owns, rfl⟩ := List.mem_map.mp member
  exact ⟨owner, owns, rfl, rfl⟩

theorem observed_mem (paired : Paired system state owners) (owns : name ∈ owners) :
    observed system state.history name ∈ state.pending := by
  rw [paired.pending]
  exact List.mem_map_of_mem owns

theorem mem_of_ambiguous (paired : Paired system state owners)
    (ambiguous : system.Ambiguous state.history name) : name ∈ owners := by
  by_contra outside
  exact (paired.givenUp name (waiting_of_ambiguous ambiguous) outside).clear ambiguous

/-- Nothing changes where the execution leaves no observation. -/
theorem execute_unobserved (paired : Paired system state owners)
    (fresh : .execute name ∉ state.history) (unobserved : system.evidence name = none) :
    Paired system ⟨state.pending, .execute name :: state.history⟩ owners := by
  have other {waits : Name} (waiting : system.Waiting state.history waits) : name ≠ waits := by
    rintro rfl
    exact fresh (executed_of_waiting waiting)
  have waiting_iff (waits : Name) :
      system.Waiting (.execute name :: state.history) waits ↔
        system.Waiting state.history waits := by
    by_cases same : name = waits
    · subst same
      simp only [System.Waiting, unobserved, Option.isSome_none, Bool.false_eq_true, and_false,
        false_or]
    · exact waiting_execute_iff same
  have ambiguous_iff (waits : Name) :
      system.Ambiguous (.execute name :: state.history) waits ↔
        system.Ambiguous state.history waits := by
    by_cases same : name = waits
    · subst same
      simp [System.Ambiguous, unobserved]
    · simp [System.Ambiguous, unobserved, same]
  have since {waits : Name} (waiting : system.Waiting state.history waits) :
      system.recordedSince (.execute name :: state.history) waits =
        system.recordedSince state.history waits := by
    simp [System.recordedSince, other waiting, unobserved]
  refine ⟨paired.distinct, ?_, ?_, ?_, ?_, paired.bounded⟩
  · rw [paired.pending]
    exact List.map_congr_left fun waits _ => (observed_of_iff (ambiguous_iff waits)).symm
  · exact fun waits owns => (waiting_iff waits).mpr (paired.waiting waits owns)
  · intro waits waiting outside
    have before := (waiting_iff waits).mp waiting
    obtain ⟨clear, late⟩ := paired.givenUp waits before outside
    exact ⟨mt (ambiguous_iff waits).mp clear, by rw [since before]; exact late⟩
  · intro waits waiting clear
    have before := (waiting_iff waits).mp waiting
    rw [since before]
    exact paired.within waits before (mt (ambiguous_iff waits).mpr clear)

/-- An execution whose observation is given up met no other one, and so many came after it. -/
theorem clear_of_dropped (paired : Paired system state owners)
    (separate : system.Separate state (.execute name)) (recorded : (system.evidence name).isSome)
    {oldest : Name} (owns : oldest ∈ owners) (outside : oldest ∉ keptOwners system owners) :
    ¬system.Ambiguous state.history oldest ∧ system.identity name ≠ system.identity oldest ∧
      system.capacity ≤ system.recordedSince state.history oldest + 1 := by
  rw [keptOwners] at outside
  split at outside
  case isFalse notFull => exact absurd owns outside
  case isTrue full =>
    obtain ⟨first, rest, rfl⟩ := List.exists_cons_of_ne_nil (List.ne_nil_of_mem owns)
    obtain rfl : oldest = first := (List.mem_cons.mp owns).resolve_right outside
    have pending := paired.pending
    rw [List.map_cons] at pending
    obtain ⟨other, unmet⟩ := (separate recorded).2
      (by rw [pending, List.length_cons, List.length_map]; exact full)
      (observed system state.history oldest) (by rw [pending]; rfl)
    have clear : ¬system.Ambiguous state.history oldest := fun ambiguous => unmet oldest ambiguous rfl
    refine ⟨clear, fun same => other same.symm, ?_⟩
    have behind := paired.within oldest (paired.waiting oldest owns) clear [] _ _ pending rfl
    rw [List.length_map] at behind
    rw [List.length_cons] at full
    omega

section Recorded

variable [DecidableEq Identity] {evidence : Evidence}

/-- The observations that are kept, with those of this identity marked, are those that the history
tells once the execution of this name is recorded. -/
theorem marked (paired : Paired system state owners) (fresh : .execute name ∉ state.history)
    (recorded : system.evidence name = some evidence) :
    (state.pending.map fun entry =>
      if entry.identity = system.identity name then { entry with evidence := system.ambiguous }
      else entry) = owners.map (observed system (.execute name :: state.history)) := by
  rw [paired.pending, List.map_map]
  apply List.map_congr_left
  intro owner owns
  have waiting := paired.waiting owner owns
  have other : name ≠ owner := by
    rintro rfl
    exact fresh (executed_of_waiting waiting)
  have told := ambiguous_execute_iff waiting other (recorded ▸ rfl)
  rw [Function.comp_apply]
  by_cases same : system.identity owner = system.identity name
  · rw [observed_of_ambiguous (told.mpr (.inl same.symm)),
      if_pos (show (observed system state.history owner).identity = _ from same)]
    rfl
  · rw [if_neg (show ¬(observed system state.history owner).identity = _ from same)]
    refine (observed_of_iff (told.trans ?_)).symm
    exact or_iff_right (fun equal => same equal.symm)

theorem observed_recorded (paired : Paired system state owners)
    (fresh : .execute name ∉ state.history) (recorded : system.evidence name = some evidence)
    (kept : ∀ other, system.Waiting state.history other →
      system.identity other = system.identity name →
        ∃ entry ∈ state.pending, entry.identity = system.identity name) :
    (⟨system.identity name, if state.pending.any (·.identity = system.identity name)
      then system.ambiguous else evidence⟩ : Observation Identity Evidence) =
      observed system (.execute name :: state.history) name := by
  by_cases found : state.pending.any (·.identity = system.identity name)
  · obtain ⟨entry, member, same⟩ := List.any_eq_true.mp found
    obtain ⟨owner, owns, -, identity⟩ := paired.exists_owner member
    have met : system.Ambiguous (.execute name :: state.history) name :=
      .inl ⟨rfl, recorded ▸ rfl, owner, paired.waiting owner owns,
        identity.trans (of_decide_eq_true same)⟩
    rw [observed_of_ambiguous met, if_pos found]
  · have clear : ¬system.Ambiguous (.execute name :: state.history) name := by
      rintro (⟨-, -, other, waiting, same⟩ | ⟨waiting, -⟩ | ambiguous)
      · obtain ⟨entry, member, identity⟩ := kept other waiting same
        exact found (List.any_eq_true.mpr ⟨entry, member, decide_eq_true identity⟩)
      · exact fresh (executed_of_waiting waiting)
      · exact fresh (executed_of_waiting (waiting_of_ambiguous ambiguous))
    rw [observed_of_clear clear, if_neg found, recorded]
    rfl

theorem record_pending (paired : Paired system state owners)
    (fresh : .execute name ∉ state.history) (recorded : system.evidence name = some evidence)
    (separate : system.Separate state (.execute name)) :
    record system.capacity system.ambiguous state.pending (system.identity name) evidence =
      (keptOwners system owners ++ [name]).map
        (observed system (.execute name :: state.history)) := by
  rw [record, paired.marked fresh recorded,
    paired.observed_recorded fresh recorded (separate (recorded ▸ rfl)).1, List.length_map,
    List.map_append, keptOwners, List.map_singleton]
  congr 1
  split
  · exact List.map_drop.symm
  · rfl

theorem execute_recorded (paired : Paired system state owners)
    (fresh : .execute name ∉ state.history) (recorded : system.evidence name = some evidence)
    (separate : system.Separate state (.execute name)) :
    Paired system
      ⟨record system.capacity system.ambiguous state.pending (system.identity name) evidence,
        .execute name :: state.history⟩
      (keptOwners system owners ++ [name]) := by
  have observable : (system.evidence name).isSome := recorded ▸ rfl
  have others {waits : Name} (waiting : system.Waiting state.history waits) : name ≠ waits := by
    rintro rfl
    exact fresh (executed_of_waiting waiting)
  have since {waits : Name} (waiting : system.Waiting state.history waits) :
      system.recordedSince (.execute name :: state.history) waits =
        system.recordedSince state.history waits + 1 := by
    simp [System.recordedSince, others waiting, observable]
  have kept := keptOwners_sublist system owners
  refine ⟨?_, paired.record_pending fresh recorded separate, ?_, ?_, ?_, ?_⟩
  · -- the new one is no owner yet
    refine List.nodup_append.mpr ⟨paired.distinct.sublist kept, List.nodup_singleton name, ?_⟩
    intro owner owns last member
    rw [List.mem_singleton] at member
    exact member ▸ (others (paired.waiting owner (kept.subset owns))).symm
  · intro owner owns
    rcases List.mem_append.mp owns with before | last
    · exact .inr (paired.waiting owner (kept.subset before))
    · exact .inl ⟨(List.mem_singleton.mp last).symm, List.mem_singleton.mp last ▸ observable⟩
  · -- who waits in vain did so before, or was the oldest
    intro waits waiting outside
    rw [List.mem_append, List.mem_singleton, not_or] at outside
    have before := (waiting_execute_iff (Ne.symm outside.2)).mp waiting
    have told := ambiguous_execute_iff before (others before) observable
    obtain ⟨clear, apart, late⟩ : ¬system.Ambiguous state.history waits ∧
        system.identity name ≠ system.identity waits ∧
          system.capacity ≤ system.recordedSince state.history waits + 1 := by
      by_cases owns : waits ∈ owners
      · exact paired.clear_of_dropped separate observable owns outside.1
      · obtain ⟨clear, late⟩ := paired.givenUp waits before owns
        refine ⟨clear, fun same => ?_, Nat.le_succ_of_le late⟩
        obtain ⟨entry, member, found⟩ := (separate observable).1 waits before same.symm
        obtain ⟨owner, ownerOwns, -, identity⟩ := paired.exists_owner member
        refine identity_ne_of_clear before clear (paired.waiting owner ownerOwns) ?_
          (identity.trans (found.trans same))
        rintro rfl
        exact owns ownerOwns
    exact ⟨mt told.mp (not_or.mpr ⟨apart, clear⟩), by rw [since before]; exact late⟩
  · intro waits waiting clear
    obtain ⟨front, last, whole, fewer, identity⟩ := record_eq system.capacity system.ambiguous
      state.pending (system.identity name) evidence
    change Within (record _ _ _ _ _) _ _
    by_cases same : name = waits
    · subst same
      have alone : ∀ entry ∈ front, entry.identity ≠ system.identity name := by
        intro entry member found
        obtain ⟨old, oldMember, rfl⟩ := List.mem_map.mp (fewer.subset member)
        obtain ⟨owner, owns, -, ownerIdentity⟩ := paired.exists_owner oldMember
        rw [identity_marked] at found
        exact clear (.inl ⟨rfl, observable, owner, paired.waiting owner owns,
          ownerIdentity.trans found⟩)
      rw [whole, show system.recordedSince (.execute name :: state.history) name = 0 by
        simp [System.recordedSince]]
      exact within_last alone last
    · have before := (waiting_execute_iff same).mp waiting
      have told := ambiguous_execute_iff before same observable
      rw [whole, since before]
      have within := paired.within waits before (fun ambiguous => clear (told.mpr (.inr ambiguous)))
      exact ((within.map (identity_marked _ _)).sublist fewer).concat last
  · have room := system.room
    have bounded := paired.bounded
    simp only [record, List.length_append, List.length_singleton, List.length_map]
    split
    · rw [List.length_drop, List.length_map]
      omega
    · rw [List.length_map]
      omega

end Recorded

/-- The invariant is kept where nothing of the identity is found. -/
theorem ask_absent (paired : Paired system state owners)
    (none : ∀ entry ∈ state.pending, entry.identity ≠ system.identity name) :
    Paired system ⟨state.pending, .ask name :: state.history⟩ owners := by
  have others {owner : Name} (owns : owner ∈ owners) : name ≠ owner := by
    rintro rfl
    exact none _ (paired.observed_mem owns) rfl
  refine ⟨paired.distinct, ?_, ?_, ?_, ?_, paired.bounded⟩
  · rw [paired.pending]
    exact List.map_congr_left fun owner owns =>
      (observed_of_iff (ambiguous_ask_iff (others owns))).symm
  · exact fun owner owns => ⟨others owns, paired.waiting owner owns⟩
  · intro waits waiting outside
    obtain ⟨clear, late⟩ := paired.givenUp waits waiting.2 outside
    exact ⟨fun ambiguous => clear ambiguous.2, late⟩
  · exact fun waits waiting clear =>
      paired.within waits waiting.2 fun ambiguous => clear ⟨waiting.1, ambiguous⟩

/-- The invariant is kept where an observation is given out: its owner takes over that of the
execution that asked. -/
theorem ask_found (paired : Paired system state owners)
    (waiting : system.Waiting state.history name)
    {front back : List (Observation Identity Evidence)} {entry : Observation Identity Evidence}
    (whole : state.pending = front ++ entry :: back) (found : entry.identity = system.identity name)
    (others : ∀ earlier ∈ front, earlier.identity ≠ system.identity name) :
    ∃ left, Paired system ⟨front ++ back, .ask name :: state.history⟩ left := by
  have pending := paired.pending
  rw [whole] at pending
  obtain ⟨before, after, rfl, rfl, later⟩ := List.map_eq_append_iff.mp pending.symm
  obtain ⟨owner, behind, rfl, rfl, rfl⟩ := List.map_eq_cons_iff.mp later
  have ownerWaiting := paired.waiting owner (by simp)
  have distinct := paired.distinct
  obtain ⟨beforeDistinct, afterDistinct, apart⟩ := List.nodup_append.mp distinct
  obtain ⟨ownerNotBehind, behindDistinct⟩ := List.nodup_cons.mp afterDistinct
  have notBefore : name ∉ before := fun member =>
    others _ (List.mem_map_of_mem member) rfl
  have twins (different : name ≠ owner) :
      system.Ambiguous state.history name ∧ system.Ambiguous state.history owner :=
    ⟨ambiguous_of_twins waiting ownerWaiting different found,
      ambiguous_of_twins ownerWaiting waiting (Ne.symm different) found.symm⟩
  have behindNe {other : Name} (member : other ∈ behind) : other ≠ owner := by
    rintro rfl
    exact ownerNotBehind member
  have fewer : (before.map (observed system state.history) ++
      behind.map (observed system state.history)).Sublist state.pending := by
    rw [whole]
    exact List.Sublist.append_left (List.sublist_cons_self _ _) _
  refine ⟨before ++ behind.map fun other => if other = name then owner else other,
    ?_, ?_, ?_, ?_, ?_, Nat.le_trans fewer.length_le paired.bounded⟩
  · refine List.nodup_append.mpr ⟨beforeDistinct, behindDistinct.map_on ?_, ?_⟩
    · intro one oneBehind two twoBehind same
      have oneNe := behindNe oneBehind
      have twoNe := behindNe twoBehind
      grind
    · intro one oneBefore two twoSwapped same
      obtain ⟨other, member, rfl⟩ := List.mem_map.mp twoSwapped
      split at same
      · exact apart one oneBefore owner (by simp) same
      · exact apart one oneBefore other (List.mem_cons_of_mem _ member) same
  · rw [List.map_append, List.map_map]
    refine congrArg₂ (· ++ ·) (List.map_congr_left fun other member => ?_)
      (List.map_congr_left fun other member => ?_)
    · refine (observed_of_iff (ambiguous_ask_iff ?_)).symm
      rintro rfl
      exact notBefore member
    · rw [Function.comp_apply]
      split
      case isTrue same =>
        subst same
        obtain ⟨ambiguous, ownerAmbiguous⟩ := twins (behindNe member)
        rw [observed_of_ambiguous ambiguous, observed_of_ambiguous
          ((ambiguous_ask_iff (behindNe member)).mpr ownerAmbiguous)]
        exact congrArg (Observation.mk · system.ambiguous) found.symm
      case isFalse different =>
        exact (observed_of_iff (ambiguous_ask_iff (Ne.symm different))).symm
  · intro other member
    rcases List.mem_append.mp member with inBefore | swapped
    · refine ⟨?_, paired.waiting other (by simp [inBefore])⟩
      rintro rfl
      exact notBefore inBefore
    · obtain ⟨old, inBehind, rfl⟩ := List.mem_map.mp swapped
      split
      case isTrue same => exact ⟨same ▸ behindNe inBehind, ownerWaiting⟩
      case isFalse different =>
        exact ⟨Ne.symm different, paired.waiting old (by simp [inBehind])⟩
  · intro waits stillWaiting outside
    rw [List.mem_append, not_or] at outside
    have notOwner : waits ∉ before ++ owner :: behind := by
      simp only [List.mem_append, List.mem_cons, not_or]
      refine ⟨outside.1, ?_, ?_⟩
      · rintro rfl
        have owns := paired.mem_of_ambiguous (twins stillWaiting.1).1
        simp only [List.mem_append, List.mem_cons, notBefore, stillWaiting.1, false_or] at owns
        exact outside.2 (List.mem_map.mpr ⟨name, owns, if_pos rfl⟩)
      · intro inBehind
        exact outside.2 (List.mem_map.mpr ⟨waits, inBehind, if_neg (Ne.symm stillWaiting.1)⟩)
    obtain ⟨clear, late⟩ := paired.givenUp waits stillWaiting.2 notOwner
    exact ⟨fun ambiguous => clear ambiguous.2, late⟩
  · intro waits stillWaiting clear
    exact (paired.within waits stillWaiting.2 fun ambiguous =>
      clear ⟨stillWaiting.1, ambiguous⟩).sublist fewer

variable [DecidableEq Identity]

theorem step (paired : Paired system state owners) {event : Event Name}
    (separate : system.Separate state event) {next : State Name Identity Evidence}
    (stepped : system.step state event = some next) : ∃ left, Paired system next left := by
  cases event with
  | execute name =>
      rw [System.step] at stepped
      split at stepped
      case isTrue repeated => cases stepped
      case isFalse fresh =>
        obtain rfl := Option.some.inj stepped
        cases observable : system.evidence name with
        | none => exact ⟨owners, paired.execute_unobserved fresh observable⟩
        | some evidence =>
            exact ⟨_, paired.execute_recorded fresh observable separate⟩
  | ask name =>
      obtain rfl := Option.some.inj stepped
      rcases take_cases system.absent state.pending (system.identity name) with
        ⟨taken, none⟩ | ⟨front, entry, back, whole, taken, found, others⟩
      · rw [taken]
        exact ⟨owners, paired.ask_absent none⟩
      · rw [taken]
        have waiting := separate.resolve_right fun none =>
          none entry (by rw [whole]; simp) found
        exact paired.ask_found waiting whole found others

theorem answered (paired : Paired system state owners)
    (separate : system.Separate state (.ask name)) :
    system.Answered state.history name
      (take system.absent state.pending (system.identity name)).1 := by
  rcases take_cases system.absent state.pending (system.identity name) with
    ⟨taken, none⟩ | ⟨front, entry, back, whole, taken, found, others⟩
  · rw [taken]
    have notOwner : name ∉ owners := fun owns => none _ (paired.observed_mem owns) rfl
    refine ⟨fun ambiguous => absurd (paired.mem_of_ambiguous ambiguous) notOwner, ?_, fun _ => rfl⟩
    exact fun waiting _ => .inr ⟨rfl, (paired.givenUp name waiting notOwner).late⟩
  · rw [taken]
    have member : entry ∈ state.pending := by
      rw [whole]
      simp
    have waiting := separate.resolve_right fun none => none entry member found
    obtain ⟨owner, owns, rfl, -⟩ := paired.exists_owner member
    refine ⟨fun ambiguous => ?_, fun _ clear => ?_, fun absent => absurd waiting absent⟩
    · have ownerAmbiguous : system.Ambiguous state.history owner := by
        by_cases same : owner = name
        · exact same ▸ ambiguous
        · exact ambiguous_of_twins (paired.waiting owner owns) waiting same found.symm
      rw [observed_of_ambiguous ownerAmbiguous]
    · obtain rfl : owner = name := by
        by_contra different
        exact clear (ambiguous_of_twins waiting (paired.waiting owner owns) (Ne.symm different)
          found)
      have observable := isSome_of_waiting waiting
      obtain ⟨evidence, same⟩ := Option.isSome_iff_exists.mp observable
      exact .inl (by rw [observed_of_clear clear, same]; rfl)

end Paired

variable [DecidableEq Identity]

/-- In a run that keeps those of one identity apart, no more is kept than there is room for, and
what is asked for is answered as the history tells. -/
theorem run_answered {events : List (Event Name)} {state : State Name Identity Evidence}
    (separate : Transitions.Meets system.step system.Separate System.start events)
    (reached : Transitions.run system.step System.start events = some state) :
    state.pending.length ≤ system.capacity ∧ ∀ name, system.Separate state (.ask name) →
      system.Answered state.history name
        (take system.absent state.pending (system.identity name)).1 := by
  have preserved : ∀ (state : State Name Identity Evidence) event next,
      (∃ owners, Paired system state owners) → system.Separate state event →
        system.step state event = some next → ∃ owners, Paired system next owners := by
    rintro state event next ⟨owners, paired⟩ separate stepped
    exact paired.step separate stepped
  have holds := Transitions.run_invariant preserved events ⟨[], paired_start⟩ separate reached
  obtain ⟨owners, paired⟩ := holds
  exact ⟨paired.bounded, fun name apart => paired.answered apart⟩

end Invariant

/-! ## Other identities -/

section Identities

variable {Name Identity Other Evidence : Type} {system : System Name Identity Evidence}
variable {identity : Name → Other}

/-- The same executions, found by something else. -/
def System.foundBy (system : System Name Identity Evidence) (identity : Name → Other) :
    System Name Other Evidence where
  capacity := system.capacity
  room := system.room
  ambiguous := system.ambiguous
  absent := system.absent
  identity := identity
  evidence := system.evidence

theorem waiting_foundBy (history : List (Event Name)) (name : Name) :
    (system.foundBy identity).Waiting history name ↔ system.Waiting history name := by
  induction history with
  | nil => exact Iff.rfl
  | cons event earlier ih =>
      cases event with
      | execute first => exact or_congr Iff.rfl ih
      | ask first => exact and_congr Iff.rfl ih

theorem ambiguous_foundBy
    (same : ∀ left right, identity left = identity right ↔
      system.identity left = system.identity right) (history : List (Event Name)) (name : Name) :
    (system.foundBy identity).Ambiguous history name ↔ system.Ambiguous history name := by
  induction history with
  | nil => exact Iff.rfl
  | cons event earlier ih =>
      cases event with
      | execute first =>
          refine or_congr (and_congr Iff.rfl (and_congr Iff.rfl ?_)) (or_congr ?_ ih)
          · exact exists_congr fun met => and_congr (waiting_foundBy earlier met) (same met name)
          · exact and_congr (waiting_foundBy earlier name) (and_congr Iff.rfl (same first name))
      | ask first => exact and_congr Iff.rfl ih

variable [DecidableEq Name]

theorem recordedSince_foundBy (history : List (Event Name)) (name : Name) :
    (system.foundBy identity).recordedSince history name = system.recordedSince history name := by
  induction history with
  | nil => rfl
  | cons event earlier ih =>
      cases event with
      | execute first =>
          rw [System.recordedSince, System.recordedSince, ih]
          rfl
      | ask first => exact ih

/-- What is answered depends on the identities only as far as they are equal. -/
theorem answered_foundBy
    (same : ∀ left right, identity left = identity right ↔
      system.identity left = system.identity right) {history : List (Event Name)} {name : Name}
    {answer : Evidence} (answered : system.Answered history name answer) :
    (system.foundBy identity).Answered history name answer where
  ambiguous := fun ambiguous => answered.ambiguous ((ambiguous_foundBy same _ _).mp ambiguous)
  own := by
    rw [waiting_foundBy, ambiguous_foundBy same, recordedSince_foundBy]
    exact answered.own
  absent := by
    rw [waiting_foundBy]
    exact answered.absent

end Identities

end Kvist.Observations
