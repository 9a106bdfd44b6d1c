import Kvist.Runtime.ContextProperties
import Kvist.Runtime.HistoryProperties

/-! What compaction keeps of a history. -/

set_option autoImplicit false

namespace Kvist.Runtime

/-! ## Positions -/

section Positions

variable {κ : Type} [DecidableEq κ]

theorem keysOf_zipIdx_nodup (messages : List ModelMessage) :
    (keysOf messages.zipIdx).Nodup := by
  simp only [keysOf, List.zipIdx_map_snd]
  exact List.nodup_range'

theorem length_notMem_keysOf_zipIdx (messages : List ModelMessage) :
    messages.length ∉ keysOf messages.zipIdx := by
  simp [keysOf, List.zipIdx_map_snd]

/-- Positions are the places of the keys among the keys. -/
theorem zipIdx_rekey {entries : Keyed κ} (distinct : (keysOf entries).Nodup) :
    (entries.map (·.1)).zipIdx =
      entries.map fun entry => (entry.1, (keysOf entries).idxOf entry.2) := by
  apply List.ext_getElem
  · simp
  · intro index bound _
    have within : index < entries.length := by simpa using bound
    have place := distinct.idxOf_getElem index (by simpa [keysOf] using within)
    simp only [keysOf, List.getElem_map] at place
    simp [keysOf, place]

omit [DecidableEq κ] in
theorem priorSummary_mem {summary : String} {entries : Keyed κ} {key : κ}
    (prior : priorSummary summary entries = some key) :
    ∃ message, (message, key) ∈ entries ∧ isEnvelope summary message = true := by
  unfold priorSummary at prior
  split at prior
  · cases prior
  · obtain ⟨entry, found, rfl⟩ := Option.map_eq_some_iff.mp prior
    have own := List.find?_some found
    exact ⟨entry.1, List.mem_of_find?_eq_some found, own⟩

theorem isGoal_foreign {envelope : Option κ} {entry : ModelMessage × κ}
    (goal : isGoal envelope entry = true) : some entry.2 ≠ envelope := by
  simp only [isGoal, Bool.and_eq_true, decide_eq_true_eq] at goal
  exact goal.1

theorem isGoal_not_answer {envelope : Option κ} {entry : ModelMessage × κ}
    (goal : isGoal envelope entry = true) : isAnswer entry.1 = false := by
  simp only [isGoal, Bool.and_eq_true] at goal
  cases message : entry.1 <;> simp_all [isAnswer, ModelMessage.isUser]

theorem mem_outstandingGoals {envelope : Option κ} (before : Keyed κ) {after : Keyed κ}
    {entry : ModelMessage × κ} (goal : isGoal envelope entry = true)
    (unanswered : ∀ later ∈ after, isAnswer later.1 = false) :
    entry.2 ∈ outstandingGoals envelope (before ++ entry :: after) := by
  have taken : (before ++ entry :: after).reverse.takeWhile (fun entry => !isAnswer entry.1) =
      after.reverse ++ entry :: before.reverse.takeWhile (fun entry => !isAnswer entry.1) := by
    rw [List.reverse_append, List.reverse_cons, List.append_assoc,
      List.takeWhile_append_of_pos (by simpa using unanswered)]
    simp [isGoal_not_answer goal]
  rw [outstandingGoals, taken]
  refine List.mem_map.mpr ⟨entry, List.mem_filter.mpr ⟨?_, goal⟩, rfl⟩
  simp

theorem activeGoal_eq {envelope : Option κ} (before : Keyed κ) {after : Keyed κ}
    {entry : ModelMessage × κ} (goal : isGoal envelope entry = true)
    (latest : ∀ later ∈ after, isGoal envelope later = false) :
    activeGoal envelope (before ++ entry :: after) = some entry.2 := by
  have none : after.reverse.find? (isGoal envelope) = none := by
    simpa using latest
  simp [activeGoal, List.find?_append, none, goal]

theorem isFoldable_iff {envelope : Option κ} {entries : Keyed κ} {group : List κ} :
    isFoldable envelope entries group = true ↔
      ∀ key ∈ group, key ∉ outstandingGoals envelope entries ∧
        activeGoal envelope entries ≠ some key := by
  simp only [isFoldable, Bool.and_eq_true, Bool.not_eq_true', List.any_eq_false,
    List.contains_iff_mem, decide_eq_true_eq]
  exact ⟨fun both key member => ⟨both.1 key member, both.2 key member⟩,
    fun both => ⟨fun key member => (both key member).1, fun key member => (both key member).2⟩⟩

theorem eligible_mem {envelope : Option κ} {entries : Keyed κ} {groups : List (List κ)}
    {group : List κ} (member : group ∈ (eligible envelope entries groups).map (·.1)) :
    group ∈ groups.dropLast ∧ isFoldable envelope entries group = true := by
  obtain ⟨⟨_, index⟩, found, rfl⟩ := List.mem_map.mp member
  simp only [eligible, List.mem_filter, Bool.and_eq_true, decide_eq_true_eq] at found
  obtain ⟨indexed, older, foldable⟩ := found
  refine ⟨?_, foldable⟩
  obtain ⟨bound, same⟩ := List.mem_zipIdx' indexed
  have within : index < groups.dropLast.length := by
    rw [List.length_dropLast]
    omega
  have kept : groups.dropLast[index] = groups[index] := List.getElem_dropLast within
  simp only [same, ← kept]
  exact List.getElem_mem within

omit [DecidableEq κ] in
/-- Groups without a common key are told apart by any key. -/
theorem group_unique {groups : List (List κ)} (distinct : groups.flatten.Nodup)
    {left right : List κ} (leftMember : left ∈ groups) (rightMember : right ∈ groups) {key : κ}
    (inLeft : key ∈ left) (inRight : key ∈ right) : left = right := by
  induction groups with
  | nil => cases leftMember
  | cons group rest ih =>
      rw [List.flatten_cons, List.nodup_append] at distinct
      rcases List.mem_cons.mp leftMember with rfl | leftLater
      · rcases List.mem_cons.mp rightMember with rfl | rightLater
        · rfl
        · exact absurd rfl (distinct.2.2 key inLeft key
            (List.mem_flatten.mpr ⟨right, rightLater, inRight⟩))
      · rcases List.mem_cons.mp rightMember with rfl | rightLater
        · exact absurd rfl (distinct.2.2 key inRight key
            (List.mem_flatten.mpr ⟨left, leftLater, inLeft⟩))
        · exact ih distinct.2.1 leftLater rightLater

theorem mem_keptEntries {envelope : Option κ} {folded : List (List κ)} {entries : Keyed κ}
    {entry : ModelMessage × κ} :
    entry ∈ keptEntries envelope folded entries ↔
      entry ∈ entries ∧ some entry.2 ≠ envelope ∧ entry.2 ∉ folded.flatten := by
  simp only [keptEntries, List.mem_filter, Bool.and_eq_true, decide_eq_true_eq,
    Bool.not_eq_true', List.contains_eq_mem, decide_eq_false_iff_not]

end Positions

/-! ## What is kept -/

/-- The messages of a request that compaction must keep are among the kept ones, and a group is
kept or removed as a whole. -/
structure Preserves (manager : ContextManager) (request : ModelRequest)
    (groups : List (List Nat)) (kept : Keyed Nat) : Prop where
  sublist : kept.Sublist request.messages.zipIdx
  systems : ∀ entry ∈ request.messages.zipIdx, entry.1.isSystem = true → entry ∈ kept
  newest : ∀ group, groups.getLast? = some group → ∀ entry ∈ request.messages.zipIdx,
    entry.2 ∈ group → entry ∈ kept
  goal : ∀ before entry after, request.messages.zipIdx = before ++ entry :: after →
    isGoal (priorSummary manager.summary request.messages.zipIdx) entry = true →
    (∀ later ∈ after,
      isGoal (priorSummary manager.summary request.messages.zipIdx) later = false) →
    entry ∈ kept
  unanswered : ∀ before entry after, request.messages.zipIdx = before ++ entry :: after →
    isGoal (priorSummary manager.summary request.messages.zipIdx) entry = true →
    (∀ later ∈ after, isAnswer later.1 = false) → entry ∈ kept
  whole : ∀ group ∈ groups,
    (∀ entry ∈ request.messages.zipIdx, entry.2 ∈ group → entry ∈ kept) ∨
      ∀ entry ∈ kept, entry.2 ∉ group

theorem preserves_all (manager : ContextManager) (request : ModelRequest)
    (groups : List (List Nat)) : Preserves manager request groups request.messages.zipIdx where
  sublist := List.Sublist.refl _
  systems := fun _ member _ => member
  newest := fun _ _ _ member _ => member
  goal := fun _ _ _ split _ _ => by simp [split]
  unanswered := fun _ _ _ split _ _ => by simp [split]
  whole := fun _ _ => .inl fun _ member _ => member

section Kept

variable {κ : Type} [DecidableEq κ] {envelope : Option κ} {entries : Keyed κ}
  {groups folded : List (List κ)}

theorem kept_whole (complete : Complete envelope entries groups)
    (distinct : (keysOf entries).Nodup) (chosen : ∀ group ∈ folded, group ∈ groups)
    {group : List κ} (member : group ∈ groups) :
    (group ∈ folded ∧ ∀ key ∈ group, key ∈ folded.flatten) ∨
      ∀ key ∈ group, some key ≠ envelope ∧ key ∉ folded.flatten := by
  by_cases removed : group ∈ folded
  · exact .inl ⟨removed, fun key inside => List.mem_flatten.mpr ⟨group, removed, inside⟩⟩
  · refine .inr fun key inside => ⟨?_, fun gone => ?_⟩
    · obtain ⟨_, _, _, foreign⟩ := complete.inside key
        (List.mem_flatten.mpr ⟨group, member, inside⟩)
      exact foreign
    · obtain ⟨other, otherMember, otherInside⟩ := List.mem_flatten.mp gone
      have same := group_unique (complete.flatten_nodup distinct) member
        (chosen other otherMember) inside otherInside
      exact removed (same ▸ otherMember)

/-- The groups that no entry has left. -/
def keptGroups (envelope : Option κ) (folded groups : List (List κ)) : List (List κ) :=
  groups.filter fun group =>
    group.all fun key => some key ≠ envelope && !folded.flatten.contains key

theorem complete_kept (complete : Complete envelope entries groups)
    (distinct : (keysOf entries).Nodup) (chosen : ∀ group ∈ folded, group ∈ groups) :
    Complete none (keptEntries envelope folded entries) (keptGroups envelope folded groups) := by
  apply complete.filter fun key => some key ≠ envelope && !folded.flatten.contains key
  · intro group member
    rcases kept_whole complete distinct chosen member with ⟨-, gone⟩ | stays
    · refine .inr fun key inside => ?_
      simp [List.mem_flatten.mp (gone key inside)]
    · refine .inl fun key inside => ?_
      obtain ⟨foreign, absent⟩ := stays key inside
      simp only [Bool.and_eq_true, decide_eq_true_eq, Bool.not_eq_true', List.contains_eq_mem,
        decide_eq_false_iff_not]
      exact ⟨foreign, absent⟩
  · intro key same
    simp [same]

theorem keysOf_kept_sublist (envelope : Option κ) (folded : List (List κ)) (entries : Keyed κ) :
    (keysOf (keptEntries envelope folded entries)).Sublist (keysOf entries) :=
  List.Sublist.map _ List.filter_sublist

end Kept

theorem preserves_kept {manager : ContextManager} {request : ModelRequest}
    {groups folded : List (List Nat)}
    (complete : Complete (priorSummary manager.summary request.messages.zipIdx)
      request.messages.zipIdx groups)
    (chosen : ∀ group ∈ folded, group ∈
      (eligible (priorSummary manager.summary request.messages.zipIdx) request.messages.zipIdx
        groups).map (·.1)) :
    Preserves manager request groups
      (keptEntries (priorSummary manager.summary request.messages.zipIdx) folded
        request.messages.zipIdx) := by
  have distinct := keysOf_zipIdx_nodup request.messages
  have foldable : ∀ group ∈ folded, group ∈ groups.dropLast ∧ isFoldable
      (priorSummary manager.summary request.messages.zipIdx) request.messages.zipIdx group = true :=
    fun group member => eligible_mem (chosen group member)
  have among : ∀ group ∈ folded, group ∈ groups := fun group member =>
    List.mem_of_mem_dropLast (foldable group member).1
  have inside : ∀ key ∈ folded.flatten, key ∈ groups.flatten := by
    intro key member
    obtain ⟨group, groupMember, keyMember⟩ := List.mem_flatten.mp member
    exact List.mem_flatten.mpr ⟨group, among group groupMember, keyMember⟩
  refine ⟨List.filter_sublist, ?_, ?_, ?_, ?_, ?_⟩
  · intro entry member system
    refine mem_keptEntries.mpr ⟨member, fun same => ?_, fun gone => ?_⟩
    · obtain ⟨message, found, own⟩ := priorSummary_mem same.symm
      have equal : entry = (message, entry.2) :=
        List.inj_on_of_nodup_map distinct member found rfl
      rw [equal] at system
      rw [not_isEnvelope_of_isSystem system] at own
      cases own
    · exact complete.system_outside distinct member system (inside _ gone)
  · intro group newest entry member inGroup
    have last : group ∈ groups := List.mem_of_getLast? newest
    refine mem_keptEntries.mpr ⟨member, ?_, fun gone => ?_⟩
    · exact (complete.inside entry.2 (List.mem_flatten.mpr ⟨group, last, inGroup⟩)).choose_spec.2.2
    · obtain ⟨other, otherMember, otherInside⟩ := List.mem_flatten.mp gone
      obtain ⟨older, -⟩ := foldable other otherMember
      have parts : groups = groups.dropLast ++ [group] :=
        (List.dropLast_append_getLast? group newest).symm
      have apart := complete.flatten_nodup distinct
      rw [parts, List.flatten_append, List.nodup_append] at apart
      exact apart.2.2 entry.2 (List.mem_flatten.mpr ⟨other, older, otherInside⟩) entry.2
        (by simpa using inGroup) rfl
  · intro before entry after split goal latest
    refine mem_keptEntries.mpr ⟨by simp [split], isGoal_foreign goal, fun gone => ?_⟩
    obtain ⟨other, otherMember, otherInside⟩ := List.mem_flatten.mp gone
    refine (isFoldable_iff.mp (foldable other otherMember).2 entry.2 otherInside).2 ?_
    have active := activeGoal_eq before goal latest
    rw [← split] at active
    exact active
  · intro before entry after split goal unanswered
    refine mem_keptEntries.mpr ⟨by simp [split], isGoal_foreign goal, fun gone => ?_⟩
    obtain ⟨other, otherMember, otherInside⟩ := List.mem_flatten.mp gone
    refine (isFoldable_iff.mp (foldable other otherMember).2 entry.2 otherInside).1 ?_
    have outstanding := mem_outstandingGoals before goal unanswered
    rw [← split] at outstanding
    exact outstanding
  · intro group member
    rcases kept_whole complete distinct among member with ⟨-, gone⟩ | stays
    · refine .inr fun entry kept inGroup => ?_
      exact (mem_keptEntries.mp kept).2.2 (gone entry.2 inGroup)
    · refine .inl fun entry present inGroup => ?_
      exact mem_keptEntries.mpr ⟨present, stays entry.2 inGroup⟩

/-! ## The result is complete again -/

section Insert

variable {κ κ' : Type}

def insertEntry (entry : ModelMessage × κ) (entries : Keyed κ) : Keyed κ :=
  entries.takeWhile (·.1.isSystem) ++ entry :: entries.dropWhile (·.1.isSystem)

theorem insertEntry_messages (summary : String) (key : κ) (entries : Keyed κ) :
    (insertEntry (summaryMessage summary, key) entries).map (·.1) =
      insertSummary (entries.map (·.1)) summary := by
  simp only [insertEntry, insertSummary, List.map_append, List.map_cons, List.takeWhile_map,
    List.dropWhile_map, Function.comp_def]

theorem keysOf_insertEntry (message : ModelMessage) (key : κ) (entries : Keyed κ) :
    (keysOf (insertEntry (message, key) entries)).Perm (key :: keysOf entries) := by
  simp only [insertEntry, keysOf, List.map_append, List.map_cons]
  refine List.perm_middle.trans (List.Perm.cons _ ?_)
  rw [← List.map_append, List.takeWhile_append_dropWhile]

theorem insertEntry_nodup {message : ModelMessage} {key : κ} {entries : Keyed κ}
    (distinct : (keysOf entries).Nodup) (fresh : key ∉ keysOf entries) :
    (keysOf (insertEntry (message, key) entries)).Nodup :=
  (keysOf_insertEntry message key entries).nodup_iff.mpr (List.nodup_cons.mpr ⟨fresh, distinct⟩)

theorem Complete.insertEntry {entries : Keyed κ} {groups : List (List κ)}
    (complete : Complete none entries groups) (message : ModelMessage) {key : κ}
    (fresh : key ∉ keysOf entries) :
    Complete (some key) (Runtime.insertEntry (message, key) entries) groups := by
  apply Complete.insert
  · rw [List.takeWhile_append_dropWhile]
    exact complete
  · intro entry member
    have system := List.mem_takeWhile_imp member
    exact system
  · rw [List.takeWhile_append_dropWhile]
    exact fresh

theorem priorSummary_insertEntry {summary : String} (present : summary ≠ "") (key : κ)
    (entries : Keyed κ) :
    priorSummary summary (insertEntry (summaryMessage summary, key) entries) = some key := by
  have none : (entries.takeWhile (·.1.isSystem)).find?
      (fun entry => isEnvelope summary entry.1) = none := by
    rw [List.find?_eq_none]
    intro entry member
    have system := List.mem_takeWhile_imp member
    rw [not_isEnvelope_of_isSystem system]
    exact Bool.false_ne_true
  simp [priorSummary, present, insertEntry, List.find?_append, none]

theorem priorSummary_rename (summary : String) (entries : Keyed κ) (key : κ → κ') :
    priorSummary summary (entries.map fun entry => (entry.1, key entry.2)) =
      (priorSummary summary entries).map key := by
  unfold priorSummary
  split
  · rfl
  · rw [List.find?_map]
    simp [Function.comp_def]

theorem priorSummary_empty (entries : Keyed κ) : priorSummary "" entries = none := rfl

variable [DecidableEq κ]

theorem completeGroups_zipIdx {summary : String} {entries : Keyed κ} {groups : List (List κ)}
    (complete : Complete (priorSummary summary entries) entries groups)
    (distinct : (keysOf entries).Nodup) :
    ∃ positions, completeGroups (priorSummary summary (entries.map (·.1)).zipIdx)
      (entries.map (·.1)).zipIdx = .ok positions := by
  refine ⟨groups.map (List.map fun key => (keysOf entries).idxOf key),
    completeGroups_ok_iff.mpr ?_⟩
  rw [zipIdx_rekey distinct,
    priorSummary_rename summary entries fun key => (keysOf entries).idxOf key]
  apply complete.rename (fun key => (keysOf entries).idxOf key)
  intro entry member
  have present : entry.2 ∈ keysOf entries := List.mem_map.mpr ⟨entry, member, rfl⟩
  cases priorSummary summary entries with
  | none => simp
  | some key =>
      simp only [Option.map_some, Option.some.injEq]
      exact (List.idxOf_inj present).symm

end Insert

namespace ContextManager

/-- The messages of a prepared request are the kept ones, with at most one envelope among them. -/
def Carries (kept : List ModelMessage) (summary : String) (messages : List ModelMessage) : Prop :=
  messages = kept ∨ ∃ front back, kept = front ++ back ∧
    messages = front ++ summaryMessage summary :: back

theorem prepare_preserves (fromStr : String → Option Json.Value) (manager : ContextManager)
    (request : ModelRequest) (reserve : Nat) (compaction : Option Compaction)
    (prepared : (manager.prepare fromStr request reserve).result = .ok compaction) :
    ∃ groups kept,
      completeGroups (priorSummary manager.summary request.messages.zipIdx)
        request.messages.zipIdx = .ok groups ∧
      Preserves manager request groups kept ∧
      Carries (kept.map (·.1)) (manager.prepare fromStr request reserve).manager.summary
        (manager.prepare fromStr request reserve).request.messages ∧
      ∃ groups', completeGroups
        (priorSummary (manager.prepare fromStr request reserve).manager.summary
          (manager.prepare fromStr request reserve).request.messages.zipIdx)
        (manager.prepare fromStr request reserve).request.messages.zipIdx = .ok groups' := by
  rcases prepare_cases fromStr manager request reserve with
    ⟨error, failed, -⟩ | ⟨_, outcome, _, _, plan, rfl, succeeded⟩
  · rw [failed] at prepared
    cases prepared
  · have planned := plan_planned fromStr manager
      { request with maxOutputTokens := some reserve } reserve request.messages.zipIdx
    rw [plan] at planned
    rw [succeeded]
    simp only
    generalize same : (Except.ok outcome : Except Error (Option (Rewrite Nat))) = result at planned
    cases planned with
    | malformed => cases same
    | overflow => cases same
    | @early groups grouped =>
        obtain rfl := Except.ok.inj same
        exact ⟨groups, _, grouped, preserves_all manager request groups,
          .inl (by simp [List.zipIdx_map_fst]), groups, grouped⟩
    | @settled groups folded rest grouped _ parts _ window =>
        have same := Except.ok.inj same
        cases outcome with
        | none =>
            exact ⟨groups, _, grouped, preserves_all manager request groups,
              .inl (by simp [List.zipIdx_map_fst]), groups, grouped⟩
        | some rewrite =>
            obtain ⟨fits, few, -⟩ := fitsWindow_iff.mp window
            obtain ⟨rfl, settled, -⟩ := settleSummary_some same.symm fits few
            have complete := completeGroups_ok_iff.mp grouped
            have distinct := keysOf_zipIdx_nodup request.messages
            have chosen : ∀ group ∈ rewrite.folded, group ∈ (eligible
                (priorSummary manager.summary request.messages.zipIdx) request.messages.zipIdx
                groups).map (·.1) := by
              intro group member
              rw [parts]
              exact List.mem_append_left _ member
            have among : ∀ group ∈ rewrite.folded, group ∈ groups := fun group member =>
              List.mem_of_mem_dropLast (eligible_mem (chosen group member)).1
            refine ⟨groups, rewrite.kept, grouped, ?_, ?_, ?_⟩
            · rw [settled.kept]
              exact preserves_kept complete chosen
            · simp only [Option.map_some, Option.getD_some, settled.messages]
              split
              · exact .inl rfl
              · exact .inr ⟨_, _, (List.takeWhile_append_dropWhile).symm, rfl⟩
            · have left := complete_kept complete distinct among
              have among := keysOf_kept_sublist (priorSummary manager.summary
                request.messages.zipIdx) rewrite.folded request.messages.zipIdx
              rw [← settled.kept] at left among
              have leftDistinct := distinct.sublist among
              simp only [Option.map_some, Option.getD_some, settled.messages]
              by_cases empty : rewrite.summary = ""
              · rw [if_pos empty, empty]
                exact completeGroups_zipIdx left leftDistinct
              · rw [if_neg empty]
                have absent : request.messages.length ∉ keysOf rewrite.kept := fun member =>
                  absurd (among.subset member) (length_notMem_keysOf_zipIdx request.messages)
                rw [← insertEntry_messages rewrite.summary request.messages.length]
                apply completeGroups_zipIdx
                · rw [priorSummary_insertEntry empty]
                  exact left.insertEntry _ absent
                · exact insertEntry_nodup leftDistinct absent

/-- Two turns and a third goal. -/
def shortTalk : ModelRequest where
  model := "m"
  messages := [.system "s", .user "a", .assistant "b" [], .user "c"]
  tools := []
  toolChoice := .none
  reasoningEffort := none
  outputSchema := none
  maxOutputTokens := none

theorem prepare_preserves_shortTalk :
    ((withBounds 200 1 1).prepare (fun _ => none) shortTalk 8).result = .ok (some ⟨2, 13⟩) ∧
      ∃ groups kept, completeGroups (priorSummary "" shortTalk.messages.zipIdx)
          shortTalk.messages.zipIdx = .ok groups ∧
        Preserves (withBounds 200 1 1) shortTalk groups kept :=
  have prepared : ((withBounds 200 1 1).prepare (fun _ => none) shortTalk 8).result =
      .ok (some ⟨2, 13⟩) := by decide +kernel
  ⟨prepared,
    have ⟨groups, kept, grouped, preserves, _⟩ := prepare_preserves _ _ _ _ _ prepared
    ⟨groups, kept, grouped, preserves⟩⟩

end ContextManager

end Kvist.Runtime
