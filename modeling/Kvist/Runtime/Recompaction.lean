import Kvist.Runtime.CompactionProperties

/-!
# Preparing again

A second `prepare` finds its own envelope, the groups that were kept, and no group that may be
folded before the preferred start. The request without its envelope fits as it did, and so does
the envelope.
-/

set_option autoImplicit false

namespace Kvist.Runtime

/-! ## Other keys -/

section Rename

variable {κ κ' : Type} [DecidableEq κ] [DecidableEq κ'] {key : κ → κ'}

/-- The same messages under other keys. -/
def rekey (key : κ → κ') (entries : Keyed κ) : Keyed κ' :=
  entries.map fun entry => (entry.1, key entry.2)

theorem isGoal_rekey (injective : key.Injective) (envelope : Option κ)
    (entry : ModelMessage × κ) :
    isGoal (envelope.map key) (entry.1, key entry.2) = isGoal envelope entry := by
  cases envelope with
  | none => simp [isGoal]
  | some own => simp [isGoal, injective.eq_iff]

theorem outstandingGoals_rekey (injective : key.Injective) (envelope : Option κ)
    (entries : Keyed κ) :
    outstandingGoals (envelope.map key) (rekey key entries) =
      (outstandingGoals envelope entries).map key := by
  have goals : (isGoal (envelope.map key) ∘ fun entry : ModelMessage × κ =>
      (entry.1, key entry.2)) = isGoal envelope :=
    funext fun entry => isGoal_rekey injective envelope entry
  simp only [outstandingGoals, rekey, ← List.map_reverse, List.takeWhile_map, List.filter_map,
    goals, List.map_map, Function.comp_def]

theorem activeGoal_rekey (injective : key.Injective) (envelope : Option κ)
    (entries : Keyed κ) :
    activeGoal (envelope.map key) (rekey key entries) = (activeGoal envelope entries).map key := by
  have goals : (isGoal (envelope.map key) ∘ fun entry : ModelMessage × κ =>
      (entry.1, key entry.2)) = isGoal envelope :=
    funext fun entry => isGoal_rekey injective envelope entry
  simp only [activeGoal, rekey, ← List.map_reverse, List.find?_map, goals, Option.map_map,
    Function.comp_def]

theorem isFoldable_rekey (injective : key.Injective) (envelope : Option κ)
    (entries : Keyed κ) (group : List κ) :
    isFoldable (envelope.map key) (rekey key entries) (group.map key) =
      isFoldable envelope entries group := by
  rw [Bool.eq_iff_iff, isFoldable_iff, isFoldable_iff, outstandingGoals_rekey injective,
    activeGoal_rekey injective]
  simp only [List.forall_mem_map, List.mem_map_of_injective injective]
  cases activeGoal envelope entries with
  | none => simp
  | some goal => simp [injective.eq_iff]

theorem eligible_rekey (injective : key.Injective) (envelope : Option κ)
    (entries : Keyed κ) (groups : List (List κ)) :
    eligible (envelope.map key) (rekey key entries) (groups.map (List.map key)) =
      (eligible envelope entries groups).map fun indexed => (indexed.1.map key, indexed.2) := by
  simp only [eligible, List.zipIdx_map, List.filter_map, List.length_map, Function.comp_def,
    Prod.map_fst, Prod.map_snd, isFoldable_rekey injective]
  rfl

theorem keptEntries_rekey (injective : key.Injective) (envelope : Option κ)
    (entries : Keyed κ) :
    keptEntries (envelope.map key) [] (rekey key entries) =
      rekey key (keptEntries envelope [] entries) := by
  have kept : ∀ own : κ, some (key own) = envelope.map key ↔ some own = envelope := by
    intro own
    cases envelope with
    | none => simp
    | some other => simp [injective.eq_iff]
  simp only [keptEntries, rekey, List.filter_map, Function.comp_def, ne_eq, kept,
    List.flatten_nil, List.contains_nil]

end Rename

/-! ## The goals of the rest -/

section Goals

variable {κ : Type} [DecidableEq κ] {envelope : Option κ} {entries : Keyed κ}

theorem outstandingGoals_split {key : κ} (member : key ∈ outstandingGoals envelope entries) :
    ∃ before entry after, entries = before ++ entry :: after ∧ entry.2 = key ∧
      isGoal envelope entry = true ∧ ∀ later ∈ after, isAnswer later.1 = false := by
  obtain ⟨entry, found, rfl⟩ := List.mem_map.mp member
  obtain ⟨taken, goal⟩ := List.mem_filter.mp found
  obtain ⟨newer, older, split⟩ := List.append_of_mem taken
  have reversed : entries.reverse = newer ++
      entry :: (older ++ entries.reverse.dropWhile fun entry => !isAnswer entry.1) := by
    rw [← List.cons_append, ← List.append_assoc, ← split, List.takeWhile_append_dropWhile]
  refine ⟨(older ++ entries.reverse.dropWhile fun entry => !isAnswer entry.1).reverse,
    entry, newer.reverse, ?_, rfl, goal, ?_⟩
  · have forward := congrArg List.reverse reversed
    simpa using forward
  · intro later member
    have inside : later ∈ entries.reverse.takeWhile fun entry => !isAnswer entry.1 := by
      rw [split]
      exact List.mem_append_left _ (List.mem_reverse.mp member)
    have unanswered := List.mem_takeWhile_imp inside
    simpa using unanswered

theorem activeGoal_split {key : κ} (active : activeGoal envelope entries = some key) :
    ∃ before entry after, entries = before ++ entry :: after ∧ entry.2 = key ∧
      isGoal envelope entry = true ∧ ∀ later ∈ after, isGoal envelope later = false := by
  obtain ⟨entry, found, rfl⟩ := Option.map_eq_some_iff.mp active
  obtain ⟨goal, newer, older, split, none⟩ := List.find?_eq_some_iff_append.mp found
  refine ⟨older.reverse, entry, newer.reverse, ?_, rfl, goal, ?_⟩
  · have reversed := congrArg List.reverse split
    simpa using reversed
  · intro later member
    simpa using none later (List.mem_reverse.mp member)

omit [DecidableEq κ] in
theorem insertEntry_append (own : ModelMessage × κ) (before : Keyed κ) {after : Keyed κ}
    {entry : ModelMessage × κ} (other : entry.1.isSystem = false) :
    insertEntry own (before ++ entry :: after) = insertEntry own before ++ entry :: after := by
  induction before with
  | nil => simp [insertEntry, other]
  | cons first rest ih =>
      cases system : first.1.isSystem with
      | true =>
          simp only [insertEntry, List.cons_append, system, List.takeWhile_cons_of_pos,
            List.dropWhile_cons_of_pos, List.cons.injEq, true_and] at ih ⊢
          exact ih
      | false => simp [insertEntry, system]

/-- The history after a rewriting: what is kept, with the summary in front of it. -/
def carried (summary : String) (fresh : κ) (kept : Keyed κ) : Keyed κ :=
  if summary = "" then kept else insertEntry (summaryMessage summary, fresh) kept

def carriedKey (summary : String) (fresh : κ) : Option κ :=
  if summary = "" then none else some fresh

omit [DecidableEq κ] in
theorem carried_messages (summary : String) (fresh : κ) (kept : Keyed κ) :
    (carried summary fresh kept).map (·.1) =
      if summary = "" then kept.map (·.1) else insertSummary (kept.map (·.1)) summary := by
  unfold carried
  split
  · rfl
  · exact insertEntry_messages summary fresh kept

omit [DecidableEq κ] in
theorem carried_append (summary : String) (fresh : κ) (before : Keyed κ) {after : Keyed κ}
    {entry : ModelMessage × κ} (other : entry.1.isSystem = false) :
    carried summary fresh (before ++ entry :: after) =
      carried summary fresh before ++ entry :: after := by
  unfold carried
  split
  · rfl
  · exact insertEntry_append _ before other

omit [DecidableEq κ] in
theorem priorSummary_carried (summary : String) (fresh : κ) (kept : Keyed κ) :
    priorSummary summary (carried summary fresh kept) = carriedKey summary fresh := by
  unfold carried carriedKey
  split
  · next empty =>
      rw [empty]
      rfl
  · next present => exact priorSummary_insertEntry present fresh kept

theorem isGoal_carried {summary : String} {fresh : κ} {entry : ModelMessage × κ}
    (apart : entry.2 ≠ fresh) (goal : isGoal envelope entry = true) :
    isGoal (carriedKey summary fresh) entry = true := by
  simp only [isGoal, Bool.and_eq_true, decide_eq_true_eq] at goal ⊢
  refine ⟨?_, goal.2⟩
  unfold carriedKey
  split
  · simp
  · simpa using apart

/-- A later message that is no goal of the whole history is none of the rest. -/
theorem isGoal_of_carried {summary : String} {fresh : κ} {entry : ModelMessage × κ}
    (foreign : some entry.2 ≠ envelope)
    (goal : isGoal (carriedKey summary fresh) entry = true) : isGoal envelope entry = true := by
  simp only [isGoal, Bool.and_eq_true, decide_eq_true_eq] at goal ⊢
  exact ⟨foreign, goal.2⟩

theorem isGoal_not_system {entry : ModelMessage × κ} (goal : isGoal envelope entry = true) :
    entry.1.isSystem = false := by
  simp only [isGoal, Bool.and_eq_true] at goal
  cases message : entry.1 <;> simp_all [ModelMessage.isSystem, ModelMessage.isUser]

/-- A group of the rest that may be folded there could have been folded before. -/
theorem isFoldable_of_carried {folded : List (List κ)} {summary : String} {fresh : κ}
    {group : List κ} (absent : fresh ∉ keysOf (keptEntries envelope folded entries))
    (present : ∀ key ∈ group, key ∉ folded.flatten)
    (foldable : isFoldable (carriedKey summary fresh)
      (carried summary fresh (keptEntries envelope folded entries)) group = true) :
    isFoldable envelope entries group = true := by
  rw [isFoldable_iff] at foldable ⊢
  intro key member
  obtain ⟨settled, inactive⟩ := foldable key member
  -- a goal of the whole history stays in the rest
  have stays : ∀ (before after : Keyed κ) (entry : ModelMessage × κ),
      entries = before ++ entry :: after → entry.2 = key → isGoal envelope entry = true →
      carried summary fresh (keptEntries envelope folded entries) =
        carried summary fresh (keptEntries envelope folded before) ++
          entry :: keptEntries envelope folded after ∧ entry.2 ≠ fresh := by
    intro before after entry split own goal
    have kept : entry ∈ keptEntries envelope folded entries := by
      refine mem_keptEntries.mpr ⟨by simp [split], isGoal_foreign goal, ?_⟩
      rw [own]
      exact present key member
    refine ⟨?_, ?_⟩
    · have parts : keptEntries envelope folded entries =
          keptEntries envelope folded before ++ entry :: keptEntries envelope folded after := by
        have chosen := (List.mem_filter.mp kept).2
        simp only [keptEntries, split, List.filter_append] at chosen ⊢
        rw [List.filter_cons, if_pos chosen]
      rw [parts]
      exact carried_append summary fresh _ (isGoal_not_system goal)
    · intro same
      exact absent (same ▸ List.mem_map.mpr ⟨entry, kept, rfl⟩)
  constructor
  · intro outstanding
    obtain ⟨before, entry, after, split, own, goal, unanswered⟩ :=
      outstandingGoals_split outstanding
    obtain ⟨parts, apart⟩ := stays before after entry split own goal
    refine settled ?_
    rw [parts, ← own]
    apply mem_outstandingGoals _ (isGoal_carried apart goal)
    intro later inside
    exact unanswered later (mem_keptEntries.mp inside).1
  · intro active
    obtain ⟨before, entry, after, split, own, goal, latest⟩ := activeGoal_split active
    obtain ⟨parts, apart⟩ := stays before after entry split own goal
    refine inactive ?_
    rw [parts, ← own]
    apply activeGoal_eq _ (isGoal_carried apart goal)
    intro later inside
    obtain ⟨among, foreign, -⟩ := mem_keptEntries.mp inside
    by_contra again
    rw [Bool.not_eq_false] at again
    exact absurd (isGoal_of_carried foreign again) (by simp [latest later among])

end Goals

/-! ## The groups of the rest -/

section Groups

variable {κ : Type} [DecidableEq κ] {envelope : Option κ} {entries : Keyed κ}
  {groups : List (List κ)}

omit [DecidableEq κ] in
theorem groups_nodup (complete : Complete envelope entries groups)
    (distinct : (keysOf entries).Nodup) : groups.Nodup := by
  refine (List.nodup_flatten.mp (complete.flatten_nodup distinct)).2.imp_of_mem ?_
  intro left right member _ apart same
  subst same
  obtain ⟨key, inside⟩ := List.exists_mem_of_ne_nil _ (complete.nonempty _ member)
  exact apart inside inside

theorem eligible_ordered (envelope : Option κ) (entries : Keyed κ) (groups : List (List κ)) :
    (eligible envelope entries groups).Pairwise (·.2 < ·.2) := by
  apply List.Pairwise.filter
  rw [List.pairwise_iff_getElem]
  intro left right leftBound rightBound before
  simpa using before

omit [DecidableEq κ] in
theorem filter_place {keep : List κ → Bool} {group : List κ} {index : Nat}
    (member : (group, index) ∈ (groups.filter keep).zipIdx) :
    ∃ before after, groups = before ++ group :: after ∧ keep group = true ∧
      (before.filter keep).length = index := by
  obtain ⟨bound, same⟩ := List.mem_zipIdx' member
  have split : groups.filter keep = (groups.filter keep).take index ++
      group :: (groups.filter keep).drop (index + 1) := by
    rw [same, ← List.drop_eq_getElem_cons, List.take_append_drop]
  obtain ⟨front, back, whole, frontKept, backKept⟩ := List.filter_eq_append_iff.mp split
  obtain ⟨skipped, after, rfl, none, own, -⟩ := List.filter_eq_cons_iff.mp backKept
  refine ⟨front ++ skipped, after, by simp [whole], own, ?_⟩
  rw [List.filter_append, frontKept, List.filter_eq_nil_iff.mpr none, List.append_nil,
    List.length_take]
  exact Nat.min_eq_left bound.le

/-- A group of the rest stands as far from the end as before. -/
theorem eligible_behind {front back : List (List κ × Nat)} {keep : List κ → Bool}
    (distinct : groups.Nodup) (parts : eligible envelope entries groups = front ++ back)
    (kept : ∀ group ∈ groups, keep group = true ↔ group ∉ front.map (·.1))
    {group : List κ} {index : Nat} (member : (group, index) ∈ (groups.filter keep).zipIdx)
    (older : index + 1 ≠ (groups.filter keep).length)
    (foldable : isFoldable envelope entries group = true) :
    ∃ place, (group, place) ∈ back ∧
      place + (groups.filter keep).length = index + groups.length := by
  obtain ⟨before, after, split, own, place⟩ := filter_place member
  have length : (groups.filter keep).length = index + 1 + (after.filter keep).length := by
    rw [split, List.filter_append, List.filter_cons, if_pos own, List.length_append,
      List.length_cons, place]
    omega
  have whole : groups.length = before.length + 1 + after.length := by
    rw [split, List.length_append, List.length_cons]
    omega
  have indexed : (group, before.length) ∈ groups.zipIdx := by
    rw [List.mk_mem_zipIdx_iff_getElem?, split]
    simp
  have candidate : (group, before.length) ∈ eligible envelope entries groups := by
    refine List.mem_filter.mpr ⟨indexed, ?_⟩
    simp only [Bool.and_eq_true, decide_eq_true_eq]
    refine ⟨fun last => older ?_, foldable⟩
    obtain rfl : after = [] := List.eq_nil_of_length_eq_zero (by omega)
    simpa using length.symm
  rw [parts, List.mem_append] at candidate
  have behind : (group, before.length) ∈ back := by
    refine candidate.resolve_left fun inFront => ?_
    refine (kept group ?_).mp own (List.mem_map.mpr ⟨_, inFront, rfl⟩)
    simp [split]
  have rest : after.filter keep = after := by
    rw [List.filter_eq_self]
    intro other inside
    by_contra removed
    have among : other ∈ groups := by simp [split, inside]
    have folded : other ∈ front.map (·.1) := by
      by_contra absent
      exact removed ((kept other among).mpr absent)
    obtain ⟨⟨twin, earlier⟩, inFront, same⟩ := List.mem_map.mp folded
    obtain rfl : twin = other := same
    have ordered := eligible_ordered envelope entries groups
    rw [parts, List.pairwise_append] at ordered
    have smaller : earlier < before.length := ordered.2.2 _ inFront _ behind
    have found : (twin, earlier) ∈ groups.zipIdx := by
      have candidate : (twin, earlier) ∈ eligible envelope entries groups := by
        rw [parts]
        exact List.mem_append_left _ inFront
      exact (List.mem_filter.mp candidate).1
    rw [List.mk_mem_zipIdx_iff_getElem?, split, List.getElem?_append_left smaller] at found
    rw [split, List.nodup_append] at distinct
    exact distinct.2.2 _ (List.mem_of_getElem? found) _ (List.mem_cons_of_mem _ inside) rfl
  refine ⟨before.length, behind, ?_⟩
  rw [rest] at length
  omega

omit [DecidableEq κ] in
theorem dropWhile_ordered {places : List (List κ × Nat)} (ordered : places.Pairwise (·.2 < ·.2))
    (start : Nat) : ∀ place ∈ places.dropWhile (·.2 < start), ¬place.2 < start := by
  induction places with
  | nil => simp
  | cons place rest ih =>
      rw [List.pairwise_cons] at ordered
      by_cases early : place.2 < start
      · rw [List.dropWhile_cons_of_pos (by simpa using early)]
        exact ih ordered.2
      · rw [List.dropWhile_cons_of_neg (by simpa using early)]
        intro other member
        rcases List.mem_cons.mp member with rfl | later
        · exact early
        · have behind := ordered.1 other later
          omega

theorem keep_iff {folded : List (List κ)} (complete : Complete envelope entries groups)
    (distinct : (keysOf entries).Nodup) (chosen : ∀ group ∈ folded, group ∈ groups)
    {group : List κ} (member : group ∈ groups) :
    (group.all fun key => some key ≠ envelope && !folded.flatten.contains key) = true ↔
      group ∉ folded := by
  rcases kept_whole complete distinct chosen member with ⟨removed, gone⟩ | stays
  · obtain ⟨key, inside⟩ := List.exists_mem_of_ne_nil _ (complete.nonempty _ member)
    refine ⟨fun all => ?_, fun absent => absurd removed absent⟩
    have own := List.all_eq_true.mp all key inside
    simp [List.mem_flatten.mp (gone key inside)] at own
  · refine ⟨fun _ removed => ?_, fun _ => ?_⟩
    · obtain ⟨key, inside⟩ := List.exists_mem_of_ne_nil _ (complete.nonempty _ member)
      exact (stays key inside).2 (List.mem_flatten.mpr ⟨group, removed, inside⟩)
    · rw [List.all_eq_true]
      intro key inside
      obtain ⟨foreign, absent⟩ := stays key inside
      simp only [Bool.and_eq_true, decide_eq_true_eq, Bool.not_eq_true', List.contains_eq_mem,
        decide_eq_false_iff_not]
      exact ⟨foreign, absent⟩

/-- What may be folded of the rest was left over before, and stands behind the preferred start. -/
theorem eligible_again (summary : String) {folded rest : List (List κ)} {keepFullTurns : Nat}
    {fresh : κ} (complete : Complete envelope entries groups) (distinct : (keysOf entries).Nodup)
    (parts : (eligible envelope entries groups).map (·.1) = folded ++ rest)
    (preferred : ((eligible envelope entries groups).takeWhile
      (·.2 < groups.length - keepFullTurns)).length ≤ folded.length)
    (absent : fresh ∉ keysOf (keptEntries envelope folded entries)) :
    ∀ indexed ∈ eligible (carriedKey summary fresh)
        (carried summary fresh (keptEntries envelope folded entries))
        (keptGroups envelope folded groups),
      indexed.1 ∈ rest ∧
        ¬indexed.2 < (keptGroups envelope folded groups).length - keepFullTurns := by
  rintro ⟨group, index⟩ member
  simp only [eligible, List.mem_filter, Bool.and_eq_true, decide_eq_true_eq] at member
  obtain ⟨indexed, older, foldable⟩ := member
  have chosen : ∀ group ∈ folded, group ∈ groups := by
    intro group member
    have candidate : group ∈ (eligible envelope entries groups).map (·.1) := by
      rw [parts]
      exact List.mem_append_left _ member
    exact List.mem_of_mem_dropLast (eligible_mem candidate).1
  have split := (List.take_append_drop folded.length (eligible envelope entries groups)).symm
  have front : ((eligible envelope entries groups).take folded.length).map (·.1) = folded := by
    rw [List.map_take, parts, List.take_left]
  have back : ((eligible envelope entries groups).drop folded.length).map (·.1) = rest := by
    rw [List.map_drop, parts, List.drop_left]
  obtain ⟨inGroups, stays⟩ := List.mem_filter.mp (List.fst_mem_of_mem_zipIdx indexed)
  have present : ∀ key ∈ group, key ∉ folded.flatten := by
    intro key inside
    have own := List.all_eq_true.mp stays key inside
    simp only [Bool.and_eq_true, Bool.not_eq_true', List.contains_eq_mem,
      decide_eq_false_iff_not] at own
    exact own.2
  obtain ⟨place, behind, far⟩ := eligible_behind (groups_nodup complete distinct) split
    (by
      intro group member
      rw [front]
      exact keep_iff complete distinct chosen member)
    indexed older (isFoldable_of_carried absent present foldable)
  refine ⟨?_, ?_⟩
  · rw [← back]
    exact List.mem_map.mpr ⟨_, behind, rfl⟩
  · have late : (group, place) ∈ (eligible envelope entries groups).dropWhile
        (·.2 < groups.length - keepFullTurns) := by
      have whole := List.takeWhile_append_dropWhile
        (p := (·.2 < groups.length - keepFullTurns)) (l := eligible envelope entries groups)
      rw [← whole, List.drop_append, List.drop_of_length_le preferred, List.nil_append] at behind
      exact List.mem_of_mem_drop behind
    have ordered := eligible_ordered envelope entries groups
    have notEarly := dropWhile_ordered ordered _ _ late
    have fewer : (keptGroups envelope folded groups).length ≤ groups.length :=
      List.length_filter_le _ _
    simp only [keptGroups] at far fewer ⊢
    omega

theorem keptEntries_carried {summary : String} {fresh : κ} {kept : Keyed κ}
    (absent : fresh ∉ keysOf kept) :
    keptEntries (carriedKey summary fresh) [] (carried summary fresh kept) = kept := by
  have foreign : ∀ entry ∈ kept, entry.2 ≠ fresh := fun entry member same =>
    absent (same ▸ List.mem_map.mpr ⟨entry, member, rfl⟩)
  unfold carried carriedKey
  split
  · simp [keptEntries]
  · have front : ∀ entry ∈ kept.takeWhile (·.1.isSystem), entry.2 ≠ fresh := fun entry member =>
      foreign entry ((List.takeWhile_sublist _).subset member)
    have back : ∀ entry ∈ kept.dropWhile (·.1.isSystem), entry.2 ≠ fresh := fun entry member =>
      foreign entry ((List.dropWhile_sublist _).subset member)
    simp only [keptEntries, insertEntry, List.filter_append, List.filter_cons]
    rw [List.filter_eq_self.mpr (by simpa using front), List.filter_eq_self.mpr (by simpa using back)]
    simp

theorem complete_carried {folded : List (List κ)} {summary : String} {fresh : κ}
    (complete : Complete envelope entries groups) (distinct : (keysOf entries).Nodup)
    (chosen : ∀ group ∈ folded, group ∈ groups)
    (absent : fresh ∉ keysOf (keptEntries envelope folded entries)) :
    Complete (carriedKey summary fresh)
      (carried summary fresh (keptEntries envelope folded entries))
      (keptGroups envelope folded groups) := by
  have complete := complete_kept complete distinct chosen
  unfold carried carriedKey
  split
  · exact complete
  · exact complete.insertEntry _ absent

omit [DecidableEq κ] in
theorem carried_nodup {summary : String} {fresh : κ} {kept : Keyed κ}
    (distinct : (keysOf kept).Nodup) (absent : fresh ∉ keysOf kept) :
    (keysOf (carried summary fresh kept)).Nodup := by
  unfold carried
  split
  · exact distinct
  · exact insertEntry_nodup distinct absent

end Groups

/-! ## Positions again -/

def placeOf (keys : List Nat) (key : Nat) : Nat :=
  if key ∈ keys then keys.idxOf key else keys.length + key

theorem placeOf_injective (keys : List Nat) : (placeOf keys).Injective := by
  intro left right same
  unfold placeOf at same
  split at same
  · next leftMember =>
      have bound := List.idxOf_lt_length_of_mem leftMember
      split at same
      · exact (List.idxOf_inj leftMember).mp same
      · omega
  · split at same
    · next rightMember =>
        have bound := List.idxOf_lt_length_of_mem rightMember
        omega
    · omega

theorem zipIdx_placeOf {entries : Keyed Nat} (distinct : (keysOf entries).Nodup) :
    (entries.map (·.1)).zipIdx = rekey (placeOf (keysOf entries)) entries := by
  rw [zipIdx_rekey distinct]
  apply List.map_congr_left
  intro entry member
  have present : entry.2 ∈ keysOf entries := List.mem_map.mpr ⟨entry, member, rfl⟩
  simp [placeOf, present]

namespace ContextManager

variable {fromStr : String → Option Json.Value}

theorem compactFrom_fits {κ : Type} [DecidableEq κ] {manager : ContextManager}
    {request : ModelRequest} {reserve : Nat} {envelope : Option κ} {entries : Keyed κ}
    {rolled : String} {folded remaining : List (List κ)}
    (fits : manager.fitsWindow reserve (irreducible request envelope entries folded)
      (!remaining.isEmpty) = true) :
    compactFrom fromStr manager request reserve envelope entries rolled folded remaining =
      .ok (manager.settleSummary request reserve envelope entries rolled folded) := by
  cases remaining with
  | nil =>
      rw [compactFrom, if_pos]
      simpa using fits
  | cons group rest =>
      rw [compactFrom, if_pos]
      simpa using fits

/-- With nothing more that may be removed, what fitted still fits. -/
theorem fitsWindow_fewer {manager : ContextManager} {reserve : Nat} {candidate : ModelRequest}
    {more fewer : Bool} (fits : manager.fitsWindow reserve candidate more = true)
    (ordered : fewer = true → more = true) :
    manager.fitsWindow reserve candidate fewer = true := by
  rw [fitsWindow_iff] at fits ⊢
  refine ⟨fits.1, fits.2.1, fun retention => ?_⟩
  rcases fits.2.2 retention with small | none
  · exact .inl small
  · refine .inr ?_
    cases fewer with
    | false => rfl
    | true => exact absurd (ordered rfl) (by simp [none])

/-- The bound that the summary has to fit under. -/
def summaryWindow (manager : ContextManager) (reserve : Nat) (candidate : ModelRequest) : Nat :=
  if manager.capacityRetention then max manager.target (estimateRequest candidate + reserve)
  else manager.limitTokens

theorem settleSummary_fitted {κ : Type} [DecidableEq κ] {manager : ContextManager}
    {request : ModelRequest} {reserve : Nat} {envelope : Option κ} {entries : Keyed κ}
    {rolled : String} {folded : List (List κ)} {rewrite : Rewrite κ}
    (settled : manager.settleSummary request reserve envelope entries rolled folded = some rewrite)
    (present : rewrite.summary ≠ "") :
    (irreducible request envelope entries folded).messages.length ≠ MAX_MESSAGES ∧
      estimateRequest (withSummary (irreducible request envelope entries folded)
          rewrite.summary) + reserve ≤
        manager.summaryWindow reserve (irreducible request envelope entries folded) := by
  unfold settleSummary at settled
  simp only at settled
  split at settled
  · cases settled
  · simp only [Option.some.injEq] at settled
    rcases fitSummary_cases (irreducible request envelope entries folded)
        (if (irreducible request envelope entries folded).messages.length = MAX_MESSAGES then ""
          else rolled) reserve
        (manager.summaryWindow reserve (irreducible request envelope entries folded)) with
      omitted | ⟨fitted, _, bounded, inserted, within⟩
    · have same := congrArg Rewrite.summary settled
      simp only [summaryWindow] at omitted
      rw [omitted] at same
      exact absurd same.symm present
    · simp only [summaryWindow] at inserted within
      rw [inserted] at settled
      subst settled
      refine ⟨fun full => ?_, within⟩
      rw [if_pos full] at bounded
      apply present
      apply String.toList_injective
      exact List.eq_nil_of_length_eq_zero (Nat.le_zero.mp bounded)

/-- A summary that fits is inserted whole. -/
theorem settleSummary_again {κ : Type} [DecidableEq κ] {manager : ContextManager}
    {request : ModelRequest} {reserve : Nat} {envelope : Option κ} {entries : Keyed κ}
    {summary : String} (own : envelope.isSome = true) (present : summary ≠ "")
    (room : (irreducible request envelope entries []).messages.length ≠ MAX_MESSAGES)
    (within : estimateRequest (withSummary (irreducible request envelope entries []) summary) +
        reserve ≤ manager.summaryWindow reserve (irreducible request envelope entries [])) :
    manager.settleSummary request reserve envelope entries summary [] =
      some ⟨[], keptEntries envelope [] entries, summary,
        insertSummary ((keptEntries envelope [] entries).map (·.1)) summary⟩ := by
  have foreign : envelope.isNone = false := by
    simpa [Option.isSome_iff_ne_none] using own
  unfold summaryWindow at within
  simp only [settleSummary, foreign, Bool.and_false, Bool.false_eq_true, if_false, if_neg room]
  simp only [fitSummary, if_neg present, decide_eq_true_eq, if_pos within]
  rfl

theorem dropWhile_none {α : Type} (early : α → Bool) {items : List α}
    (none : ∀ item ∈ items, early item = false) :
    items.takeWhile early = [] ∧ items.dropWhile early = items := by
  cases items with
  | nil => exact ⟨rfl, rfl⟩
  | cons item rest => simp [none item (List.mem_cons_self ..)]

/-- The plan for what a plan has left: the history stays as it is. -/
theorem plan_again {manager : ContextManager} {request : ModelRequest} {reserve fresh : Nat}
    {entries : Keyed Nat} (distinct : (keysOf entries).Nodup) (unused : fresh ∉ keysOf entries)
    {rewrite : Rewrite Nat}
    (planned : Planned fromStr manager request reserve entries (.ok (some rewrite)))
    (compactions : Nat) :
    plan fromStr { manager with summary := rewrite.summary, compactions }
        { request with messages := rewrite.messages } reserve rewrite.messages.zipIdx =
      .ok none ∨
    ∃ kept, plan fromStr { manager with summary := rewrite.summary, compactions }
        { request with messages := rewrite.messages } reserve rewrite.messages.zipIdx =
      .ok (some ⟨[], kept, rewrite.summary, rewrite.messages⟩) := by
  generalize same : (Except.ok (some rewrite) : Except Error (Option (Rewrite Nat))) = result
    at planned
  cases planned with
  | malformed => cases same
  | early => cases same
  | overflow => cases same
  | @settled groups folded rest grouped _ parts preferred window =>
      have same := (Except.ok.inj same).symm
      obtain ⟨fits, few, -⟩ := fitsWindow_iff.mp window
      obtain ⟨rfl, settled, -⟩ := settleSummary_some same fits few
      generalize priorSummary manager.summary entries = envelope at *
      have complete := completeGroups_ok_iff.mp grouped
      have chosen : ∀ group ∈ rewrite.folded, group ∈ groups := by
        intro group member
        have candidate : group ∈ (eligible envelope entries groups).map (·.1) := by
          rw [parts]
          exact List.mem_append_left _ member
        exact List.mem_of_mem_dropLast (eligible_mem candidate).1
      have kept := settled.kept
      have among := keysOf_kept_sublist envelope rewrite.folded entries
      have absent : fresh ∉ keysOf (keptEntries envelope rewrite.folded entries) :=
        fun member => unused (among.subset member)
      have messages : (carried rewrite.summary fresh rewrite.kept).map (·.1) = rewrite.messages := by
        rw [carried_messages, settled.messages]
      generalize own : placeOf (keysOf (carried rewrite.summary fresh rewrite.kept)) = key
      have injective : key.Injective := own ▸ placeOf_injective _
      have positions : rewrite.messages.zipIdx =
          rekey key (carried rewrite.summary fresh rewrite.kept) := by
        rw [← messages, ← own]
        apply zipIdx_placeOf
        rw [kept]
        exact carried_nodup (distinct.sublist among) absent
      have prior : priorSummary rewrite.summary
          (rekey key (carried rewrite.summary fresh rewrite.kept)) =
            (carriedKey rewrite.summary fresh).map key := by
        rw [rekey, priorSummary_rename, priorSummary_carried]
      have grouped' : completeGroups ((carriedKey rewrite.summary fresh).map key)
          (rekey key (carried rewrite.summary fresh rewrite.kept)) =
            .ok ((keptGroups envelope rewrite.folded groups).map (List.map key)) := by
        rw [completeGroups_ok_iff, kept]
        apply (complete_carried complete distinct chosen absent).rename key
        intro entry _
        cases carriedKey rewrite.summary fresh with
        | none => simp
        | some other => simp [injective.eq_iff]
      have left : keptEntries ((carriedKey rewrite.summary fresh).map key) []
          (rekey key (carried rewrite.summary fresh rewrite.kept)) = rekey key rewrite.kept := by
        rw [keptEntries_rekey injective, keptEntries_carried (kept ▸ absent)]
      have same' : irreducible { request with messages := rewrite.messages }
          ((carriedKey rewrite.summary fresh).map key)
          (rekey key (carried rewrite.summary fresh rewrite.kept)) [] =
            irreducible request envelope entries rewrite.folded := by
        unfold irreducible
        rw [left, ← kept]
        simp [rekey, Function.comp_def]
      have again := eligible_again rewrite.summary complete distinct parts preferred absent
      rw [← kept] at again
      simp only [plan]
      rw [positions, prior, grouped']
      simp only [ok_bind]
      split
      · exact .inl rfl
      · rw [eligible_rekey injective]
        have late : ∀ indexed ∈ (eligible (carriedKey rewrite.summary fresh)
            (carried rewrite.summary fresh rewrite.kept)
            (keptGroups envelope rewrite.folded groups)).map
              (fun indexed => (indexed.1.map key, indexed.2)),
            decide (indexed.2 < ((keptGroups envelope rewrite.folded groups).map
              (List.map key)).length - manager.keepFullTurns) = false := by
          intro indexed member
          obtain ⟨own, inside, rfl⟩ := List.mem_map.mp member
          simpa using (again own inside).2
        obtain ⟨none, whole⟩ := dropWhile_none _ late
        rw [none, whole, compactFrom_fits]
        · by_cases empty : rewrite.summary = ""
          · left
            simp [settleSummary, carriedKey, empty]
          · right
            obtain ⟨room, within⟩ := settleSummary_fitted same empty
            rw [← same'] at room within
            have own : ((carriedKey rewrite.summary fresh).map key).isSome = true := by
              simp [carriedKey, empty]
            have settled' := settleSummary_again own empty room within
            have inserted : insertSummary ((rekey key rewrite.kept).map (·.1)) rewrite.summary =
                rewrite.messages := by
              rw [settled.messages, if_neg empty]
              simp [rekey, Function.comp_def]
            rw [left, inserted] at settled'
            exact ⟨rekey key rewrite.kept, congrArg Except.ok settled'⟩
        · rw [List.map_nil, same']
          refine fitsWindow_fewer window fun more => ?_
          obtain ⟨indexed, candidate⟩ := List.exists_mem_of_ne_nil _ (by simpa using more)
          simpa using List.ne_nil_of_mem (again indexed candidate).1

theorem prepare_again (fromStr : String → Option Json.Value) {manager : ContextManager}
    {request : ModelRequest} {reserve : Nat} {compaction : Option Compaction}
    (prepared : (manager.prepare fromStr request reserve).result = .ok compaction) :
    (manager.prepare fromStr request reserve).manager.prepare fromStr
        (manager.prepare fromStr request reserve).request reserve =
      ⟨.ok none, (manager.prepare fromStr request reserve).manager,
        (manager.prepare fromStr request reserve).request⟩ := by
  cases valid : manager.validSettings reserve with
  | false =>
      rw [prepare, if_neg (by simp [valid])] at prepared
      cases prepared
  | true =>
      have planned := plan_planned fromStr manager { request with maxOutputTokens := some reserve }
        reserve request.messages.zipIdx
      cases outcome : manager.plan fromStr { request with maxOutputTokens := some reserve } reserve
          request.messages.zipIdx with
      | error error => simp [prepare, valid, outcome] at prepared
      | ok rewrite =>
          cases rewrite with
          | none => simp [prepare, valid, outcome]
          | some rewrite =>
              rw [outcome] at planned
              have again := plan_again (keysOf_zipIdx_nodup request.messages)
                (length_notMem_keysOf_zipIdx request.messages) planned
              simp only [prepare, valid, outcome, if_true]
              generalize (if (!rewrite.folded.isEmpty || decide (rewrite.summary ≠ manager.summary)) =
                true then min (manager.compactions + 1) usizeMax else manager.compactions) =
                  compactions
              have valid' : validSettings { manager with summary := rewrite.summary, compactions }
                  reserve = true := valid
              rw [if_pos valid']
              rcases again compactions with unchanged | ⟨kept, unchanged⟩
              · rw [unchanged]
              · rw [unchanged]
                simp

end ContextManager

end Kvist.Runtime
