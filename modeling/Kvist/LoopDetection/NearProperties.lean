import Kvist.LoopDetection.PatternProperties
import Kvist.Outcome

/-!
# Near periods

The search for three similar passages compares them in full only where they agree in one of the
anchors. The anchors of a terminal inspection are so many that they never miss similar passages.
-/

set_option autoImplicit false

namespace Kvist.LoopDetection

open RollingHash

/-- The words with their signatures, as an inspection hashes them. -/
def wordSignatures (words : List Word) : Signatures :=
  Signatures.new (words.map fun word => (word.signature, word.prose))

/-! ## The arithmetic -/

inductive Fault where
  | underflow
  | divisionByZero
  | outOfBounds
  deriving DecidableEq, Repr

def checkedSub (left right : Nat) : Except Fault Nat :=
  if right ≤ left then .ok (left - right) else .error .underflow

def checkedDiv (left right : Nat) : Except Fault Nat :=
  if right = 0 then .error .divisionByZero else .ok (left / right)

def checkedGet {Item : Type} (values : List Item) (index : Nat) : Except Fault Item :=
  match values[index]? with
  | some value => .ok value
  | none => .error .outOfBounds

def Signatures.checkedHash (signatures : Signatures) (start length : Nat) :
    Except Fault UInt64 := do
  let whole ← checkedGet signatures.hashes (start + length)
  let before ← checkedGet signatures.hashes start
  let power ← checkedGet signatures.powers length
  .ok (whole - before * power)

def Signatures.checkedProse (signatures : Signatures) (start length : Nat) :
    Except Fault Bool := do
  let before ← checkedGet signatures.structured start
  let whole ← checkedGet signatures.structured (start + length)
  .ok (before == whole)

def checkedAnchor (signatures : Signatures) (start period offset : Nat) : Except Fault Bool := do
  let first ← signatures.checkedHash (start + offset) 8
  let second ← signatures.checkedHash (start + period + offset) 8
  let third ← signatures.checkedHash (start + 2 * period + offset) 8
  .ok (first == second && first == third)

def checkedAnchorMatches (signatures : Signatures) (start period maxMismatches : Nat)
    (terminal : Bool) : Except Fault Bool :=
  if terminal then
    let anchors := maxMismatches * 3 / 2 + 1
    (List.range anchors).anyM fun index => do
      let room ← checkedSub period 8
      let gaps ← checkedSub anchors 1
      let offset ← checkedDiv (index * room) gaps
      checkedAnchor signatures start period offset
  else do
    let last ← checkedSub period 8
    [0, period / 2, last].anyM (checkedAnchor signatures start period)

def checkedSimilarity (period worst : Nat) : Except Fault Nat := do
  let agreeing ← checkedSub period worst
  checkedDiv (agreeing * 100) period

/-- The search with every subtraction, division and index checked. -/
def checkedNearSearch (values : List Word) (signatures : Signatures) (terminal : Bool) :
    Nat → List Nat → Except Fault (Option Pattern)
  | _, [] => .ok none
  | candidates, period :: rest => do
      let start ← checkedSub values.length (3 * period)
      let maxMismatches := period * 6 / 100
      let prose ← signatures.checkedProse start (3 * period)
      if !prose then checkedNearSearch values signatures terminal candidates rest
      else do
        let anchored ← checkedAnchorMatches signatures start period maxMismatches terminal
        if !anchored then checkedNearSearch values signatures terminal candidates rest
        else
          let varied := 8 ≤ distinctWords ((values.drop start).take period)
          match (similarPassages values start period maxMismatches).filter fun _ => varied with
          | some worst => do
              let similarity ← checkedSimilarity period worst
              .ok (some ⟨.words, period, 3, similarity⟩)
          | none =>
              if candidates + 1 = maxNearCandidates then .ok none
              else checkedNearSearch values signatures terminal (candidates + 1) rest

def checkedNearPeriod (values : List Word) (signatures : Signatures) (terminal : Bool) :
    Except Fault (Option Pattern) :=
  checkedNearSearch values signatures terminal 0
    (List.range' 50 (min maxPeriod (values.length / 3) + 1 - 50))

theorem checkedSub_of_le {left right : Nat} (covered : right ≤ left) :
    checkedSub left right = .ok (left - right) := if_pos covered

theorem checkedDiv_of_pos {left right : Nat} (positive : 0 < right) :
    checkedDiv left right = .ok (left / right) := if_neg (Nat.ne_of_gt positive)

theorem checkedGet_of_lt {Item : Type} {values : List Item} {index : Nat} (default : Item)
    (inside : index < values.length) :
    checkedGet values index = .ok (values.getD index default) := by
  rw [checkedGet, List.getD_eq_getElem?_getD, List.getElem?_eq_getElem inside]
  rfl

theorem anyM_of_ok {Item : Type} {check : Item → Except Fault Bool} {test : Item → Bool}
    {items : List Item} (checked : ∀ item ∈ items, check item = .ok (test item)) :
    items.anyM check = .ok (items.any test) := by
  induction items with
  | nil => rfl
  | cons item rest rests =>
    rw [List.anyM, checked item List.mem_cons_self, ok_bind, List.any_cons]
    cases test item with
    | true => rfl
    | false => exact rests fun other member => checked other (List.mem_cons_of_mem item member)

section Arithmetic

variable {words : List Word}

theorem wordSignatures_hashes_length : (wordSignatures words).hashes.length = words.length + 1 := by
  simp [wordSignatures, Signatures.new]

theorem wordSignatures_powers_length : (wordSignatures words).powers.length = words.length + 1 := by
  simp [wordSignatures, Signatures.new]

theorem wordSignatures_structured_length :
    (wordSignatures words).structured.length = words.length + 1 := by
  simp [wordSignatures, Signatures.new]

theorem checkedHash_inside {start length : Nat} (inside : start + length ≤ words.length) :
    (wordSignatures words).checkedHash start length =
      .ok ((wordSignatures words).hash start length) := by
  have hashes := @wordSignatures_hashes_length words
  have powers := @wordSignatures_powers_length words
  rw [Signatures.checkedHash, checkedGet_of_lt 0 (by omega), ok_bind,
    checkedGet_of_lt 0 (by omega), ok_bind, checkedGet_of_lt 0 (by omega), ok_bind]
  rfl

theorem checkedProse_inside {start length : Nat} (inside : start + length ≤ words.length) :
    (wordSignatures words).checkedProse start length =
      .ok ((wordSignatures words).prose start length) := by
  have structured := @wordSignatures_structured_length words
  rw [Signatures.checkedProse, checkedGet_of_lt 0 (by omega), ok_bind,
    checkedGet_of_lt 0 (by omega), ok_bind]
  rfl

/-- The passages of an anchor at this place are equal, as far as the hashes tell. -/
def anchorAt (signatures : Signatures) (start period offset : Nat) : Bool :=
  let first := signatures.hash (start + offset) 8
  first == signatures.hash (start + period + offset) 8 &&
    first == signatures.hash (start + 2 * period + offset) 8

theorem checkedAnchor_inside {start period offset : Nat} (inside : offset + 8 ≤ period)
    (covered : start + 3 * period = words.length) :
    checkedAnchor (wordSignatures words) start period offset =
      .ok (anchorAt (wordSignatures words) start period offset) := by
  rw [checkedAnchor, checkedHash_inside (by omega), ok_bind, checkedHash_inside (by omega),
    ok_bind, checkedHash_inside (by omega), ok_bind]
  rfl

/-- The last anchor ends where the passage ends. -/
theorem anchor_offset_inside {index anchors period : Nat} (wide : 8 ≤ period)
    (within : index ≤ anchors) :
    index * (period - 8) / anchors + 8 ≤ period := by
  have below : index * (period - 8) / anchors ≤ period - 8 := by
    apply Nat.div_le_of_le_mul
    exact Nat.mul_le_mul_right (period - 8) within
  omega

theorem checkedAnchorMatches_inside {start period : Nat} (terminal : Bool) (wide : 50 ≤ period)
    (covered : start + 3 * period = words.length) :
    checkedAnchorMatches (wordSignatures words) start period (period * 6 / 100) terminal =
      .ok (anchorMatches (wordSignatures words) start period (period * 6 / 100) terminal) := by
  cases terminal with
  | false =>
    rw [checkedAnchorMatches, anchorMatches, if_neg Bool.false_ne_true,
      if_neg Bool.false_ne_true, checkedSub_of_le (by omega), ok_bind]
    apply anyM_of_ok
    intro offset member
    have inside : offset + 8 ≤ period := by
      simp only [List.mem_cons, List.not_mem_nil, or_false] at member
      omega
    exact checkedAnchor_inside inside covered
  | true =>
    rw [checkedAnchorMatches, anchorMatches, if_pos rfl, if_pos rfl]
    apply anyM_of_ok
    intro index member
    have within := List.mem_range.mp member
    have gaps : 0 < period * 6 / 100 * 3 / 2 + 1 - 1 := by omega
    have inside := anchor_offset_inside (by omega : 8 ≤ period)
      (by omega : index ≤ period * 6 / 100 * 3 / 2 + 1 - 1)
    rw [checkedSub_of_le (by omega), ok_bind, checkedSub_of_le (by omega), ok_bind,
      checkedDiv_of_pos gaps, ok_bind]
    exact checkedAnchor_inside inside covered

theorem mismatches_le {limit count found : Nat} {pairs : List (Word × Word)}
    (allowed : count ≤ limit) (similar : mismatches limit count pairs = some found) :
    found ≤ limit := by
  induction pairs generalizing count with
  | nil =>
    rw [mismatches] at similar
    exact Option.some.inj similar ▸ allowed
  | cons pair rest rests =>
    rw [mismatches] at similar
    split at similar
    · exact rests allowed similar
    · split at similar
      · cases similar
      · rename_i room
        simp only [Bool.or_eq_true, decide_eq_true_eq, not_or, Nat.not_lt] at room
        exact rests room.2 similar

theorem similarPassages_le {start period limit worst : Nat}
    (similar : similarPassages words start period limit = some worst) : worst ≤ limit := by
  simp only [similarPassages, Option.bind_eq_some_iff, Option.map_eq_some_iff] at similar
  obtain ⟨one, first, two, second, three, third, rfl⟩ := similar
  exact max_le (mismatches_le (Nat.zero_le limit) first)
    (max_le (mismatches_le (Nat.zero_le limit) second) (mismatches_le (Nat.zero_le limit) third))

theorem checkedSimilarity_inside {period worst : Nat} (wide : 50 ≤ period)
    (allowed : worst ≤ period * 6 / 100) :
    checkedSimilarity period worst = .ok ((period - worst) * 100 / period) := by
  rw [checkedSimilarity, checkedSub_of_le (by omega), ok_bind, checkedDiv_of_pos (by omega)]

theorem checkedNearSearch_eq (terminal : Bool) (candidates : Nat) {periods : List Nat}
    (supported : ∀ period ∈ periods, 50 ≤ period ∧ 3 * period ≤ words.length) :
    checkedNearSearch words (wordSignatures words) terminal candidates periods =
      .ok (nearSearch words (wordSignatures words) terminal candidates periods) := by
  induction periods generalizing candidates with
  | nil => rfl
  | cons period rest rests =>
    obtain ⟨wide, long⟩ := supported period List.mem_cons_self
    have later (candidates : Nat) := rests candidates fun other member =>
      supported other (List.mem_cons_of_mem period member)
    have covered : words.length - 3 * period + 3 * period = words.length := by omega
    rw [checkedNearSearch, nearSearch, checkedSub_of_le long, ok_bind,
      checkedProse_inside (Nat.le_of_eq covered), ok_bind,
      checkedAnchorMatches_inside terminal wide covered, ok_bind]
    cases prose : (wordSignatures words).prose (words.length - 3 * period) (3 * period) with
    | false => exact later candidates
    | true =>
      cases anchored : anchorMatches (wordSignatures words) (words.length - 3 * period) period
          (period * 6 / 100) terminal with
      | false => exact later candidates
      | true =>
        simp only [Bool.not_true, Bool.or_self, Bool.false_eq_true, if_false]
        cases similar : (similarPassages words (words.length - 3 * period) period
            (period * 6 / 100)).filter fun _ =>
              8 ≤ distinctWords ((words.drop (words.length - 3 * period)).take period) with
        | some worst =>
          have allowed := similarPassages_le (Option.filter_eq_some_iff.mp similar).1
          dsimp only
          rw [checkedSimilarity_inside wide allowed, ok_bind]
        | none =>
          dsimp only
          by_cases last : candidates + 1 = maxNearCandidates
          · rw [if_pos last, if_pos last]
          · rw [if_neg last, if_neg last, later]

/-- No step of the search underflows, divides by zero or reads outside the history. -/
theorem checkedNearPeriod_eq (words : List Word) (terminal : Bool) :
    checkedNearPeriod words (wordSignatures words) terminal =
      .ok (nearPeriod words (wordSignatures words) terminal) := by
  apply checkedNearSearch_eq
  intro period member
  rw [List.mem_range'_1] at member
  omega

end Arithmetic

/-! ## The candidates -/

/-- The periods that the search compares in full, and what it finds. -/
def nearTrace (values : List Word) (signatures : Signatures) (terminal : Bool) :
    Nat → List Nat → List Nat × Option Pattern
  | _, [] => ([], none)
  | candidates, period :: rest =>
      let start := values.length - 3 * period
      let maxMismatches := period * 6 / 100
      if !signatures.prose start (3 * period) ||
          !anchorMatches signatures start period maxMismatches terminal then
        nearTrace values signatures terminal candidates rest
      else
        let varied := 8 ≤ distinctWords ((values.drop start).take period)
        match (similarPassages values start period maxMismatches).filter fun _ => varied with
        | some worst => ([period], some ⟨.words, period, 3, (period - worst) * 100 / period⟩)
        | none =>
            if candidates + 1 = maxNearCandidates then ([period], none)
            else
              let later := nearTrace values signatures terminal (candidates + 1) rest
              (period :: later.1, later.2)

def nearCandidates (values : List Word) (signatures : Signatures) (terminal : Bool) : List Nat :=
  (nearTrace values signatures terminal 0
    (List.range' 50 (min maxPeriod (values.length / 3) + 1 - 50))).1

section Candidates

variable {words : List Word} {signatures : Signatures} {terminal : Bool}

theorem nearTrace_snd (candidates : Nat) (periods : List Nat) :
    (nearTrace words signatures terminal candidates periods).2 =
      nearSearch words signatures terminal candidates periods := by
  induction periods generalizing candidates with
  | nil => rfl
  | cons period rest rests =>
    rw [nearTrace, nearSearch]
    split
    · exact rests candidates
    · dsimp only
      cases (similarPassages words (words.length - 3 * period) period
          (period * 6 / 100)).filter fun _ =>
            8 ≤ distinctWords ((words.drop (words.length - 3 * period)).take period) with
      | some worst => rfl
      | none =>
        dsimp only
        by_cases last : candidates + 1 = maxNearCandidates
        · rw [if_pos last, if_pos last]
        · rw [if_neg last, if_neg last]
          exact rests (candidates + 1)

/-- What the search does with a period that passes the two filters. -/
theorem nearTrace_candidate {period : Nat} {rest : List Nat} {candidates : Nat}
    (prose : signatures.prose (words.length - 3 * period) (3 * period) = true)
    (anchored : anchorMatches signatures (words.length - 3 * period) period (period * 6 / 100)
      terminal = true) :
    (∃ pattern, pattern.period = period ∧
      nearTrace words signatures terminal candidates (period :: rest) = ([period], some pattern)) ∨
    (candidates + 1 = maxNearCandidates ∧
      nearTrace words signatures terminal candidates (period :: rest) = ([period], none)) ∨
    (candidates + 1 ≠ maxNearCandidates ∧
      nearTrace words signatures terminal candidates (period :: rest) =
        (period :: (nearTrace words signatures terminal (candidates + 1) rest).1,
          (nearTrace words signatures terminal (candidates + 1) rest).2)) := by
  rw [nearTrace, prose, anchored]
  dsimp only
  rw [if_neg (by decide)]
  split
  · exact Or.inl ⟨_, rfl, rfl⟩
  · by_cases last : candidates + 1 = maxNearCandidates
    · rw [if_pos last]
      exact Or.inr (Or.inl ⟨last, rfl⟩)
    · rw [if_neg last]
      exact Or.inr (Or.inr ⟨last, rfl⟩)

/-- The search ends before this period: a smaller one is reported, or the cap is reached. -/
def StopsBefore (period candidates : Nat) (trace : List Nat × Option Pattern) : Prop :=
  (∀ tested ∈ trace.1, tested < period) ∧
    (candidates + trace.1.length = maxNearCandidates ∨
      ∃ pattern, trace.2 = some pattern ∧ pattern.period < period)

/-- What passes the two filters is compared, unless the search ends before. -/
theorem nearTrace_reaches {period : Nat} {periods : List Nat} {candidates : Nat}
    (room : candidates < maxNearCandidates) (sorted : periods.Pairwise (· < ·))
    (member : period ∈ periods)
    (prose : signatures.prose (words.length - 3 * period) (3 * period) = true)
    (anchored : anchorMatches signatures (words.length - 3 * period) period (period * 6 / 100)
      terminal = true) :
    period ∈ (nearTrace words signatures terminal candidates periods).1 ∨
      StopsBefore period candidates
        (nearTrace words signatures terminal candidates periods) := by
  induction periods generalizing candidates with
  | nil => cases member
  | cons smaller rest rests =>
    obtain ⟨least, restSorted⟩ := List.pairwise_cons.mp sorted
    rcases List.mem_cons.mp member with rfl | later
    · left
      rcases nearTrace_candidate prose anchored with ⟨_, _, trace⟩ | ⟨_, trace⟩ | ⟨_, trace⟩
      · exact trace ▸ List.mem_cons_self
      · exact trace ▸ List.mem_cons_self
      · exact trace ▸ List.mem_cons_self
    · have before := least period later
      by_cases skipped : !signatures.prose (words.length - 3 * smaller) (3 * smaller) ||
          !anchorMatches signatures (words.length - 3 * smaller) smaller (smaller * 6 / 100)
            terminal
      · rw [nearTrace, if_pos skipped]
        exact rests room restSorted later
      · rw [Bool.or_eq_true, not_or, Bool.not_eq_true', Bool.not_eq_true', Bool.not_eq_false,
          Bool.not_eq_false] at skipped
        have only : ∀ tested ∈ [smaller], tested < period := by
          intro tested alone
          rw [List.mem_singleton.mp alone]
          exact before
        rcases nearTrace_candidate skipped.1 skipped.2 with
          ⟨pattern, atPeriod, trace⟩ | ⟨last, trace⟩ | ⟨more, trace⟩
        · rw [trace]
          exact Or.inr ⟨only, Or.inr ⟨pattern, rfl, atPeriod ▸ before⟩⟩
        · rw [trace]
          exact Or.inr ⟨only, Or.inl last⟩
        · rw [trace]
          have further : candidates + 1 < maxNearCandidates := Nat.lt_of_le_of_ne room more
          cases rests further restSorted later with
          | inl reached => exact Or.inl (List.mem_cons_of_mem smaller reached)
          | inr stopped =>
            right
            constructor
            · intro tested among
              cases among with
              | head => exact before
              | tail _ among => exact stopped.1 tested among
            · cases stopped.2 with
              | inl full =>
                left
                rw [List.length_cons]
                omega
              | inr found => exact Or.inr found

end Candidates

/-! ## The anchors -/

def differences (words : List Word) (left right length : Nat) : Nat :=
  (List.range length).countP fun place => words[left + place]? != words[right + place]?

/-- The words end with three passages of this length, and no two of them differ in more places than
the search allows. -/
def EndsWithSimilarPassages (words : List Word) (period : Nat) : Prop :=
  let start := words.length - 3 * period
  differences words start (start + period) period ≤ period * 6 / 100 ∧
    differences words start (start + 2 * period) period ≤ period * 6 / 100 ∧
    differences words (start + period) (start + 2 * period) period ≤ period * 6 / 100

instance (words : List Word) (period : Nat) : Decidable (EndsWithSimilarPassages words period) :=
  inferInstanceAs (Decidable (_ ∧ _ ∧ _))

section Anchors

variable {words : List Word}

/-- Where not all three passages agree, at least two pairs of them differ. -/
theorem disagreements_le (start period : Nat) (places : List Nat) :
    2 * places.countP (fun place => words[start + place]? != words[start + period + place]? ||
        words[start + place]? != words[start + 2 * period + place]?) ≤
      places.countP (fun place => words[start + place]? != words[start + period + place]?) +
        places.countP (fun place => words[start + place]? != words[start + 2 * period + place]?) +
        places.countP (fun place =>
          words[start + period + place]? != words[start + 2 * period + place]?) := by
  induction places with
  | nil => exact Nat.le_refl 0
  | cons place rest rests =>
    simp only [List.countP_cons]
    generalize words[start + place]? = first
    generalize words[start + period + place]? = second
    generalize words[start + 2 * period + place]? = third
    by_cases left : first = second
    · subst left
      by_cases right : first = third
      · subst right
        simpa using rests
      · simp [right]
        omega
    · by_cases right : first = third
      · subst right
        simp [left, Ne.symm left]
        omega
      · simp [left, right]
        omega

theorem anchors_apart {period left right anchors : Nat} (before : left < right)
    (gaps : 0 < anchors) (room : 8 * anchors ≤ period - 8) :
    left * (period - 8) / anchors + 8 ≤ right * (period - 8) / anchors :=
  calc left * (period - 8) / anchors + 8
      = (left * (period - 8) + 8 * anchors) / anchors := by
        rw [Nat.add_mul_div_right _ _ gaps]
    _ ≤ ((left + 1) * (period - 8)) / anchors := by
        apply Nat.div_le_div_right
        rw [Nat.succ_mul left]
        exact Nat.add_le_add_left room _
    _ ≤ right * (period - 8) / anchors :=
        Nat.div_le_div_right (Nat.mul_le_mul_right _ before)

/-- The hashes of an anchor agree where all three passages do. -/
theorem anchorAt_of_agreement {start period offset : Nat} (inside : offset + 8 ≤ period)
    (covered : start + 3 * period = words.length)
    (agree : ∀ place, offset ≤ place → place < offset + 8 →
      words[start + place]? = words[start + period + place]? ∧
        words[start + place]? = words[start + 2 * period + place]?) :
    anchorAt (wordSignatures words) start period offset = true := by
  have second : window words (start + offset) 8 = window words (start + period + offset) 8 := by
    apply window_eq_of_places
    intro place within
    rw [Nat.add_assoc start, Nat.add_assoc (start + period)]
    exact (agree (offset + place) (by omega) (by omega)).1
  have third : window words (start + offset) 8 =
      window words (start + 2 * period + offset) 8 := by
    apply window_eq_of_places
    intro place within
    rw [Nat.add_assoc start, Nat.add_assoc (start + 2 * period)]
    exact (agree (offset + place) (by omega) (by omega)).2
  rw [anchorAt, Bool.and_eq_true, beq_iff_eq, beq_iff_eq]
  exact ⟨Signatures.hash_eq_of_window_eq _ (by omega) (by omega) second,
    Signatures.hash_eq_of_window_eq _ (by omega) (by omega) third⟩

/-- Among the anchors of a terminal inspection, one stands where similar passages agree. -/
theorem anchorMatches_of_similar {period : Nat} (wide : 50 ≤ period)
    (long : 3 * period ≤ words.length) (similar : EndsWithSimilarPassages words period) :
    anchorMatches (wordSignatures words) (words.length - 3 * period) period (period * 6 / 100)
      true = true := by
  obtain ⟨one, two, three⟩ := similar
  generalize atStart : words.length - 3 * period = start at one two three ⊢
  have covered : start + 3 * period = words.length := by omega
  have counted := @disagreements_le words start period (List.range period)
  rw [differences] at one two three
  have few : (List.range period).countP (fun place =>
      words[start + place]? != words[start + period + place]? ||
        words[start + place]? != words[start + 2 * period + place]?) <
      period * 6 / 100 * 3 / 2 + 1 := by omega
  have gaps : 0 < period * 6 / 100 * 3 / 2 := by omega
  obtain ⟨index, within, clear⟩ := exists_clear_window few
    (fun index within => anchor_offset_inside (by omega : 8 ≤ period) (Nat.le_of_lt_succ within))
    (fun left right before _ => anchors_apart before gaps (by omega))
  rw [anchorMatches, if_pos rfl]
  apply List.any_eq_true.mpr
  refine ⟨index, List.mem_range.mpr within, ?_⟩
  apply anchorAt_of_agreement (anchor_offset_inside (by omega) (Nat.le_of_lt_succ within)) covered
  intro place lower upper
  have agree := clear place lower upper
  rw [Bool.or_eq_false_iff, bne_eq_false_iff_eq, bne_eq_false_iff_eq] at agree
  exact agree

theorem structured_getD {index : Nat} (inside : index ≤ words.length) :
    (wordSignatures words).structured.getD index 0 =
      ((words.map (·.prose)).take index).foldl (fun count prose => count + (!prose).toNat) 0 := by
  rw [wordSignatures, Signatures.new, List.map_map, List.getD_eq_getElem?_getD,
    List.getElem?_scanl, if_pos (by simpa using inside), List.map_map, Option.getD_some]
  rfl

theorem foldl_prose {flags : List Bool} (prose : ∀ flag ∈ flags, flag = true) (count : Nat) :
    flags.foldl (fun count prose => count + (!prose).toNat) count = count := by
  induction flags with
  | nil => rfl
  | cons flag rest rests =>
    rw [List.foldl_cons, prose flag List.mem_cons_self]
    exact rests fun other member => prose other (List.mem_cons_of_mem flag member)

theorem prose_of_words {start length : Nat} (covered : start + length = words.length)
    (prose : ∀ word ∈ words.drop start, word.prose = true) :
    (wordSignatures words).prose start length = true := by
  rw [Signatures.prose, beq_iff_eq, structured_getD (by omega), structured_getD (by omega),
    List.take_add, List.foldl_append]
  symm
  apply foldl_prose
  intro flag member
  have among := List.mem_of_mem_take member
  rw [← List.map_drop] at among
  obtain ⟨word, later, rfl⟩ := List.mem_map.mp among
  exact prose word later

/-- Every inspection is free of faults. Where the words end with three similar passages an anchor
of a terminal inspection agrees in all three, and if they are prose they are compared, unless the
search ends before. -/
theorem nearPeriod_anchored (words : List Word) (period : Nat) (smallest : 50 ≤ period)
    (largest : period ≤ min maxPeriod (words.length / 3))
    (similar : EndsWithSimilarPassages words period) :
    (∀ terminal, checkedNearPeriod words (wordSignatures words) terminal =
        .ok (nearPeriod words (wordSignatures words) terminal)) ∧
      anchorMatches (wordSignatures words) (words.length - 3 * period) period (period * 6 / 100)
          true = true ∧
      ((∀ word ∈ words.drop (words.length - 3 * period), word.prose = true) →
        period ∈ nearCandidates words (wordSignatures words) true ∨
        (nearCandidates words (wordSignatures words) true).length = maxNearCandidates ∨
        ∃ pattern, nearPeriod words (wordSignatures words) true = some pattern ∧
          pattern.period < period) := by
  have long : 3 * period ≤ words.length := by omega
  have anchored := anchorMatches_of_similar smallest long similar
  refine ⟨checkedNearPeriod_eq words, anchored, ?_⟩
  intro prose
  have accepted := prose_of_words (Nat.sub_add_cancel long) prose
  have member : period ∈ List.range' 50 (min maxPeriod (words.length / 3) + 1 - 50) := by
    rw [List.mem_range'_1]
    omega
  have reached := nearTrace_reaches (by decide : 0 < maxNearCandidates)
    List.pairwise_lt_range' member accepted anchored
  cases reached with
  | inl reached => exact Or.inl reached
  | inr stopped =>
    right
    cases stopped.2 with
    | inl full => exact Or.inl (by rwa [Nat.zero_add] at full)
    | inr found =>
      right
      rwa [nearTrace_snd] at found

end Anchors

/-- No two copies end with a word that stands nowhere before. -/
theorem exactPeriod_odd_last {words front : List Word} {last : Word} (signatures : Signatures)
    (ends : words = front ++ [last]) (odd : last ∉ front) :
    exactPeriod words signatures (fun _ => 2) = none := by
  rw [exactPeriod, List.findSome?_eq_none_iff]
  intro period range
  have positive := (List.mem_range'_1.mp range).1
  have total : words.length = front.length + 1 := by
    rw [ends, List.length_append, List.length_singleton]
  dsimp only
  split
  · rfl
  · refine if_neg fun copied => odd ?_
    have same := List.all_eq_true.mp copied 1 (List.mem_singleton.mpr rfl)
    rw [Bool.and_eq_true, beq_iff_eq, beq_iff_eq, Nat.one_mul] at same
    have early : words.length - period * 2 + (period - 1) < front.length := by omega
    have late : words.length - period * 2 + period + (period - 1) = front.length := by omega
    have word := congrArg (fun passage => passage[period - 1]?) same.2
    simp only [List.getElem?_take, List.getElem?_drop, late, Nat.sub_lt positive Nat.one_pos,
      if_true] at word
    generalize words.length - period * 2 + (period - 1) = place at early word
    rw [ends, List.getElem?_append_left early, List.getElem?_concat_length] at word
    exact List.mem_of_getElem? word

/-- A passage of fifty words of prose, six times, whose last word is another one, so that no passage
is repeated exactly. -/
def repeatedWords : List Word :=
  (List.range 300).map fun place => ⟨if place = 299 then 50 else place % 50, true, false⟩

/-- The same of structured words, three times. -/
def structuredWords : List Word :=
  (List.range 150).map fun place => ⟨if place = 149 then 50 else place % 50, false, false⟩

theorem repeatedWords_getElem? {place : Nat} (inside : place < 300) :
    repeatedWords[place]? = some ⟨if place = 299 then 50 else place % 50, true, false⟩ := by
  rw [repeatedWords, List.getElem?_map, List.getElem?_range inside]
  rfl

theorem repeatedWords_similar : EndsWithSimilarPassages repeatedWords 100 := by
  have few : ∀ left ∈ [0, 100], ∀ right ∈ [100, 200],
      differences repeatedWords left right 100 ≤ 6 := by
    intro left leftMember right rightMember
    simp only [List.mem_cons, List.not_mem_nil, or_false] at leftMember rightMember
    have last : differences repeatedWords left right 100 ≤ (List.range 100).countP (· = 99) := by
      refine List.countP_mono_left fun place member differ => decide_eq_true ?_
      have inside := List.mem_range.mp member
      by_contra earlier
      have same : (left + place) % 50 = (right + place) % 50 := by omega
      rw [repeatedWords_getElem? (by omega), repeatedWords_getElem? (by omega),
        if_neg (by omega), if_neg (by omega), same, bne_self_eq_false] at differ
      cases differ
    exact last.trans (by decide)
  have length : repeatedWords.length = 300 := by
    rw [repeatedWords, List.length_map, List.length_range]
  rw [EndsWithSimilarPassages, length]
  exact ⟨few 0 (by decide) 100 (by decide), few 0 (by decide) 200 (by decide),
    few 100 (by decide) 200 (by decide)⟩

theorem nearPeriod_anchored_repeated :
    (∀ terminal, checkedNearPeriod repeatedWords (wordSignatures repeatedWords) terminal =
        .ok (nearPeriod repeatedWords (wordSignatures repeatedWords) terminal)) ∧
      anchorMatches (wordSignatures repeatedWords) (repeatedWords.length - 3 * 100) 100
        (100 * 6 / 100) true = true ∧
      ((∀ word ∈ repeatedWords.drop (repeatedWords.length - 3 * 100), word.prose = true) →
        100 ∈ nearCandidates repeatedWords (wordSignatures repeatedWords) true ∨
        (nearCandidates repeatedWords (wordSignatures repeatedWords) true).length =
          maxNearCandidates ∨
        ∃ pattern, nearPeriod repeatedWords (wordSignatures repeatedWords) true = some pattern ∧
          pattern.period < 100) :=
  nearPeriod_anchored repeatedWords 100 (by decide) (by simp [repeatedWords, maxPeriod]) repeatedWords_similar

/-- Structured words are never compared, and nothing is compared behind a period that is reported.
Neither list ends with two exact copies, so an inspection goes on to the near periods of both. -/
theorem similar_passages_uncompared :
    (exactPeriod structuredWords (wordSignatures structuredWords) (fun _ => 2) = none ∧
      EndsWithSimilarPassages structuredWords 50 ∧
      nearCandidates structuredWords (wordSignatures structuredWords) true = []) ∧
    (exactPeriod repeatedWords (wordSignatures repeatedWords) (fun _ => 2) = none ∧
      EndsWithSimilarPassages repeatedWords 100 ∧
      nearCandidates repeatedWords (wordSignatures repeatedWords) true = [50]) := by
  have structured : structuredWords = structuredWords.dropLast ++ [⟨50, false, false⟩] := by
    decide +kernel
  have repeated : repeatedWords = repeatedWords.dropLast ++ [⟨50, true, false⟩] := by
    decide +kernel
  refine ⟨⟨exactPeriod_odd_last _ structured ?_, ?_, ?_⟩, exactPeriod_odd_last _ repeated ?_,
    repeatedWords_similar, ?_⟩
  all_goals decide +kernel

end Kvist.LoopDetection
