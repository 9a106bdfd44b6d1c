import Mathlib.Data.Finset.Range
import Mathlib.Data.List.Sort
import Kvist.Blad.Anchors
import Kvist.Radix

/-!
# Which heading an id leads to

Every id that is made from a label is new among the ids of the headings before it, and the viewer
leads every id to the first heading that has it. Only an id that an author wrote can be shared.
-/

set_option autoImplicit false

namespace Kvist.Blad

open Transitions

/-! ## The search for a free id -/

theorem suffixed_injective (base : String) : Function.Injective (suffixed base) := by
  intro left right same
  rw [suffixed, suffixed, String.append_right_inj] at same
  exact Radix.toString_injective (congrArg String.toList same)

theorem suffixed_ne (base : String) (suffix : Nat) : suffixed base suffix ≠ base := by
  intro same
  have lengths := congrArg String.length same
  rw [suffixed, String.length_append, String.length_append] at lengths
  have dash : "-".length = 1 := rfl
  omega

/-- The id that is tried after so many rounds. -/
def tried (base : String) (suffix : Nat) : Nat → String
  | 0 => base
  | round + 1 => suffixed base (suffix + round + 1)

theorem tried_injective (base : String) (suffix : Nat) :
    Function.Injective (tried base suffix) := by
  intro left right same
  cases left with
  | zero =>
      cases right with
      | zero => rfl
      | succ right => exact absurd same.symm (suffixed_ne _ _)
  | succ left =>
      cases right with
      | zero => exact absurd same (suffixed_ne _ _)
      | succ right =>
          have numbers := suffixed_injective base same
          omega

variable {base : String} {used : Finset String}

theorem searchId_free {fuel suffix found : Nat} {id free : String}
    (ended : searchId base used fuel suffix id = some (found, free)) : free ∉ used := by
  induction fuel generalizing suffix id with
  | zero =>
      rw [searchId] at ended
      split at ended
      · exact absurd ended nofun
      · rename_i fresh
        cases ended
        exact fresh
  | succ fuel ih =>
      rw [searchId] at ended
      split at ended
      · exact ih ended
      · rename_i fresh
        cases ended
        exact fresh

theorem searchId_none {fuel suffix : Nat} {id : String}
    (ended : searchId base used fuel suffix id = none) :
    id ∈ used ∧ ∀ round < fuel, suffixed base (suffix + round + 1) ∈ used := by
  induction fuel generalizing suffix id with
  | zero =>
      rw [searchId] at ended
      split at ended
      · exact ⟨‹_›, nofun⟩
      · exact absurd ended nofun
  | succ fuel ih =>
      rw [searchId] at ended
      split at ended
      · obtain ⟨next, later⟩ := ih ended
        refine ⟨‹_›, fun round small => ?_⟩
        cases round with
        | zero => exact next
        | succ round =>
            have member := later round (Nat.lt_of_succ_lt_succ small)
            rwa [Nat.add_right_comm suffix 1 round] at member
      · exact absurd ended nofun

/-- One round for each used id is enough: otherwise there would be too many used ids. -/
theorem searchId_ends (base : String) (used : Finset String) (suffix : Nat) :
    ∃ found free, searchId base used used.card suffix base = some (found, free) ∧ free ∉ used := by
  cases ended : searchId base used used.card suffix base with
  | some result => exact ⟨result.1, result.2, rfl, searchId_free ended⟩
  | none =>
      obtain ⟨start, later⟩ := searchId_none ended
      have inside : ∀ round ∈ Finset.range (used.card + 1), tried base suffix round ∈ used := by
        intro round small
        cases round with
        | zero => exact start
        | succ round => exact later round (Nat.lt_of_succ_lt_succ (Finset.mem_range.mp small))
      have many := Finset.card_le_card_of_injOn _ inside (tried_injective base suffix).injOn
      rw [Finset.card_range] at many
      exact absurd many (Nat.not_succ_le_self _)

/-! ## The pass -/

variable {rules : LabelRules}

def offsets (events : List Event) : List Nat := events.filterMap headingOffset

/-- The places of the headings that come to their end, given the one that is open. -/
def closedOffsets : Option Nat → List Event → List Nat
  | _, [] => []
  | _, .startHeading offset _ :: rest => closedOffsets (some offset) rest
  | opened, .endHeading :: rest => opened.toList ++ closedOffsets none rest
  | opened, _ :: rest => closedOffsets opened rest

/-- What holds during the pass, with the events behind it and the events still to come. -/
structure Sound (whole rest : List Event) (state : AnchorState rules) : Prop where
  ordered : (state.anchors.keys ++ (state.heading.map (·.1)).toList ++ offsets rest).Pairwise
    (· < ·)
  closed : state.anchors.keys ++ closedOffsets (state.heading.map (·.1)) rest =
    closedOffsets none whole
  known : ∀ entry ∈ state.anchors.entries, ∀ id ∈ entry.2, id ∈ state.used
  opened : ∀ offset explicit, state.heading = some (offset, explicit) →
    .startHeading offset explicit ∈ whole
  shaped : ∀ entry ∈ state.anchors.entries, ∃ id explicit,
    entry.2 = id :: Option.toList explicit ∧ .startHeading entry.1 explicit ∈ whole
  fresh : state.anchors.entries.Pairwise fun earlier later =>
    ∀ id, later.2.head? = some id → id ∉ earlier.2

theorem addLabel_sound {whole rest : List Event} {state : AnchorState rules}
    (sound : Sound whole rest state) (text : List Char) :
    Sound whole rest (addLabel rules state text) := by
  rw [addLabel]
  split
  · exact ⟨sound.ordered, sound.closed, sound.known, sound.opened, sound.shaped, sound.fresh⟩
  · exact sound

theorem closeHeading_sound {whole rest : List Event} {state : AnchorState rules} {offset : Nat}
    {explicit : Option String} (sound : Sound whole (.endHeading :: rest) state)
    (opened : state.heading = some (offset, explicit)) :
    ∃ next, closeHeading rules state offset explicit = some next ∧ Sound whole rest next := by
  obtain ⟨suffix, id, ended, free⟩ := searchId_ends (slug rules state.label) state.used
    ((state.suffixes.get (slug rules state.label)).getD 0)
  have ordered := sound.ordered
  rw [opened] at ordered
  have above : ∀ entry ∈ state.anchors.entries, entry.1 < offset := fun entry member =>
    (List.pairwise_append.mp (List.pairwise_append.mp ordered).1).2.2 entry.1
      (List.mem_map_of_mem member) offset (List.mem_singleton_self _)
  have last : (state.anchors.insert offset (id :: explicit.toList)).entries =
      state.anchors.entries ++ [(offset, id :: explicit.toList)] := OrderedMap.put_last above
  refine ⟨_, by rw [closeHeading, ended]; rfl, ?_⟩
  constructor
  · change (OrderedMap.keys (OrderedMap.insert _ _ _) ++ [] ++ _).Pairwise _
    rw [OrderedMap.keys, last, List.map_append, List.append_nil]
    exact ordered
  · have closed := sound.closed
    rw [opened] at closed
    change OrderedMap.keys (OrderedMap.insert _ _ _) ++ _ = _
    rw [OrderedMap.keys, last, List.map_append, List.append_assoc]
    exact closed
  · change ∀ entry ∈ (state.anchors.insert offset (id :: explicit.toList)).entries,
      ∀ other ∈ entry.2, other ∈ explicit.toFinset ∪ insert id state.used
    rw [last]
    intro entry member other inside
    rw [Finset.mem_union, Finset.mem_insert, Option.mem_toFinset]
    rcases List.mem_append.mp member with earlier | new
    · exact .inr (.inr (sound.known entry earlier other inside))
    · rw [List.mem_singleton.mp new] at inside
      rcases List.mem_cons.mp inside with rfl | written
      · exact .inr (.inl rfl)
      · exact .inl (Option.mem_toList.mp written)
  · exact nofun
  · change ∀ entry ∈ (state.anchors.insert offset (id :: explicit.toList)).entries, _
    rw [last]
    intro entry member
    rcases List.mem_append.mp member with earlier | new
    · exact sound.shaped entry earlier
    · rw [List.mem_singleton.mp new]
      exact ⟨id, explicit, rfl, sound.opened offset explicit opened⟩
  · change (state.anchors.insert offset (id :: explicit.toList)).entries.Pairwise _
    rw [last, List.pairwise_append]
    refine ⟨sound.fresh, List.pairwise_singleton _ _, ?_⟩
    intro earlier member later new other first
    rw [List.mem_singleton.mp new] at first
    cases first
    exact fun inside => free (sound.known earlier member _ inside)

/-- The event behind the pass does not matter, unless it is the start of a heading. -/
theorem Sound.passed {whole rest : List Event} {state : AnchorState rules} {event : Event}
    (sound : Sound whole (event :: rest) state) (plain : headingOffset event = none)
    (closed : closedOffsets (state.heading.map (·.1)) (event :: rest) =
      closedOffsets (state.heading.map (·.1)) rest) : Sound whole rest state := by
  refine ⟨?_, closed ▸ sound.closed, sound.known, sound.opened, sound.shaped, sound.fresh⟩
  have ordered := sound.ordered
  rwa [offsets, List.filterMap_cons_none plain] at ordered

theorem anchorStep_sound {whole rest : List Event} {state : AnchorState rules} {event : Event}
    (sound : Sound whole (event :: rest) state) (member : event ∈ whole) :
    ∃ next, anchorStep rules state event = some next ∧ Sound whole rest next := by
  cases event with
  | startHeading offset id =>
      refine ⟨_, rfl, ?_, sound.closed, sound.known, ?_, sound.shaped, sound.fresh⟩
      · -- A heading that was open before gets no ids any more.
        have ordered := sound.ordered
        rw [offsets, @List.filterMap_cons_some _ _ headingOffset _ _ offset rfl] at ordered
        refine ordered.sublist ?_
        change (_ ++ [offset] ++ _).Sublist _
        rw [List.append_assoc, List.append_assoc]
        exact (List.Sublist.refl _).append (List.sublist_append_right _ _)
      · rintro other explicit ⟨⟩
        exact member
  | text text => exact ⟨_, rfl, addLabel_sound (sound.passed rfl rfl) text⟩
  | html source =>
      have passed := sound.passed rfl rfl
      refine ⟨_, rfl, addLabel_sound ?_ _⟩
      exact ⟨passed.ordered, passed.closed, passed.known, passed.opened, passed.shaped,
        passed.fresh⟩
  | lineBreak => exact ⟨_, rfl, addLabel_sound (sound.passed rfl rfl) _⟩
  | endHeading =>
      cases opened : state.heading with
      | none =>
          refine ⟨state, by rw [anchorStep, opened], sound.passed rfl ?_⟩
          rw [opened]
          rfl
      | some heading =>
          obtain ⟨next, closed, kept⟩ := closeHeading_sound sound opened
          exact ⟨next, by rw [anchorStep, opened]; exact closed, kept⟩

theorem run_sound {whole : List Event} (rest : List Event) {state : AnchorState rules}
    (sound : Sound whole rest state) (inside : ∀ event ∈ rest, event ∈ whole) :
    ∃ last, run (anchorStep rules) state rest = some last ∧ Sound whole [] last := by
  induction rest generalizing state with
  | nil => exact ⟨state, rfl, sound⟩
  | cons event rest ih =>
      rw [List.forall_mem_cons] at inside
      obtain ⟨next, stepped, kept⟩ := anchorStep_sound sound inside.1
      obtain ⟨last, continued, final⟩ := ih kept inside.2
      exact ⟨last, by rw [run, stepped]; exact continued, final⟩

/-- The pass ends for every sequence of headings in the order of the document. -/
theorem headingAnchors_sound {events : List Event} (ordered : (offsets events).Pairwise (· < ·)) :
    ∃ state : AnchorState rules, headingAnchors rules events = some state.anchors ∧
      Sound events [] state := by
  have start : Sound events events (anchorStart rules) :=
    ⟨ordered, rfl, nofun, nofun, nofun, List.Pairwise.nil⟩
  obtain ⟨last, reached, sound⟩ := run_sound events start fun _ member => member
  exact ⟨last, by rw [headingAnchors, reached]; rfl, sound⟩

/-! ## The viewer -/

theorem markAnchor_get (row : Nat) (marked : OrderedMap String Nat) (id other : String) :
    (markAnchor row marked id).get other =
      (marked.get other).or (if other = id then some row else none) := by
  rw [markAnchor]
  by_cases same : other = id
  · subst same
    split
    · rename_i present
      obtain ⟨first, found⟩ := Option.isSome_iff_exists.mp present
      rw [found, Option.some_or]
    · rename_i absent
      rw [OrderedMap.get_insert_same, Option.not_isSome_iff_eq_none.mp absent, if_pos rfl,
        Option.none_or]
  · rw [if_neg same, Option.or_none]
    split
    · rfl
    · exact OrderedMap.get_insert_other same

theorem markAnchors_get (row : Nat) (ids : List String) (marked : OrderedMap String Nat)
    (other : String) :
    (ids.foldl (markAnchor row) marked).get other =
      (marked.get other).or (if other ∈ ids then some row else none) := by
  induction ids generalizing marked with
  | nil => rw [List.foldl_nil, if_neg List.not_mem_nil, Option.or_none]
  | cons id rest ih =>
      rw [List.foldl_cons, ih, markAnchor_get, Option.or_assoc]
      congr 1
      by_cases same : other = id
      · rw [if_pos same, Option.some_or, if_pos (same ▸ List.mem_cons_self)]
      · simp only [same, List.mem_cons, false_or, if_false, Option.none_or]

def marks (row : Nat → Nat) (headings : List (Nat × List String))
    (marked : OrderedMap String Nat) : OrderedMap String Nat :=
  headings.foldl (fun marked heading => heading.2.foldl (markAnchor (row heading.1)) marked) marked

theorem marks_get (row : Nat → Nat) (headings : List (Nat × List String))
    (marked : OrderedMap String Nat) (id : String) :
    (marks row headings marked).get id = (marked.get id).or
      ((headings.find? fun heading => id ∈ heading.2).map fun heading => row heading.1) := by
  induction headings generalizing marked with
  | nil => rw [marks, List.foldl_nil, List.find?_nil, Option.map_none, Option.or_none]
  | cons heading rest ih =>
      change (marks row rest (heading.2.foldl (markAnchor (row heading.1)) marked)).get id = _
      rw [ih, markAnchors_get, Option.or_assoc, List.find?_cons]
      congr 1
      by_cases member : id ∈ heading.2
      · rw [if_pos member, decide_eq_true member, Option.some_or]
        rfl
      · rw [if_neg member, decide_eq_false member, Option.none_or]

/-- Taking the ids out of the map at each heading marks the headings in their order. -/
theorem renderHeadings_eq (row : Nat → Nat) {places : List Nat}
    (state : OrderedMap Nat (List String) × OrderedMap String Nat)
    (ordered : places.Pairwise (· < ·)) (inside : state.1.keys.Sublist places) :
    (places.foldl (renderHeading row) state).2 = marks row state.1.entries state.2 := by
  induction places generalizing state with
  | nil =>
      have empty : state.1.entries = [] := List.map_eq_nil_iff.mp (List.sublist_nil.mp inside)
      rw [empty]
      rfl
  | cons place rest ih =>
      obtain ⟨above, remaining⟩ := List.pairwise_cons.mp ordered
      rw [List.foldl_cons, renderHeading]
      rcases List.sublist_cons_iff.mp inside with later | ⟨keys, first, later⟩
      · -- This heading has no ids.
        have absent : state.1.get place = none := by
          rw [← Option.not_isSome_iff_eq_none, OrderedMap.get_isSome_iff]
          exact fun member => lt_irrefl _ (above place (later.subset member))
        rw [absent]
        exact ih _ remaining later
      · obtain ⟨⟨place, ids⟩, headings, entries, rfl, rfl⟩ := List.map_eq_cons_iff.mp first
        have others : (state.1.retain fun other _ => other != place).entries = headings := by
          have higher : ∀ heading ∈ headings, heading.1 ≠ place := fun heading member =>
            ne_of_gt (above heading.1 (later.subset (List.mem_map_of_mem member)))
          change state.1.entries.filter (fun entry => entry.1 != place) = headings
          rw [entries, List.filter_cons_of_neg (by simp), List.filter_eq_self]
          exact fun heading member => bne_iff_ne.mpr (higher heading member)
        have found : state.1.get place = some ids := by
          rw [OrderedMap.get, OrderedMap.lookup_eq_some_iff state.1.ascending, entries]
          exact List.mem_cons_self
        rw [found]
        dsimp only
        rw [ih _ remaining (by rw [OrderedMap.keys, others]; exact later), others, entries]
        rfl

variable {events : List Event} {state : AnchorState rules}

theorem keys_sublist (sound : Sound events [] state)
    (ordered : (offsets events).Pairwise (· < ·)) :
    state.anchors.keys.Sublist (offsets events) := by
  have subset : state.anchors.keys ⊆ offsets events := by
    intro key member
    obtain ⟨heading, inside, rfl⟩ := List.mem_map.mp member
    obtain ⟨id, explicit, -, started⟩ := sound.shaped heading inside
    exact List.mem_filterMap.mpr ⟨_, started, rfl⟩
  have ascending : state.anchors.keys.Pairwise (· < ·) :=
    List.pairwise_map.mpr state.anchors.ascending
  exact List.sublist_of_subperm_of_pairwise
    (List.subperm_of_subset state.anchors.keys_nodup subset) ascending ordered

theorem viewerAnchors_get (row : Nat → Nat) (sound : Sound events [] state)
    (ordered : (offsets events).Pairwise (· < ·)) (id : String) :
    (viewerAnchors row events state.anchors).get id =
      (state.anchors.entries.find? fun heading => id ∈ heading.2).map
        fun heading => row heading.1 := by
  have marked := renderHeadings_eq row (state.anchors, OrderedMap.empty) ordered
    (keys_sublist sound ordered)
  rw [viewerAnchors]
  change
    (((offsets events).foldl (renderHeading row) (state.anchors, OrderedMap.empty)).2).get id = _
  rw [marked, marks_get, OrderedMap.get_empty, Option.none_or]

/-! ## The ids of all headings -/

theorem first_heading {headings : List (Nat × List String)}
    (ascending : OrderedMap.Ascending headings) {heading : Nat × List String}
    (member : heading ∈ headings) {id : String} (inside : id ∈ heading.2) :
    ∃ first ∈ headings, id ∈ first.2 ∧
      (∀ other ∈ headings, id ∈ other.2 → first.1 ≤ other.1) ∧
      (headings.find? fun heading => id ∈ heading.2) = some first := by
  have some : (headings.find? fun heading => id ∈ heading.2).isSome = true :=
    List.find?_isSome.mpr ⟨heading, member, decide_eq_true inside⟩
  obtain ⟨first, found⟩ := Option.isSome_iff_exists.mp some
  obtain ⟨has, front, back, split, without⟩ := List.find?_eq_some_iff_append.mp found
  refine ⟨first, List.mem_of_find?_eq_some found, of_decide_eq_true has, ?_, found⟩
  intro other present shared
  rw [split] at present ascending
  rcases List.mem_append.mp present with earlier | later
  · have absent := without other earlier
    rw [decide_eq_true shared] at absent
    exact absurd absent (by decide)
  · rcases List.mem_cons.mp later with rfl | behind
    · exact Nat.le_refl _
    · have suffix := (List.pairwise_append.mp ascending).2.1
      exact ((List.pairwise_cons.mp suffix).1 other behind).le

theorem fresh_of_lt (sound : Sound events [] state) {earlier later : Nat × List String}
    (before : earlier ∈ state.anchors.entries) (after : later ∈ state.anchors.entries)
    (less : earlier.1 < later.1) {id : String} (made : later.2.head? = some id) :
    id ∉ earlier.2 := by
  obtain ⟨front, back, split⟩ := List.mem_iff_append.mp after
  have fresh := sound.fresh
  have ascending := state.anchors.ascending
  rw [split] at before fresh
  rw [OrderedMap.Ascending, split] at ascending
  rcases List.mem_append.mp before with inside | behind
  · exact (List.pairwise_append.mp fresh).2.2 earlier inside later List.mem_cons_self id made
  · rcases List.mem_cons.mp behind with rfl | behind
    · exact absurd less (lt_irrefl _)
    · have higher := (List.pairwise_cons.mp (List.pairwise_append.mp ascending).2.1).1
      exact absurd (higher earlier behind) (lt_asymm less)

/-- The search for ids always ends. The id that is made for a heading is on no heading before it and
leads to this heading; every other id is its author's and leads to the first heading that has it. -/
theorem headingAnchors_lead (rules : LabelRules) (row : Nat → Nat) (events : List Event)
    (ordered : (events.filterMap headingOffset).Pairwise (· < ·)) :
    ∃ anchors, headingAnchors rules events = some anchors ∧
      anchors.keys = closedOffsets none events ∧
      (∀ heading ∈ anchors.entries, ∃ id explicit,
        heading.2 = id :: Option.toList explicit ∧ .startHeading heading.1 explicit ∈ events ∧
        (∀ earlier ∈ anchors.entries, earlier.1 < heading.1 → id ∉ earlier.2) ∧
        (viewerAnchors row events anchors).get id = some (row heading.1)) ∧
      ∀ heading ∈ anchors.entries, ∀ id ∈ heading.2, ∃ first ∈ anchors.entries,
        id ∈ first.2 ∧ (∀ other ∈ anchors.entries, id ∈ other.2 → first.1 ≤ other.1) ∧
        (viewerAnchors row events anchors).get id = some (row first.1) := by
  obtain ⟨state, reached, sound⟩ := @headingAnchors_sound rules events ordered
  have leads : ∀ heading ∈ state.anchors.entries, ∀ id ∈ heading.2,
      ∃ first ∈ state.anchors.entries, id ∈ first.2 ∧
        (∀ other ∈ state.anchors.entries, id ∈ other.2 → first.1 ≤ other.1) ∧
        (viewerAnchors row events state.anchors).get id = some (row first.1) := by
    intro heading member id inside
    obtain ⟨first, there, has, least, found⟩ :=
      first_heading state.anchors.ascending member inside
    refine ⟨first, there, has, least, ?_⟩
    rw [viewerAnchors_get row sound ordered, found, Option.map_some]
  have keys := sound.closed
  rw [closedOffsets, List.append_nil] at keys
  refine ⟨state.anchors, reached, keys, ?_, leads⟩
  intro heading member
  obtain ⟨id, explicit, shape, started⟩ := sound.shaped heading member
  have made : heading.2.head? = some id := by rw [shape, List.head?_cons]
  refine ⟨id, explicit, shape, started, ?_, ?_⟩
  · intro earlier before less
    exact fresh_of_lt sound before member less made
  · have inside : id ∈ heading.2 := shape ▸ List.mem_cons_self
    obtain ⟨first, there, has, least, found⟩ := leads heading member id inside
    have same : first.1 = heading.1 := by
      refine le_antisymm (least heading member inside) (not_lt.mp fun less => ?_)
      exact fresh_of_lt sound there member less made has
    rw [found, same]

/-! ## An id of two headings -/

/-- The rules for labels of ASCII characters without HTML. -/
def asciiRules : LabelRules where
  HtmlState := Unit
  start := ()
  project _ _ := ([], ())
  lowercase := List.map Char.toLower
  isAlphanumeric := Char.isAlphanum

/-- `# A` and `# B {#a}`. -/
def sharedEvents : List Event :=
  [.startHeading 0 none, .text ['A'], .endHeading,
    .startHeading 5 (some "a"), .text ['B'], .endHeading]

theorem sharedEvents_anchors :
    (headingAnchors asciiRules sharedEvents).map (·.entries) =
      some [(0, ["a"]), (5, ["b", "a"])] := by decide

/-- An author may write an id that an earlier heading has already. -/
theorem headingAnchors_shared :
    ¬ ∀ (rules : LabelRules) (row : Nat → Nat) (events : List Event),
      (events.filterMap headingOffset).Pairwise (· < ·) →
      ∃ anchors, headingAnchors rules events = some anchors ∧
        (anchors.entries.Pairwise fun first second => first.2.Disjoint second.2) ∧
        ∀ heading ∈ anchors.entries, ∀ id ∈ heading.2,
          (viewerAnchors row events anchors).get id = some (row heading.1) := by
  intro claimed
  obtain ⟨anchors, reached, distinct, -⟩ := claimed asciiRules id sharedEvents (by decide)
  have entries := sharedEvents_anchors
  rw [reached, Option.map_some, Option.some.injEq] at entries
  rw [entries] at distinct
  have apart := (List.pairwise_cons.mp distinct).1 _ List.mem_cons_self
  exact apart List.mem_cons_self (List.mem_cons_of_mem _ List.mem_cons_self)

theorem headingAnchors_lead_shared :
    ∃ anchors, headingAnchors asciiRules sharedEvents = some anchors ∧ anchors.keys = [0, 5] ∧
      ∀ heading ∈ anchors.entries, ∃ name ∈ heading.2,
        (viewerAnchors id sharedEvents anchors).get name = some heading.1 := by
  obtain ⟨anchors, reached, keys, made, -⟩ :=
    headingAnchors_lead asciiRules id sharedEvents (by decide)
  refine ⟨anchors, reached, keys, fun heading member => ?_⟩
  obtain ⟨name, explicit, shape, -, -, leads⟩ := made heading member
  exact ⟨name, shape ▸ List.mem_cons_self, leads⟩

end Kvist.Blad
