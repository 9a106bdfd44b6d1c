import Mathlib.Data.List.SplitBy
import Kvist.Blad.Display

/-!
# What a clipped line shows

A line that is clipped shows the graphemes of the window with their own attributes and the style of
the range over them. A grapheme that an edge cuts is shown as spaces, with the attributes that the
line has behind the last style inside it.
-/

set_option autoImplicit false

namespace Kvist.Blad

open Assignments

/-! ## Styles over a line -/

/-- A style of complete sequences for attributes. -/
def IsStyle (text : List Char) : Prop :=
  ∃ sequences : List (List Char), (∀ sequence ∈ sequences, IsSgr sequence) ∧
    text = sequences.flatten

/-- The attributes under a style. -/
def overlaid (style : List Char) (attributes : Attributes) : Attributes :=
  (display style attributes).2

theorem isStyle_nil : IsStyle [] := ⟨[], nofun, rfl⟩

theorem draws_style {style : List Char} (formed : IsStyle style) (attributes : Attributes) :
    Draws style attributes [] (overlaid style attributes) := by
  obtain ⟨sequences, each, rfl⟩ := formed
  have draws := draws_sgrs each attributes
  rwa [overlaid, draws.display]

theorem isAssignment_overlaid {style : List Char} (formed : IsStyle style) :
    IsAssignment (overlaid style) := by
  obtain ⟨sequences, each, rfl⟩ := formed
  have same : overlaid sequences.flatten = fun attributes => applyAll attributes sequences := by
    funext attributes
    rw [overlaid, (draws_sgrs each attributes).display]
  rw [same]
  exact isAssignment_applyAll sequences

/-! ## The styles up to a place -/

/-- The attributes of a line from the styles in front of a place. -/
def attributesBefore (styles : List (Nat × List Char)) (limit : Nat) (own : Attributes) :
    Attributes :=
  applyAll own ((styles.takeWhile (·.1 < limit)).map (·.2))

theorem takeWhile_add {styles : List (Nat × List Char)} {near far : Nat} (order : near ≤ far) :
    styles.takeWhile (·.1 < far) = styles.takeWhile (·.1 < near) ++
      (styles.dropWhile (·.1 < near)).takeWhile (·.1 < far) := by
  induction styles with
  | nil => rfl
  | cons style rest ih =>
      by_cases inside : style.1 < near
      · have further : style.1 < far := Nat.lt_of_lt_of_le inside order
        simp only [List.takeWhile_cons, List.dropWhile_cons, decide_eq_true inside,
          decide_eq_true further, if_true, ih, List.cons_append]
      · simp only [List.takeWhile_cons, List.dropWhile_cons, decide_eq_false inside,
          Bool.false_eq_true, if_false, List.nil_append]

theorem dropWhile_dropWhile {styles : List (Nat × List Char)} {near far : Nat}
    (order : near ≤ far) :
    (styles.dropWhile (·.1 < near)).dropWhile (·.1 < far) = styles.dropWhile (·.1 < far) := by
  induction styles with
  | nil => rfl
  | cons style rest ih =>
      by_cases inside : style.1 < near
      · rw [List.dropWhile_cons_of_pos (by simpa using inside), ih,
          List.dropWhile_cons_of_pos (by simpa using Nat.lt_of_lt_of_le inside order)]
      · rw [List.dropWhile_cons_of_neg (by simpa using inside)]

theorem attributesBefore_add {styles : List (Nat × List Char)} {near far : Nat}
    (order : near ≤ far) (own : Attributes) :
    attributesBefore styles far own =
      attributesBefore (styles.dropWhile (·.1 < near)) far (attributesBefore styles near own) := by
  rw [attributesBefore, takeWhile_add order, List.map_append, applyAll, List.foldl_append]
  rfl

theorem attributesBefore_cons {style : Nat × List Char} {limit : Nat} (inside : style.1 < limit)
    (rest : List (Nat × List Char)) (own : Attributes) :
    attributesBefore (style :: rest) limit own =
      attributesBefore rest limit (applySgr own style.2) := by
  rw [attributesBefore, List.takeWhile_cons_of_pos (by simpa using inside)]
  rfl

theorem attributesBefore_beyond {style : Nat × List Char} {limit : Nat}
    (beyond : limit ≤ style.1) (rest : List (Nat × List Char)) (own : Attributes) :
    attributesBefore (style :: rest) limit own = own := by
  rw [attributesBefore, List.takeWhile_cons_of_neg (by simpa using beyond)]
  rfl

/-! ## What is written so far -/

/-- The text that is written shows these cells, and the attributes that are kept are those of the
line so far. -/
structure Shows (clip : Clip) (own : Attributes) (cells : List Cell) : Prop where
  source : Represents clip.source own
  active : IsStyle (clip.active.getD [])
  draws : Draws clip.result defaultAttributes cells (overlaid (clip.active.getD []) own)

/-- The ranges are where they were. -/
structure SameRanges (before after : Clip) : Prop where
  active : after.active = before.active
  ranges : after.ranges = before.ranges
  activeRanges : after.activeRanges = before.activeRanges

variable {clip : Clip} {styles : List (Nat × List Char)} {own : Attributes} {cells : List Cell}

theorem Shows.left (shows : Shows clip own cells) (left : List (Nat × List Char)) :
    Shows { clip with styles := left } own cells :=
  ⟨shows.source, shows.active, shows.draws⟩

theorem Shows.plain (shows : Shows clip own cells) {text : List Char} (plain : '\x1b' ∉ text) :
    Shows { clip with result := clip.result ++ text } own
      (cells ++ text.map fun character => (character, overlaid (clip.active.getD []) own)) :=
  ⟨shows.source, shows.active, shows.draws.append (draws_plain plain _)⟩

/-- A style of the line is put under the style of the range again. -/
theorem Shows.pushStyle (shows : Shows clip own cells) {style : List Char}
    (formed : IsSgr style) : Shows (Blad.pushStyle clip style) (applySgr own style) cells := by
  refine ⟨represents_apply shows.source formed, shows.active, ?_⟩
  have written := (shows.draws.append (draws_sgr formed _)).append (draws_style shows.active _)
  have again := (isAssignment_overlaid shows.active).again (isAssignment_applySgr style) own
  rwa [again, List.append_nil, List.append_nil] at written

theorem passStyles_styles (limit : Nat) :
    (passStyles limit styles clip).styles = styles.dropWhile (·.1 < limit) := by
  induction styles generalizing clip with
  | nil => rfl
  | cons style rest ih =>
      rw [passStyles]
      by_cases inside : style.1 < limit
      · rw [if_pos inside, ih, List.dropWhile_cons_of_pos (by simpa using inside)]
      · rw [if_neg inside, List.dropWhile_cons_of_neg (by simpa using inside)]

theorem passStyles_ranges (limit : Nat) : SameRanges clip (passStyles limit styles clip) := by
  induction styles generalizing clip with
  | nil => exact ⟨rfl, rfl, rfl⟩
  | cons style rest ih =>
      rw [passStyles]
      split
      · have later := @ih (pushStyle clip style.2)
        exact ⟨later.active, later.ranges, later.activeRanges⟩
      · exact ⟨rfl, rfl, rfl⟩

theorem passStyles_shows {limit : Nat} (formed : ∀ style ∈ styles, IsSgr style.2)
    (shows : Shows clip own cells) :
    Shows (passStyles limit styles clip) (attributesBefore styles limit own) cells := by
  induction styles generalizing clip own with
  | nil => exact shows.left []
  | cons style rest ih =>
      rw [List.forall_mem_cons] at formed
      rw [passStyles]
      by_cases inside : style.1 < limit
      · rw [if_pos inside, attributesBefore_cons inside]
        exact ih formed.2 (shows.pushStyle formed.1)
      · rw [if_neg inside, attributesBefore_beyond (Nat.le_of_not_lt inside)]
        exact shows.left _

/-! ## A text with the styles inside it -/

def cellsFrom (styles : List (Nat × List Char)) (own : Attributes) (style : List Char) :
    Nat → List Char → List Cell
  | _, [] => []
  | place, character :: rest =>
      (character, overlaid style (attributesBefore styles (place + 1) own)) ::
        cellsFrom styles own style (place + 1) rest

theorem cellsFrom_append (style : List Char) (place : Nat) (front back : List Char) :
    cellsFrom styles own style place (front ++ back) =
      cellsFrom styles own style place front ++
        cellsFrom styles own style (place + front.length) back := by
  induction front generalizing place with
  | nil => rfl
  | cons character rest ih =>
      rw [List.cons_append, cellsFrom, ih, List.length_cons, cellsFrom, Nat.add_assoc,
        Nat.add_comm 1, List.cons_append]

theorem cellsFrom_before {style : List Char} {place : Nat} {text : List Char}
    (ahead : ∀ first ∈ styles.head?, place + text.length ≤ first.1) :
    cellsFrom styles own style place text =
      text.map fun character => (character, overlaid style own) := by
  induction text generalizing place with
  | nil => rfl
  | cons character rest ih =>
      rw [List.length_cons] at ahead
      have here : attributesBefore styles (place + 1) own = own := by
        cases styles with
        | nil => rfl
        | cons first others =>
            have far := ahead first rfl
            exact attributesBefore_beyond (by omega) _ _
      rw [cellsFrom, here, ih fun first member => by have := ahead first member; omega]
      rfl

theorem cellsFrom_behind {style : Nat × List Char} {covered : List Char} {place : Nat}
    {text : List Char} (behind : style.1 ≤ place) :
    cellsFrom (style :: styles) own covered place text =
      cellsFrom styles (applySgr own style.2) covered place text := by
  induction text generalizing place with
  | nil => rfl
  | cons character rest ih =>
      rw [cellsFrom, cellsFrom, attributesBefore_cons (Nat.lt_succ_of_le behind),
        ih (Nat.le_succ_of_le behind)]

theorem pushParts_styles (limit place : Nat) (text : List Char) :
    (pushParts limit styles place text clip).styles = styles.dropWhile (·.1 < limit) := by
  induction styles generalizing clip place text with
  | nil => rfl
  | cons style rest ih =>
      rw [pushParts]
      by_cases inside : style.1 < limit
      · rw [if_pos inside, ih, List.dropWhile_cons_of_pos (by simpa using inside)]
      · rw [if_neg inside, List.dropWhile_cons_of_neg (by simpa using inside)]

theorem pushParts_ranges (limit place : Nat) (text : List Char) :
    SameRanges clip (pushParts limit styles place text clip) := by
  induction styles generalizing clip place text with
  | nil => exact ⟨rfl, rfl, rfl⟩
  | cons style rest ih =>
      rw [pushParts]
      split
      · have later := @ih (pushStyle { clip with
          result := clip.result ++ text.take (style.1 - place) } style.2) style.1
          (text.drop (style.1 - place))
        exact ⟨later.active, later.ranges, later.activeRanges⟩
      · exact ⟨rfl, rfl, rfl⟩

theorem pushParts_shows {place : Nat} {text : List Char}
    (formed : ∀ style ∈ styles, IsSgr style.2) (sorted : styles.Pairwise fun early late =>
      early.1 ≤ late.1) (ahead : ∀ style ∈ styles, place ≤ style.1) (plain : '\x1b' ∉ text)
    (shows : Shows clip own cells) :
    Shows (pushParts (place + text.length) styles place text clip)
      (attributesBefore styles (place + text.length) own)
      (cells ++ cellsFrom styles own (clip.active.getD []) place text) := by
  induction styles generalizing clip own cells place text with
  | nil =>
      rw [pushParts, cellsFrom_before (by simp)]
      exact (shows.plain plain).left []
  | cons style rest ih =>
      rw [List.forall_mem_cons] at formed ahead
      obtain ⟨later, ordered⟩ := List.pairwise_cons.mp sorted
      rw [pushParts]
      by_cases inside : style.1 < place + text.length
      · rw [if_pos inside, attributesBefore_cons inside]
        have split := List.take_append_drop (style.1 - place) text
        have length : (text.take (style.1 - place)).length = style.1 - place := by
          rw [List.length_take]
          omega
        have early : cellsFrom (style :: rest) own (clip.active.getD []) place
            (text.take (style.1 - place)) = (text.take (style.1 - place)).map fun character =>
              (character, overlaid (clip.active.getD []) own) := by
          refine cellsFrom_before fun first member => ?_
          obtain rfl := Option.some.inj member
          rw [length]
          omega
        have whole : cellsFrom (style :: rest) own (clip.active.getD []) place text =
            ((text.take (style.1 - place)).map fun character =>
              (character, overlaid (clip.active.getD []) own)) ++
            cellsFrom rest (applySgr own style.2) (clip.active.getD []) style.1
              (text.drop (style.1 - place)) := by
          conv_lhs => rw [← split]
          rw [cellsFrom_append, early, length, Nat.add_sub_cancel' ahead.1,
            cellsFrom_behind le_rfl]
        have dropped : style.1 + (text.drop (style.1 - place)).length = place + text.length := by
          rw [List.length_drop]
          omega
        have plainFront : '\x1b' ∉ text.take (style.1 - place) := fun member =>
          plain (List.mem_of_mem_take member)
        have written := (shows.plain plainFront).pushStyle formed.1
        have plainBack : '\x1b' ∉ text.drop (style.1 - place) := fun member =>
          plain (List.mem_of_mem_drop member)
        have behind := ih formed.2 ordered later plainBack written
        rw [dropped] at behind
        rw [whole, ← List.append_assoc]
        exact behind
      · rw [if_neg inside, attributesBefore_beyond (Nat.le_of_not_lt inside),
          cellsFrom_before fun first member => by
            obtain rfl := Option.some.inj member
            exact Nat.le_of_not_lt inside]
        exact (shows.plain plain).left _

/-! ## Ranges -/

/-- The ranges do not overlap and stand in their order. -/
structure Ordered (ranges : List Range) : Prop where
  proper : ∀ range ∈ ranges, range.start ≤ range.stop
  apart : ranges.Pairwise fun early late => early.stop ≤ late.start

def touched (ranges : List Range) (column next : Nat) : Bool :=
  ranges.any fun range => column < range.stop && range.start < next

/-- The ranges from the first one on that ends behind all columns in front of this one. -/
def rangesFrom (ranges : List Range) (column : Nat) : List Range :=
  ranges.dropWhile fun range => range.stop < column

theorem rangesFrom_again (ranges : List Range) {near far : Nat} (order : near ≤ far) :
    rangesFrom (rangesFrom ranges near) far = rangesFrom ranges far := by
  unfold rangesFrom
  induction ranges with
  | nil => rfl
  | cons range rest ih =>
      by_cases beyond : range.stop < near
      · rw [List.dropWhile_cons_of_pos (by simpa using beyond), ih,
          List.dropWhile_cons_of_pos (by simpa using Nat.lt_of_lt_of_le beyond order)]
      · rw [List.dropWhile_cons_of_neg (by simpa using beyond)]

/-- Of ranges in their order only the first one that is left has to be looked at. -/
theorem head_rangesFrom {ranges : List Range} (ordered : Ordered ranges) (column next : Nat) :
    ((rangesFrom ranges (column + 1)).head?.any fun range => range.start < next) =
      touched ranges column next := by
  obtain ⟨proper, apart⟩ := ordered
  unfold rangesFrom touched
  induction ranges with
  | nil => rfl
  | cons range rest ih =>
      rw [List.forall_mem_cons] at proper
      obtain ⟨later, remaining⟩ := List.pairwise_cons.mp apart
      by_cases beyond : range.stop ≤ column
      · rw [List.dropWhile_cons_of_pos (by simpa [Nat.lt_add_one_iff] using beyond),
          ih proper.2 remaining, List.any_cons,
          decide_eq_false (Nat.not_lt.mpr beyond), Bool.false_and, Bool.false_or]
      · rw [List.dropWhile_cons_of_neg (by simpa [Nat.lt_add_one_iff] using beyond),
          List.head?_cons, Option.any_some,
          List.any_cons, decide_eq_true (Nat.lt_of_not_le beyond), Bool.true_and]
        by_cases begun : range.start < next
        · rw [decide_eq_true begun, Bool.true_or]
        · rw [decide_eq_false begun, Bool.false_or, Eq.comm, List.any_eq_false]
          intro other member inside
          rw [Bool.and_eq_true, decide_eq_true_eq, decide_eq_true_eq] at inside
          have first := later other member
          omega

theorem overlaps_eq {ranges : List Range} (ordered : Ordered ranges) {passed column : Nat}
    (order : passed ≤ column + 1) (next : Nat) :
    overlaps (rangesFrom ranges passed) column next =
      (rangesFrom ranges (column + 1), touched ranges column next) := by
  have left : ((rangesFrom ranges passed).dropWhile fun range => range.stop ≤ column) =
      rangesFrom ranges (column + 1) := by
    rw [← rangesFrom_again ranges order]
    generalize rangesFrom ranges passed = remaining
    unfold rangesFrom
    simp only [Nat.lt_add_one_iff]
  rw [overlaps, left, ← head_rangesFrom ordered]

/-- What is set off in a line. -/
structure Highlights where
  ranges : List Range
  overlay : List Char
  activeRanges : List Range
  activeOverlay : List Char
  ordered : Ordered ranges
  activeOrdered : Ordered activeRanges
  formed : IsStyle overlay
  activeFormed : IsStyle activeOverlay

def Highlights.over (highlights : Highlights) (column next : Nat) : Option (List Char) :=
  if touched highlights.activeRanges column next then some highlights.activeOverlay
  else if touched highlights.ranges column next then some highlights.overlay
  else none

/-- The ranges that are left are those from a column on that is at most behind this one. -/
structure Follows (highlights : Highlights) (column : Nat) (clip : Clip) : Prop where
  ranges : ∃ passed ≤ column + 1, clip.ranges = rangesFrom highlights.ranges passed
  activeRanges : ∃ passed ≤ column + 1,
    clip.activeRanges = rangesFrom highlights.activeRanges passed

theorem Follows.later {highlights : Highlights} {column later : Nat} {before after : Clip}
    (follows : Follows highlights column before) (order : column ≤ later)
    (same : SameRanges before after) : Follows highlights later after := by
  obtain ⟨⟨passed, early, rangesEq⟩, ⟨active, activeEarly, activeEq⟩⟩ := follows
  exact ⟨⟨passed, early.trans (Nat.succ_le_succ order), same.ranges.trans rangesEq⟩,
    ⟨active, activeEarly.trans (Nat.succ_le_succ order), same.activeRanges.trans activeEq⟩⟩

theorem isStyle_over (highlights : Highlights) (column next : Nat) :
    IsStyle ((highlights.over column next).getD []) := by
  rw [Highlights.over]
  split
  · exact highlights.activeFormed
  · split
    · exact highlights.formed
    · exact isStyle_nil

/-- Where the style changes, the attributes of the line are restored below it. -/
theorem Shows.change (shows : Shows clip own cells) {style : Option (List Char)}
    (formed : IsStyle (style.getD [])) :
    Shows { clip with
      result := clip.result ++ clip.source.restored ++ style.getD []
      active := style } own cells := by
  refine ⟨shows.source, formed, ?_⟩
  have written := (shows.draws.append (draws_restored shows.source _)).append
    (draws_style formed own)
  rwa [List.append_nil, List.append_nil] at written

theorem highlight_shows {highlights : Highlights} {column : Nat}
    (follows : Follows highlights column clip) (shows : Shows clip own cells) (next : Nat) :
    let after := highlight ⟨highlights.overlay, highlights.activeOverlay⟩ clip column next
    after.styles = clip.styles ∧ after.active = highlights.over column next ∧
      Follows highlights column after ∧ Shows after own cells := by
  obtain ⟨⟨passed, early, rangesEq⟩, ⟨active, activeEarly, activeEq⟩⟩ := follows
  have formed := isStyle_over highlights column next
  unfold highlight
  rw [activeEq, overlaps_eq highlights.activeOrdered activeEarly]
  dsimp only
  rw [rangesEq, overlaps_eq highlights.ordered early]
  rw [Highlights.over] at formed ⊢
  cases isActive : touched highlights.activeRanges column next with
  | true =>
      rw [isActive] at formed
      simp only [if_true] at formed ⊢
      by_cases same : clip.active = some highlights.activeOverlay
      · rw [if_pos same]
        exact ⟨rfl, same, ⟨⟨passed, early, rfl⟩, ⟨column + 1, le_rfl, rfl⟩⟩,
          shows.source, shows.active, shows.draws⟩
      · have changed := shows.change formed
        rw [if_neg same]
        exact ⟨rfl, rfl, ⟨⟨passed, early, rfl⟩, ⟨column + 1, le_rfl, rfl⟩⟩,
          changed.source, changed.active, changed.draws⟩
  | false =>
      rw [isActive] at formed
      simp only [Bool.false_eq_true, if_false] at formed ⊢
      generalize (if touched highlights.ranges column next = true then some highlights.overlay
        else none) = style at formed ⊢
      by_cases same : clip.active = style
      · rw [if_pos same]
        exact ⟨rfl, same, ⟨⟨column + 1, le_rfl, rfl⟩, ⟨column + 1, le_rfl, rfl⟩⟩,
          shows.source, shows.active, shows.draws⟩
      · have changed := shows.change formed
        rw [if_neg same]
        exact ⟨rfl, rfl, ⟨⟨column + 1, le_rfl, rfl⟩, ⟨column + 1, le_rfl, rfl⟩⟩,
          changed.source, changed.active, changed.draws⟩

/-! ## One grapheme -/

/-- The attributes of a line at a place. -/
def attributesAt (styles : List (Nat × List Char)) (place : Nat) : Attributes :=
  applyAll defaultAttributes ((styles.filter (·.1 ≤ place)).map (·.2))

theorem attributesBefore_eq (sorted : styles.Pairwise fun early late => early.1 ≤ late.1)
    (place : Nat) :
    attributesBefore styles (place + 1) defaultAttributes = attributesAt styles place := by
  have same : styles.takeWhile (·.1 < place + 1) = styles.filter (·.1 ≤ place) := by
    induction styles with
    | nil => rfl
    | cons style rest ih =>
        obtain ⟨later, remaining⟩ := List.pairwise_cons.mp sorted
        by_cases inside : style.1 ≤ place
        · rw [List.takeWhile_cons_of_pos (by simpa using Nat.lt_succ_of_le inside),
            List.filter_cons_of_pos (by simpa using inside), ih remaining]
        · rw [List.takeWhile_cons_of_neg (by simpa [Nat.lt_succ_iff] using inside), Eq.comm,
            List.filter_eq_nil_iff]
          intro other member
          rw [decide_eq_true_eq]
          rcases List.mem_cons.mp member with rfl | behind
          · exact inside
          · exact fun near => inside ((later other behind).trans near)
  rw [attributesBefore, same]
  rfl

/-- A grapheme with the number of characters and the column in front of it. -/
structure Placed where
  offset : Nat
  column : Nat
  grapheme : List Char

variable (rules : TextRules)

def Placed.next (placed : Placed) : Nat := placed.column + rules.width placed.grapheme

/-- All columns of the grapheme are in the window. -/
def Placed.IsWhole (window : Window) (placed : Placed) : Prop :=
  window.start ≤ placed.column ∧ placed.column < window.stop ∧ placed.next rules ≤ window.stop

instance (window : Window) (placed : Placed) : Decidable (placed.IsWhole rules window) :=
  inferInstanceAs (Decidable (_ ∧ _ ∧ _))

/-- How many columns of the grapheme are in the window. -/
def Placed.shownColumns (window : Window) (placed : Placed) : Nat :=
  min (placed.next rules) window.stop - max placed.column window.start

/-- The style over the grapheme. -/
def Placed.style (highlights : Highlights) (placed : Placed) : List Char :=
  (highlights.over placed.column (placed.next rules)).getD []

/-- What a window shows of a grapheme: all of it, or spaces in the columns that are left. The spaces
have the attributes of the line at one of its characters. -/
def Placed.shown (styles : List (Nat × List Char)) (highlights : Highlights) (window : Window)
    (shownAt : Placed → Nat) (placed : Placed) : List Cell :=
  let attributes := fun place =>
    overlaid (placed.style rules highlights) (attributesAt styles place)
  if placed.IsWhole rules window then
    (placed.grapheme.zipIdx placed.offset).map fun part => (part.1, attributes part.2)
  else List.replicate (placed.shownColumns rules window) (' ', attributes (shownAt placed))

/-- The first character of a grapheme, which takes its columns. -/
def Placed.first (placed : Placed) : Nat := placed.offset

/-- The last character of a grapheme. -/
def Placed.last (placed : Placed) : Nat := placed.offset + placed.grapheme.length - 1

theorem cellsFrom_eq (sorted : styles.Pairwise fun early late => early.1 ≤ late.1)
    (style : List Char) (place : Nat) (text : List Char) :
    cellsFrom styles defaultAttributes style place text =
      (text.zipIdx place).map fun part =>
        (part.1, overlaid style (attributesAt styles part.2)) := by
  induction text generalizing place with
  | nil => rfl
  | cons character rest ih =>
      rw [cellsFrom, ih, attributesBefore_eq sorted, List.zipIdx_cons, List.map_cons]

theorem cellsFrom_passed (style : List Char) (text : List Char) {limit place : Nat}
    (order : limit ≤ place + 1) :
    cellsFrom (styles.dropWhile (·.1 < limit)) (attributesBefore styles limit own) style place
        text =
      cellsFrom styles own style place text := by
  induction text generalizing place with
  | nil => rfl
  | cons character rest ih =>
      rw [cellsFrom, cellsFrom, ← attributesBefore_add order, ih (Nat.le_succ_of_le order)]

theorem mem_dropWhile {style : Nat × List Char} {limit : Nat}
    (sorted : styles.Pairwise fun early late => early.1 ≤ late.1)
    (member : style ∈ styles.dropWhile (·.1 < limit)) : limit ≤ style.1 := by
  induction styles with
  | nil => exact nomatch member
  | cons first rest ih =>
      obtain ⟨later, remaining⟩ := List.pairwise_cons.mp sorted
      by_cases inside : first.1 < limit
      · rw [List.dropWhile_cons_of_pos (by simpa using inside)] at member
        exact ih remaining member
      · rw [List.dropWhile_cons_of_neg (by simpa using inside)] at member
        rcases List.mem_cons.mp member with rfl | behind
        · exact Nat.le_of_not_lt inside
        · exact (Nat.le_of_not_lt inside).trans (later style behind)

/-- The styles of a line are complete sequences in the order of their places. -/
structure Styled (styles : List (Nat × List Char)) : Prop where
  formed : ∀ style ∈ styles, IsSgr style.2
  sorted : styles.Pairwise fun early late => early.1 ≤ late.1

/-- What holds in front of a grapheme. -/
structure Reached (styles : List (Nat × List Char)) (highlights : Highlights)
    (offset column : Nat) (clip : Clip) (cells : List Cell) : Prop where
  styles_eq : clip.styles = styles.dropWhile (·.1 < offset)
  follows : Follows highlights column clip
  shows : Shows clip (attributesBefore styles offset defaultAttributes) cells

variable {highlights : Highlights} {window : Window} {placed : Placed}

theorem Styled.dropWhile (styled : Styled styles) (limit : Nat) :
    Styled (styles.dropWhile (·.1 < limit)) :=
  ⟨fun style member => styled.formed style ((List.dropWhile_suffix _).mem member),
    styled.sorted.sublist (List.dropWhile_suffix _).sublist⟩

/-- In front of its characters the styles up to a grapheme and the style over it are written. -/
theorem opened_reached (styled : Styled styles) {offset column : Nat}
    (reached : Reached styles highlights offset column clip cells) (next : Nat) :
    let after := highlight ⟨highlights.overlay, highlights.activeOverlay⟩
      (passStyles (offset + 1) clip.styles clip) column next
    Reached styles highlights (offset + 1) column after cells ∧
      after.active = highlights.over column next := by
  obtain ⟨stylesEq, follows, shows⟩ := reached
  have order := Nat.le_succ offset
  have passed : (passStyles (offset + 1) clip.styles clip).styles =
      styles.dropWhile (·.1 < offset + 1) := by
    rw [passStyles_styles, stylesEq, dropWhile_dropWhile order]
  have passedShows : Shows (passStyles (offset + 1) clip.styles clip)
      (attributesBefore styles (offset + 1) defaultAttributes) cells := by
    rw [attributesBefore_add order, stylesEq]
    exact passStyles_shows (styled.dropWhile offset).formed shows
  obtain ⟨left, active, followed, shown⟩ := highlight_shows
    (follows.later le_rfl (passStyles_ranges (offset + 1))) passedShows next
  exact ⟨⟨left.trans passed, followed, shown⟩, active⟩

theorem clipGrapheme_reached (styled : Styled styles) (plain : '\x1b' ∉ placed.grapheme)
    (some : placed.grapheme ≠ []) (visible : placed.column < window.stop)
    (reached : Reached styles highlights placed.offset placed.column clip cells) :
    Reached styles highlights (placed.offset + placed.grapheme.length) (placed.next rules)
      (clipGrapheme rules ⟨highlights.overlay, highlights.activeOverlay⟩ window clip placed.offset
        placed.column placed.grapheme)
      (cells ++ placed.shown rules styles highlights window Placed.last) := by
  have length := List.length_pos_iff.mpr some
  have order : placed.offset + 1 ≤ placed.offset + placed.grapheme.length := by omega
  have forth : placed.column ≤ placed.next rules := Nat.le_add_right _ _
  obtain ⟨⟨stylesEq, follows, shows⟩, active⟩ := opened_reached styled reached (placed.next rules)
  have next : placed.column + rules.width placed.grapheme = placed.next rules := rfl
  rw [clipGrapheme, Placed.shown]
  dsimp only
  rw [next]
  generalize highlight ⟨highlights.overlay, highlights.activeOverlay⟩
    (passStyles (placed.offset + 1) clip.styles clip) placed.column (placed.next rules) = opened
    at stylesEq follows shows active ⊢
  have formed := (styled.dropWhile (placed.offset + 1)).formed
  have styleEq : opened.active.getD [] = placed.style rules highlights := by
    rw [active]
    rfl
  by_cases whole : placed.IsWhole rules window
  · rw [if_pos ⟨whole.1, whole.2.2⟩, if_pos whole, stylesEq]
    refine ⟨?_, follows.later forth (pushParts_ranges _ _ _), ?_⟩
    · rw [pushParts_styles, dropWhile_dropWhile order]
    · have pushed := pushParts_shows formed (styled.dropWhile (placed.offset + 1)).sorted
        (fun style member => (Nat.le_succ _).trans (mem_dropWhile styled.sorted member)) plain shows
      rwa [← attributesBefore_add order, cellsFrom_passed _ _ le_rfl, cellsFrom_eq styled.sorted,
        styleEq] at pushed
  · have cut : ¬ (window.start ≤ placed.column ∧ placed.next rules ≤ window.stop) :=
      fun inside => whole ⟨inside.1, visible, inside.2⟩
    rw [if_neg cut, if_neg whole, stylesEq]
    have ranges := @passStyles_ranges opened (styles.dropWhile (·.1 < placed.offset + 1))
      (placed.offset + placed.grapheme.length)
    have left := @passStyles_styles opened (styles.dropWhile (·.1 < placed.offset + 1))
      (placed.offset + placed.grapheme.length)
    have passed := @passStyles_shows _ _ _ _ (placed.offset + placed.grapheme.length) formed shows
    have last : placed.offset + placed.grapheme.length = placed.last + 1 := by
      rw [Placed.last]
      omega
    rw [dropWhile_dropWhile order] at left
    rw [← attributesBefore_add order] at passed
    split
    · refine ⟨left, follows.later forth ⟨ranges.active, ranges.ranges, ranges.activeRanges⟩, ?_⟩
      have spaces : '\x1b' ∉ List.replicate (placed.shownColumns rules window) ' ' := fun member =>
        absurd (List.eq_of_mem_replicate member) (by decide)
      have written := passed.plain spaces
      have same := congrArg (Option.getD · []) ranges.active
      rw [List.map_replicate, same, styleEq] at written
      rw [← attributesBefore_eq styled.sorted, ← last]
      exact written
    · rename_i early
      have none : placed.shownColumns rules window = 0 := by
        rw [Placed.shownColumns]
        omega
      rw [none, List.replicate_zero, List.append_nil]
      exact ⟨left, follows.later forth ranges, passed⟩

/-! ## The window -/

def placedFrom : List (List Char) → Nat → Nat → List Placed
  | [], _, _ => []
  | grapheme :: rest, offset, column =>
      ⟨offset, column, grapheme⟩ ::
        placedFrom rest (offset + grapheme.length) (column + rules.width grapheme)

def TerminalLine.graphemes (line : TerminalLine) : List Placed :=
  placedFrom rules (rules.graphemes line.text) 0 0

/-- The cells of a line in a window. -/
def TerminalLine.cellsIn (line : TerminalLine) (highlights : Highlights) (window : Window)
    (shownAt : Placed → Nat) : List Cell :=
  (line.graphemes rules).flatMap (Placed.shown rules line.styles highlights window shownAt)

theorem column_le {graphemes : List (List Char)} {offset column : Nat}
    (member : placed ∈ placedFrom rules graphemes offset column) : column ≤ placed.column := by
  induction graphemes generalizing offset column with
  | nil => exact nomatch member
  | cons grapheme rest ih =>
      rcases List.mem_cons.mp member with rfl | later
      · exact le_rfl
      · exact (Nat.le_add_right _ _).trans (ih later)

theorem shown_behind (styles : List (Nat × List Char)) (highlights : Highlights)
    (shownAt : Placed → Nat) (behind : window.stop ≤ placed.column) :
    placed.shown rules styles highlights window shownAt = [] := by
  have notWhole : ¬ placed.IsWhole rules window := fun whole =>
    Nat.not_lt.mpr behind whole.2.1
  have none : placed.shownColumns rules window = 0 := by
    rw [Placed.shownColumns]
    omega
  rw [Placed.shown, if_neg notWhole, none, List.replicate_zero]

theorem clipFrom_reached (styled : Styled styles) {graphemes : List (List Char)}
    (plain : ∀ grapheme ∈ graphemes, '\x1b' ∉ grapheme)
    (some : ∀ grapheme ∈ graphemes, grapheme ≠ []) {offset column : Nat}
    (reached : Reached styles highlights offset column clip cells) :
    ∃ limit after, Reached styles highlights limit after
      (clipFrom rules ⟨highlights.overlay, highlights.activeOverlay⟩ window graphemes offset column
        clip)
      (cells ++ (placedFrom rules graphemes offset column).flatMap
        (Placed.shown rules styles highlights window Placed.last)) := by
  induction graphemes generalizing offset column clip cells with
  | nil =>
      rw [placedFrom, List.flatMap_nil, List.append_nil]
      exact ⟨offset, column, reached⟩
  | cons grapheme rest ih =>
      rw [clipFrom]
      by_cases behind : window.stop ≤ column
      · have nothing : (placedFrom rules (grapheme :: rest) offset column).flatMap
            (Placed.shown rules styles highlights window Placed.last) = [] := by
          rw [List.flatMap_eq_nil_iff]
          exact fun placed member => shown_behind rules _ _ _
            (behind.trans (column_le rules member))
        rw [if_pos behind, nothing, List.append_nil]
        exact ⟨offset, column, reached⟩
      · rw [if_neg behind, placedFrom, List.flatMap_cons, ← List.append_assoc]
        rw [List.forall_mem_cons] at plain some
        exact ih plain.2 some.2 (@clipGrapheme_reached _ _ _ _ _ window ⟨offset, column, grapheme⟩
          styled plain.1 some.1 (Nat.lt_of_not_le behind) reached)

theorem reached_start (styles : List (Nat × List Char)) (highlights : Highlights) :
    Reached styles highlights 0 0
      ⟨[], styles, OrderedMap.empty, none, highlights.ranges, highlights.activeRanges⟩ [] := by
  have none : attributesBefore styles 0 defaultAttributes = defaultAttributes := by
    cases styles with
    | nil => rfl
    | cons style rest => exact attributesBefore_beyond (Nat.zero_le _) _ _
  have all : ∀ ranges : List Range, ranges = rangesFrom ranges 0 := by
    intro ranges
    cases ranges <;> rfl
  refine ⟨?_, ⟨⟨0, Nat.zero_le _, all _⟩, ⟨0, Nat.zero_le _, all _⟩⟩, ?_⟩
  · cases styles <;> rfl
  · rw [none]
    exact ⟨represents_empty, isStyle_nil, draws_nil _⟩

theorem clipWithOverlays_shows {line : TerminalLine} (styled : Styled line.styles)
    (plain : '\x1b' ∉ line.text) (highlights : Highlights) (start width : Nat) :
    display (line.clipWithOverlays rules start width highlights.ranges highlights.overlay
      highlights.activeRanges highlights.activeOverlay) defaultAttributes =
      (line.cellsIn rules highlights ⟨start, start + width⟩ Placed.last, defaultAttributes) := by
  rw [TerminalLine.clipWithOverlays]
  by_cases empty : width = 0
  · have nothing : line.cellsIn rules highlights ⟨start, start + width⟩ Placed.last = [] := by
      rw [TerminalLine.cellsIn, List.flatMap_eq_nil_iff]
      intro placed _
      have notWhole : ¬ placed.IsWhole rules ⟨start, start + width⟩ := fun whole => by
        have early : start ≤ placed.column := whole.1
        have late : placed.column < start + width := whole.2.1
        omega
      have none : placed.shownColumns rules ⟨start, start + width⟩ = 0 := by
        rw [Placed.shownColumns]
        dsimp only
        omega
      rw [Placed.shown, if_neg notWhole, none, List.replicate_zero]
    rw [if_pos empty, nothing]
    rfl
  · rw [if_neg empty]
    have parts : ∀ grapheme ∈ rules.graphemes line.text, '\x1b' ∉ grapheme := by
      intro grapheme member inside
      refine plain ?_
      rw [← rules.flatten_graphemes line.text]
      exact List.mem_flatten.mpr ⟨grapheme, member, inside⟩
    obtain ⟨limit, after, reached⟩ : ∃ limit after, Reached line.styles highlights limit after
        (clipFrom rules ⟨highlights.overlay, highlights.activeOverlay⟩ ⟨start, start + width⟩
          (rules.graphemes line.text) 0 0
          ⟨[], line.styles, OrderedMap.empty, none, highlights.ranges, highlights.activeRanges⟩)
        ([] ++ line.cellsIn rules highlights ⟨start, start + width⟩ Placed.last) :=
      clipFrom_reached rules styled parts (rules.graphemes_ne_nil line.text)
        (reached_start line.styles highlights)
    have reset : IsSgr resetText := ⟨['0'], rfl, rfl⟩
    have written := (reached.shows.draws.append (draws_sgr reset _)).display
    rw [applySgr_reset, List.append_nil, List.nil_append] at written
    exact written

/-! ## The line that is read -/

theorem flatMap_eq_iff {Item Part : Type} {first second : Item → List Part} {items : List Item}
    (same : ∀ item ∈ items, (first item).length = (second item).length) :
    items.flatMap first = items.flatMap second ↔ ∀ item ∈ items, first item = second item := by
  induction items with
  | nil => exact ⟨fun _ => nofun, fun _ => rfl⟩
  | cons item rest ih =>
      rw [List.forall_mem_cons] at same ⊢
      rw [List.flatMap_cons, List.flatMap_cons, ← ih same.2]
      constructor
      · exact fun equal => List.append_inj equal same.1
      · exact fun equal => by rw [equal.1, equal.2]

theorem isSgr_of_stripSgr {text sequence remaining : List Char}
    (stripped : stripSgr text = some (sequence, remaining)) : IsSgr sequence := by
  unfold stripSgr at stripped
  split at stripped
  · rename_i rest
    split at stripped
    · obtain ⟨rfl, -⟩ := Prod.mk.inj (Option.some.inj stripped)
      exact ⟨_, rfl, List.all_takeWhile⟩
    · exact absurd stripped nofun
  · exact absurd stripped nofun

theorem isSgr_of_mem_pieces {text sequence : List Char}
    (member : .style sequence ∈ pieces text) : IsSgr sequence := by
  rw [pieces] at member
  generalize text.length = fuel at member
  induction fuel generalizing text with
  | zero =>
      cases text with
      | nil => simp [piecesFrom] at member
      | cons character rest => simp [piecesFrom] at member
  | succ fuel ih =>
      cases text with
      | nil => simp [piecesFrom] at member
      | cons character rest =>
          rw [piecesFrom] at member
          split at member
          · rename_i stripped
            rcases List.mem_cons.mp member with same | later
            · exact Piece.style.inj same ▸ isSgr_of_stripSgr stripped
            · exact ih later
          · rcases List.mem_cons.mp member with same | later
            · cases same
            · exact ih later

theorem escape_not_mem_hexDigits (number : Nat) : '\x1b' ∉ hexDigits number := by
  rw [hexDigits]
  induction number using Nat.strongRecOn with
  | ind number ih =>
      have other : ∀ digit < 16, '\x1b' ≠ Nat.digitChar digit := by decide
      rw [Nat.toDigits_eq_if (by decide)]
      split
      · rename_i small
        exact fun member => other number small (List.mem_singleton.mp member)
      · rename_i large
        rw [List.mem_append, List.mem_singleton, not_or]
        exact ⟨ih _ (Nat.div_lt_self (by omega) (by decide)), other _ (Nat.mod_lt _ (by decide))⟩

theorem escape_not_mem_escapedControl (character : Char) :
    '\x1b' ∉ escapedControl character := by
  have hex := escape_not_mem_hexDigits character.toNat
  rw [escapedControl, List.mem_append, List.mem_cons, List.mem_append, List.mem_singleton]
  rintro (start | same | inside | same)
  · exact absurd start (by decide)
  · exact absurd same (by decide)
  · exact hex inside
  · exact absurd same (by decide)

/-- What holds of a line while it is read. -/
structure ReadSoFar (reader : LineReader) : Prop where
  plain : '\x1b' ∉ reader.text
  styled : Styled reader.styles
  inside : ∀ style ∈ reader.styles, style.1 ≤ reader.text.length

theorem ReadSoFar.text {reader : LineReader} (soFar : ReadSoFar reader) {more : List Char}
    (plain : '\x1b' ∉ more) (column measured : Nat) :
    ReadSoFar ⟨reader.text ++ more, reader.styles, column, measured⟩ := by
  refine ⟨fun member => ?_, soFar.styled, fun style member => ?_⟩
  · rcases List.mem_append.mp member with before | behind
    · exact soFar.plain before
    · exact plain behind
  · dsimp only
    rw [List.length_append]
    exact (soFar.inside style member).trans (Nat.le_add_right _ _)

theorem readPiece_soFar {reader : LineReader} (soFar : ReadSoFar reader) {piece : Piece}
    (formed : ∀ sequence, piece = .style sequence → IsSgr sequence) :
    ReadSoFar (readPiece rules reader piece) := by
  cases piece with
  | style sequence =>
      refine ⟨soFar.plain, ⟨fun style member => ?_, ?_⟩, fun style member => ?_⟩
      · rcases List.mem_append.mp member with before | last
        · exact soFar.styled.formed style before
        · rw [List.mem_singleton.mp last]
          exact formed sequence rfl
      · refine List.pairwise_append.mpr ⟨soFar.styled.sorted, List.pairwise_singleton _ _, ?_⟩
        intro style member last same
        rw [List.mem_singleton.mp same]
        exact soFar.inside style member
      · rcases List.mem_append.mp member with before | last
        · exact soFar.inside style before
        · exact (congrArg Prod.fst (List.mem_singleton.mp last)).le
  | character character =>
      rw [readPiece]
      split
      · refine soFar.text (fun member => ?_) _ _
        exact absurd (List.eq_of_mem_replicate member) (by decide)
      · split
        · exact soFar.text (escape_not_mem_escapedControl character) _ _
        · rename_i shown
          refine soFar.text (fun member => ?_) _ _
          rw [← List.mem_singleton.mp member] at shown
          exact shown (by decide)

theorem new_soFar (ansi : List Char) :
    Styled (TerminalLine.new rules ansi).styles ∧ '\x1b' ∉ (TerminalLine.new rules ansi).text := by
  have each : ∀ piece ∈ pieces ansi, ∀ sequence, piece = .style sequence → IsSgr sequence :=
    fun piece member sequence same => isSgr_of_mem_pieces (same ▸ member)
  have soFar : ReadSoFar ((pieces ansi).foldl (readPiece rules) ⟨[], [], 0, 0⟩) := by
    have initial : ReadSoFar ⟨[], [], 0, 0⟩ := ⟨nofun, ⟨nofun, List.Pairwise.nil⟩, nofun⟩
    generalize pieces ansi = read at each
    generalize (⟨[], [], 0, 0⟩ : LineReader) = reader at initial
    induction read generalizing reader with
    | nil => exact initial
    | cons piece rest ih =>
        rw [List.forall_mem_cons] at each
        exact ih each.2 _ (readPiece_soFar rules initial each.1)
  exact ⟨soFar.styled, soFar.plain⟩

/-! ## The cells of the whole line -/

/-- The cells of a line that is not clipped. -/
def TerminalLine.allCells (line : TerminalLine) : List Cell :=
  line.text.zipIdx.map fun part => (part.1, attributesAt line.styles part.2)

theorem showPieces_append (attributes : Attributes) (front back : List Piece) :
    showPieces attributes (front ++ back) =
      ((showPieces attributes front).1 ++ (showPieces (showPieces attributes front).2 back).1,
        (showPieces (showPieces attributes front).2 back).2) := by
  induction front generalizing attributes with
  | nil => rfl
  | cons piece rest ih =>
      cases piece with
      | style sequence => exact ih _
      | character character =>
          rw [List.cons_append, showPieces, ih]
          rfl

theorem attributesAt_all {place : Nat} (inside : ∀ style ∈ styles, style.1 ≤ place) :
    attributesAt styles place = applyAll defaultAttributes (styles.map (·.2)) := by
  have all : styles.filter (·.1 ≤ place) = styles :=
    List.filter_eq_self.mpr fun style member => decide_eq_true (inside style member)
  rw [attributesAt, all]

theorem allCells_style {text : List Char} (sequence : List Char) :
    TerminalLine.allCells ⟨text, styles ++ [(text.length, sequence)]⟩ =
      TerminalLine.allCells ⟨text, styles⟩ := by
  refine List.map_congr_left fun part member => ?_
  have near : part.2 < text.length := List.snd_lt_of_mem_zipIdx member
  have beyond : [(text.length, sequence)].filter (·.1 ≤ part.2) = [] := by
    rw [List.filter_cons_of_neg (by simpa using near), List.filter_nil]
  rw [attributesAt, attributesAt, List.filter_append, beyond, List.append_nil]

/-- A reader stands for what the pieces in front of it show. -/
structure StandsFor (reader : LineReader) (shown : List Cell × Attributes) : Prop where
  inside : ∀ style ∈ reader.styles, style.1 ≤ reader.text.length
  cells : shown.1 = TerminalLine.allCells ⟨reader.text, reader.styles⟩
  attributes : shown.2 = applyAll defaultAttributes (reader.styles.map (·.2))

theorem readPiece_standsFor {reader : LineReader} {shown : List Cell × Attributes}
    (stands : StandsFor reader shown) {piece : Piece}
    (visible : ∀ character, piece = .character character → isControl character = false) :
    StandsFor (readPiece rules reader piece)
      (shown.1 ++ (showPieces shown.2 [piece]).1, (showPieces shown.2 [piece]).2) := by
  obtain ⟨inside, cellsEq, attributesEq⟩ := stands
  cases piece with
  | style sequence =>
      refine ⟨fun style member => ?_, ?_, ?_⟩
      · rcases List.mem_append.mp member with before | last
        · exact inside style before
        · exact (congrArg Prod.fst (List.mem_singleton.mp last)).le
      · exact (List.append_nil _).trans (cellsEq.trans (allCells_style sequence).symm)
      · rw [readPiece, List.map_append, applyAll, List.foldl_append]
        exact congrArg (applySgr · sequence) attributesEq
  | character character =>
      have noControl := visible character rfl
      have noTab : character ≠ '\t' := fun same => by
        rw [same] at noControl
        exact absurd noControl (by decide)
      have read : readPiece rules reader (.character character) =
          { reader with text := reader.text ++ [character] } := by
        rw [readPiece, if_neg noTab, if_neg (by rw [noControl]; exact Bool.false_ne_true)]
      rw [read]
      refine ⟨fun style member => ?_, ?_, attributesEq⟩
      · rw [List.length_append]
        exact (inside style member).trans (Nat.le_add_right _ _)
      · have last := attributesAt_all inside
        rw [cellsEq, attributesEq, TerminalLine.allCells, TerminalLine.allCells, List.zipIdx_append,
          List.map_append, Nat.zero_add, List.zipIdx_singleton, List.map_singleton, last]
        rfl

/-- Without other control characters the text itself is shown as the cells of the line. -/
theorem display_new (ansi : List Char)
    (inert : ∀ character, .character character ∈ pieces ansi → isControl character = false) :
    (display ansi defaultAttributes).1 = (TerminalLine.new rules ansi).allCells := by
  have stands : StandsFor ((pieces ansi).foldl (readPiece rules) ⟨[], [], 0, 0⟩)
      (display ansi defaultAttributes) := by
    rw [display]
    generalize pieces ansi = read at inert
    induction read using List.reverseRecOn with
    | nil =>
        refine ⟨fun style member => ?_, rfl, rfl⟩
        cases member
    | append_singleton front piece ih =>
        have before := ih fun character member => inert character (List.mem_append_left _ member)
        rw [List.foldl_concat, showPieces_append]
        exact readPiece_standsFor rules before fun character same =>
          inert character (List.mem_append_right _ (List.mem_singleton.mpr same.symm))
  exact stands.cells

/-- The cells of the line are those that its text shows, and a window shows them exactly if no
grapheme that its edges cut has a style inside it that makes another attribute of its spaces. -/
theorem clipWithOverlays_shows_window_iff (ansi : List Char) (highlights : Highlights)
    (start width : Nat) :
    ((∀ character, .character character ∈ pieces ansi → isControl character = false) →
      (display ansi defaultAttributes).1 = (TerminalLine.new rules ansi).allCells) ∧
    (display ((TerminalLine.new rules ansi).clipWithOverlays rules start width highlights.ranges
        highlights.overlay highlights.activeRanges highlights.activeOverlay) defaultAttributes =
      ((TerminalLine.new rules ansi).cellsIn rules highlights ⟨start, start + width⟩ Placed.first,
        defaultAttributes) ↔
    ∀ placed ∈ (TerminalLine.new rules ansi).graphemes rules,
      ¬ placed.IsWhole rules ⟨start, start + width⟩ →
      0 < placed.shownColumns rules ⟨start, start + width⟩ →
      overlaid (placed.style rules highlights)
          (attributesAt (TerminalLine.new rules ansi).styles placed.last) =
        overlaid (placed.style rules highlights)
          (attributesAt (TerminalLine.new rules ansi).styles placed.first)) := by
  refine ⟨display_new rules ansi, ?_⟩
  obtain ⟨styled, plain⟩ := new_soFar rules ansi
  generalize TerminalLine.new rules ansi = line at styled plain
  rw [clipWithOverlays_shows rules styled plain, Prod.mk.injEq, and_iff_left rfl,
    TerminalLine.cellsIn, TerminalLine.cellsIn, flatMap_eq_iff]
  · refine forall₂_congr fun placed _ => ?_
    rw [Placed.shown, Placed.shown]
    by_cases whole : placed.IsWhole rules ⟨start, start + width⟩
    · rw [if_pos whole, if_pos whole]
      exact iff_of_true rfl fun cut => absurd whole cut
    · rw [if_neg whole, if_neg whole, List.replicate_inj, and_iff_right rfl, Prod.mk.injEq,
        and_iff_right rfl, imp_iff_right whole, Nat.pos_iff_ne_zero, or_iff_not_imp_left]
  · intro placed _
    rw [Placed.shown, Placed.shown]
    split
    · rfl
    · rw [List.length_replicate, List.length_replicate]

/-- A combining accent has no columns, the wide character has two. -/
def accentRules : TextRules where
  graphemes := List.splitBy fun _ character => character = '\u0301'
  width text := (text.map fun character =>
    if character = '\u0301' then 0 else if character = '世' then 2 else 1).sum
  flatten_graphemes := List.flatten_splitBy _
  graphemes_ne_nil _ _ := List.ne_nil_of_mem_splitBy

def noHighlights : Highlights where
  ranges := []
  overlay := []
  activeRanges := []
  activeOverlay := []
  ordered := ⟨nofun, List.Pairwise.nil⟩
  activeOrdered := ⟨nofun, List.Pairwise.nil⟩
  formed := isStyle_nil
  activeFormed := isStyle_nil

theorem isStyle_single {style : List Char} (formed : IsSgr style) : IsStyle style :=
  ⟨[style], fun _ member => List.mem_singleton.mp member ▸ formed, (List.append_nil _).symm⟩

/-- The first column and the two columns behind the third one are reversed, the last of them is bold
in place of that. -/
def marked : Highlights where
  ranges := [⟨0, 1⟩, ⟨3, 5⟩]
  overlay := sgrText ['7']
  activeRanges := [⟨4, 5⟩]
  activeOverlay := sgrText ['1']
  ordered := ⟨by decide, by decide⟩
  activeOrdered := ⟨by decide, by decide⟩
  formed := isStyle_single ⟨['7'], rfl, rfl⟩
  activeFormed := isStyle_single ⟨['1'], rfl, rfl⟩

example :
    let line := TerminalLine.new accentRules ("a世\x1b[4mbcd".toList)
    (display (line.clipWithOverlays accentRules 2 3 marked.ranges marked.overlay
      marked.activeRanges marked.activeOverlay) defaultAttributes).1.map
        (fun cell => (cell.1, [1, 4, 7].map cell.2)) =
      (line.cellsIn accentRules marked ⟨2, 5⟩ Placed.first).map
        (fun cell => (cell.1, [1, 4, 7].map cell.2)) := by
  decide

/-- The half of a wide character that an edge leaves is struck out, as only its accent is. -/
theorem clip_strikes_cut_grapheme :
    let line := TerminalLine.new accentRules ("世\x1b[9m\u0301x".toList)
    display (line.clip accentRules 1 2) defaultAttributes ≠
      (line.cellsIn accentRules noHighlights ⟨1, 3⟩ Placed.first, defaultAttributes) := by
  intro line same
  have struck := congrArg (fun shown => shown.1.map fun cell => cell.2 9) same
  revert struck
  decide

end Kvist.Blad
