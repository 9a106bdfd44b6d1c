import Kvist.Blad.ClipProperties
import Kvist.Blad.Viewport

/-!
# What a painted terminal shows

The painter leaves a row as it is where it remembers the same text. A paint that fails is not
remembered, but it may have changed rows. After every paint that succeeds the terminal shows its
frame exactly if no row that was left as it is had been disturbed by such a write.
-/

set_option autoImplicit false

namespace Kvist.Blad

open Assignments Transitions

variable {rules : TextRules} {codes : TerminalCodes}

/-! ## What is written -/

theorem mem_changes_iff {painter : Painter} {size : Nat × Nat} {rows : List (List Char)}
    {index : Nat} {row : List Char} :
    (index, row) ∈ painter.changes size rows ↔ rows[index]? = some row ∧
      (painter.size ≠ some size ∨ painter.previous[index]? ≠ some row) := by
  rw [Painter.changes, List.mem_map]
  constructor
  · rintro ⟨⟨text, place⟩, member, same⟩
    obtain ⟨rfl, rfl⟩ := Prod.mk.inj same
    obtain ⟨present, changed⟩ := List.mem_filter.mp member
    exact ⟨List.mem_zipIdx_iff_getElem?.mp present, of_decide_eq_true changed⟩
  · rintro ⟨present, changed⟩
    refine ⟨(row, index), List.mem_filter.mpr ⟨?_, decide_eq_true changed⟩, rfl⟩
    exact List.mem_zipIdx_iff_getElem?.mpr present

/-- The places of the rows that are written. -/
theorem changes_ascending (painter : Painter) (size : Nat × Nat) (rows : List (List Char)) :
    (painter.changes size rows).Pairwise fun early late => early.1 < late.1 := by
  have places : rows.zipIdx.Pairwise fun early late => early.2 < late.2 := by
    have range : (rows.zipIdx.map Prod.snd).Pairwise (· < ·) := by
      rw [List.zipIdx_map_snd]
      exact List.pairwise_lt_range'
    exact List.pairwise_map.mp range
  rw [Painter.changes, List.pairwise_map]
  exact places.filter _

theorem reached_of_not_mem {changes : List (Nat × List Char)} {row : Nat}
    (absent : ∀ change ∈ changes, change.1 ≠ row) (count : Nat) :
    reached codes changes count row = none := by
  induction changes generalizing count with
  | nil => rfl
  | cons change rest ih =>
      rw [List.forall_mem_cons] at absent
      rw [reached]
      simp only [if_neg (Ne.symm absent.1), ih absent.2, ite_self]

/-- Bytes for all changes write each row as a whole. -/
theorem reached_all {changes : List (Nat × List Char)} {count : Nat}
    (ascending : changes.Pairwise fun early late => early.1 < late.1)
    (enough : (changes.flatMap (changeBytes codes)).length ≤ count) {change : Nat × List Char}
    (member : change ∈ changes) :
    reached codes changes count change.1 = some (some change.2) := by
  induction changes generalizing count with
  | nil => exact nomatch member
  | cons first rest ih =>
      obtain ⟨later, remaining⟩ := List.pairwise_cons.mp ascending
      rw [List.flatMap_cons, List.length_append] at enough
      have complete : (changeBytes codes first).length ≤ count :=
        (Nat.le_add_right _ _).trans enough
      rw [reached, if_pos complete]
      rcases List.mem_cons.mp member with rfl | behind
      · rw [if_pos rfl]
      · rw [if_neg (Nat.ne_of_gt (later change behind))]
        exact ih remaining (by omega) behind

/-! ## Paints -/

variable (rules codes) in
def Painter.succeeds (painter : Painter) (document : Document) (frame : Frame)
    (failure : Option Nat) : Bool :=
  failure.isNone || (paintOutput codes
    (painter.changes (frame.columns, frame.rows) (compose rules document frame))).isEmpty

def PaintedTerminal.Shows (terminal : PaintedTerminal) (rows : List (List Char)) : Prop :=
  ∀ index row, rows[index]? = some row → terminal.shown index = some row

def PaintedTerminal.Remembers (terminal : PaintedTerminal) : Prop :=
  ∀ index row, terminal.painter.previous[index]? = some row →
    (terminal.shown index = some row ↔ terminal.disturbed index = false)

theorem length_paintOutput (changes : List (Nat × List Char)) :
    (changes.flatMap (changeBytes codes)).length ≤
      (paintOutput codes changes).length - (Json.utf8 codes.beginUpdate).length := by
  rw [paintOutput]
  cases changes with
  | nil => exact Nat.zero_le _
  | cons change rest =>
      rw [List.isEmpty_cons, if_neg Bool.false_ne_true, List.length_append, List.length_append]
      omega

/-- A paint that succeeds writes all changes and remembers its rows. One that fails changes rows of
the terminal only. -/
theorem step_paint (terminal : PaintedTerminal) (document : Document) (frame : Frame)
    (failure : Option Nat) :
    ∃ count painter,
      let changes := terminal.painter.changes (frame.columns, frame.rows)
        (compose rules document frame)
      terminal.step rules codes (.paint document frame failure) = some ⟨painter,
        assign (reached codes changes count) terminal.shown,
        assign (fun row => (reached codes changes count row).map fun content =>
          content.isNone || content ≠ painter.previous[row]?) terminal.disturbed⟩ ∧
      if terminal.painter.succeeds rules codes document frame failure then
        painter = ⟨compose rules document frame, some (frame.columns, frame.rows)⟩ ∧
          (changes.flatMap (changeBytes codes)).length ≤ count
      else painter = terminal.painter := by
  refine ⟨_, _, rfl, ?_⟩
  rw [Painter.succeeds]
  cases failure with
  | none => exact ⟨rfl, length_paintOutput _⟩
  | some count =>
      cases nothing : (paintOutput codes (terminal.painter.changes (frame.columns, frame.rows)
          (compose rules document frame))).isEmpty with
      | true =>
          simp only [if_true, Option.isNone_some, Bool.or_true, true_and]
          exact length_paintOutput _
      | false =>
          simp only [Bool.false_eq_true, if_false, Option.isNone_some, Bool.or_false]

theorem step_remembers {terminal next : PaintedTerminal} {action : PaintAction}
    (remembers : terminal.Remembers) (stepped : terminal.step rules codes action = some next) :
    next.Remembers := by
  cases action with
  | invalidate =>
      obtain rfl := Option.some.inj stepped
      exact remembers
  | paint document frame failure =>
      obtain ⟨count, painter, result, outcome⟩ :=
        @step_paint rules codes terminal document frame failure
      rw [result] at stepped
      obtain rfl := Option.some.inj stepped
      intro index row present
      dsimp only [assign] at present ⊢
      cases touched : reached codes (terminal.painter.changes (frame.columns, frame.rows)
          (compose rules document frame)) count index with
      | some content =>
          rw [Option.map_some, Option.getD_some, Option.getD_some, present]
          cases content with
          | none => simp
          | some text => simp
      | none =>
          rw [Option.map_none, Option.getD_none, Option.getD_none]
          refine remembers index row ?_
          split at outcome
          · obtain ⟨rfl, enough⟩ := outcome
            by_contra forgotten
            have member : (index, row) ∈ terminal.painter.changes (frame.columns, frame.rows)
                (compose rules document frame) := mem_changes_iff.mpr ⟨present, .inr forgotten⟩
            have written := reached_all (changes_ascending _ _ _) enough member
            exact absurd (touched.symm.trans written) nofun
          · rwa [outcome] at present

/-! ## Runs -/

variable (rules codes)

/-- A paint that succeeds shows its frame. -/
def ShowsFrame (terminal : PaintedTerminal) : PaintAction → Prop
  | .invalidate => True
  | .paint document frame failure =>
      terminal.painter.succeeds rules codes document frame failure = true →
        ∀ next, terminal.step rules codes (.paint document frame failure) = some next →
          next.Shows (compose rules document frame)

/-- A paint that succeeds leaves no disturbed row as it is. -/
def LeavesUndisturbed (terminal : PaintedTerminal) : PaintAction → Prop
  | .invalidate => True
  | .paint document frame failure =>
      terminal.painter.succeeds rules codes document frame failure = true →
        terminal.painter.size = some (frame.columns, frame.rows) →
          ∀ index row, terminal.painter.previous[index]? = some row →
            (compose rules document frame)[index]? = some row → terminal.disturbed index = false

theorem leavesUndisturbed_iff_showsFrame {terminal : PaintedTerminal} (action : PaintAction)
    (remembers : terminal.Remembers) :
    LeavesUndisturbed rules codes terminal action ↔ ShowsFrame rules codes terminal action := by
  cases action with
  | invalidate => exact Iff.rfl
  | paint document frame failure =>
      refine imp_congr_right fun success => ?_
      obtain ⟨count, painter, result, outcome⟩ :=
        @step_paint rules codes terminal document frame failure
      rw [if_pos success] at outcome
      obtain ⟨-, enough⟩ := outcome
      rw [result]
      have changed := fun index row => @mem_changes_iff terminal.painter
        (frame.columns, frame.rows) (compose rules document frame) index row
      have ascending := changes_ascending terminal.painter (frame.columns, frame.rows)
        (compose rules document frame)
      generalize terminal.painter.changes (frame.columns, frame.rows)
        (compose rules document frame) = changes at enough changed ascending
      have left : ∀ index row, terminal.painter.size = some (frame.columns, frame.rows) →
          terminal.painter.previous[index]? = some row →
          (compose rules document frame)[index]? = some row →
          assign (reached codes changes count) terminal.shown index = terminal.shown index := by
        intro index row sameSize previous present
        have absent : ∀ change ∈ changes, change.1 ≠ index := by
          rintro ⟨place, text⟩ member rfl
          obtain ⟨composed, differs⟩ := (changed place text).mp member
          obtain rfl := Option.some.inj (composed.symm.trans present)
          exact differs.elim (fun other => other sameSize) fun other => other previous
        rw [assign, reached_of_not_mem absent]
        rfl
      constructor
      · intro undisturbed next stepped index row present
        obtain rfl := Option.some.inj stepped
        by_cases member : (index, row) ∈ changes
        · change assign (reached codes changes count) terminal.shown index = some row
          rw [assign, reached_all ascending enough member]
          rfl
        · rw [changed, not_and, not_or, not_not, not_not] at member
          obtain ⟨sameSize, previous⟩ := member present
          refine (left index row sameSize previous present).trans ?_
          exact (remembers index row previous).mpr
            (undisturbed sameSize index row previous present)
      · intro shows sameSize index row previous present
        refine (remembers index row previous).mp ?_
        rw [← left index row sameSize previous present]
        exact shows _ rfl index row present

/-- In every run the successful paints show their frames exactly if none of them leaves a row as it
is that a failed write has disturbed. Attributes that a torn write leaves on are not modelled. -/
theorem painted_run_iff (shown : Nat → Option (List Char)) (actions : List PaintAction) :
    Meets (PaintedTerminal.step rules codes) (ShowsFrame rules codes)
        (PaintedTerminal.initial shown) actions ↔
      Meets (PaintedTerminal.step rules codes) (LeavesUndisturbed rules codes)
        (PaintedTerminal.initial shown) actions := by
  have initial : (PaintedTerminal.initial shown).Remembers := fun _ _ present => nomatch present
  exact (meets_congr (fun terminal action next => step_remembers)
    (fun terminal action => leavesUndisturbed_iff_showsFrame rules codes action) actions
    initial).symm

/-- The texts that a terminal takes as a synchronized update and a change of the place. -/
def ansiCodes : TerminalCodes where
  beginUpdate := "\x1b[?2026h".toList
  endUpdate := "\x1b[?2026l".toList
  moveTo column row :=
    "\x1b[".toList ++ (toString (row + 1)).toList ++ ';' :: (toString (column + 1)).toList ++ ['H']

/-- A document without lines. -/
def emptyDocument : Document := ⟨[], 0, 0, [], [], []⟩

def headerFrame (header : List Char) : Frame := ⟨1, 1, 0, 0, header, [], [], []⟩

/-- A frame is painted, the next one fails when all its bytes are written, and the first one is
painted again: it writes nothing, and the header of the second one stays. -/
theorem painter_keeps_failed_frame :
    ¬ Meets (PaintedTerminal.step accentRules ansiCodes) (ShowsFrame accentRules ansiCodes)
      (PaintedTerminal.initial fun _ => none)
      [.paint emptyDocument (headerFrame ['a']) none,
        .paint emptyDocument (headerFrame ['b']) (some 1000),
        .paint emptyDocument (headerFrame ['a']) none] := by
  intro meets
  have shows := ((meets.2 _ rfl).2 _ rfl).1 (by decide) _ rfl 0
    ('a' :: (resetText ++ resetText)) (by decide)
  revert shows
  decide

end Kvist.Blad
