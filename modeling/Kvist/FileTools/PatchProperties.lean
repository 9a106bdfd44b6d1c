import Mathlib.Data.List.Forall2
import Kvist.FileTools.PatchText
import Kvist.Json.Bytes

/-!
# Properties of patches

A patch is applied exactly if its hunks are those of an edit script from the text. What comes out is
the text the script leads to, and the inverse patch leads back.
-/

set_option autoImplicit false

namespace Kvist.FileTools

open EditScript Radix Text
open Json (utf8Bytes utf8Bytes_append)

/-! ## Lines that are put out -/

namespace Patching

/-- What has been put out, line by line. -/
structure Standing (produced : List (List Char)) (patching : Patching) : Prop where
  lines : IsLines produced
  output : patching.output = produced.flatten
  outputLines : patching.outputLines = produced.length
  bounded : utf8Bytes patching.output ≤ maxFileBytes

def given (patching : Patching) (lines : List (List Char)) : Patching :=
  { patching with
    output := patching.output ++ lines.flatten
    outputLines := patching.outputLines + lines.length }

/-- These lines can be put out next. -/
structure Takes (produced : List (List Char)) (patching : Patching)
    (later : List (List Char)) : Prop where
  lines : IsLines (produced ++ later)
  fits : utf8Bytes (patching.output ++ later.flatten) ≤ maxFileBytes

theorem given_given (patching : Patching) (lines later : List (List Char)) :
    (patching.given lines).given later = patching.given (lines ++ later) := by
  simp only [given, List.flatten_append, List.append_assoc, List.length_append, Nat.add_assoc]

theorem given_nil (patching : Patching) : patching.given [] = patching := by
  simp only [given, List.flatten_nil, List.append_nil, List.length_nil, Nat.add_zero]

theorem takes_append_iff {produced : List (List Char)} {patching : Patching}
    {lines later : List (List Char)} :
    patching.Takes produced (lines ++ later) ↔
      patching.Takes produced lines ∧ (patching.given lines).Takes (produced ++ lines) later := by
  have same : (patching.given lines).output ++ later.flatten =
      patching.output ++ (lines ++ later).flatten := by
    rw [given, List.flatten_append, List.append_assoc]
  constructor
  · intro takes
    have whole : IsLines (produced ++ lines ++ later) := by
      rw [List.append_assoc]
      exact takes.lines
    have fits := takes.fits
    rw [← same, utf8Bytes_append] at fits
    refine ⟨⟨whole.left, Nat.le_trans (Nat.le_add_right _ _) fits⟩, ⟨whole, ?_⟩⟩
    rw [same]
    exact takes.fits
  · rintro ⟨_, takes⟩
    refine ⟨?_, same ▸ takes.fits⟩
    rw [← List.append_assoc]
    exact takes.lines

namespace Standing

variable {produced : List (List Char)} {patching : Patching}

theorem takes_nil (standing : patching.Standing produced) : patching.Takes produced [] where
  lines := (List.append_nil produced).symm ▸ standing.lines
  fits := by
    rw [List.flatten_nil, List.append_nil]
    exact standing.bounded

theorem given (standing : patching.Standing produced) {lines : List (List Char)}
    (takes : patching.Takes produced lines) :
    (patching.given lines).Standing (produced ++ lines) where
  lines := takes.lines
  output := by rw [Patching.given, standing.output, List.flatten_append]
  outputLines := by rw [Patching.given, standing.outputLines, List.length_append]
  bounded := takes.fits

theorem pushLine_iff (standing : patching.Standing produced) {line : List Char}
    (single : IsLines [line]) {result : Patching} :
    patching.pushLine line = .ok result ↔
      patching.Takes produced [line] ∧ result = patching.given [line] := by
  have ends : (patching.output.isEmpty || patching.output.getLast? == some '\n') = true ↔
      IsLines (produced ++ [line]) := by
    rw [standing.output, ← standing.lines.all_ended_iff,
      isLines_append_iff (List.cons_ne_nil line []), and_iff_left single]
  have given : patching.given [line] =
      { patching with
        output := patching.output ++ line, outputLines := patching.outputLines + 1 } := by
    rw [Patching.given, List.flatten_cons, List.flatten_nil, List.append_nil]
    rfl
  have bytes : utf8Bytes patching.output + utf8Bytes line =
      utf8Bytes (patching.output ++ [line].flatten) := by
    rw [List.flatten_cons, List.flatten_nil, List.append_nil, utf8Bytes_append]
  rw [Patching.pushLine, bind_ok_iff, given]
  constructor
  · rintro ⟨output, pushed, same⟩
    rw [push, bind_unit_ok_iff, ensure_ok_iff, ends, bind_unit_ok_iff, ensure_ok_iff,
      decide_eq_true_eq, bytes] at pushed
    obtain ⟨whole, fits, here⟩ := pushed
    cases here
    cases same
    exact ⟨⟨whole, fits⟩, rfl⟩
  · rintro ⟨takes, rfl⟩
    refine ⟨patching.output ++ line, ?_, rfl⟩
    rw [push, ends.mpr takes.lines, ensure_true, ok_bind, bytes, decide_eq_true takes.fits]
    rfl

theorem pushLines_iff (standing : patching.Standing produced) {lines : List (List Char)}
    (single : ∀ line ∈ lines, IsLines [line]) {result : Patching} :
    lines.foldlM Patching.pushLine patching = .ok result ↔
      patching.Takes produced lines ∧ result = patching.given lines := by
  induction lines generalizing produced patching with
  | nil =>
      rw [List.foldlM_nil, pure_eq_ok, Except.ok.injEq, and_iff_right standing.takes_nil,
        Patching.given_nil, eq_comm]
  | cons line lines ih =>
      obtain ⟨first, others⟩ := List.forall_mem_cons.mp single
      have whole : line :: lines = [line] ++ lines := rfl
      rw [List.foldlM_cons, bind_ok_iff, whole, Patching.takes_append_iff, ← Patching.given_given]
      constructor
      · rintro ⟨next, pushed, rest⟩
        obtain ⟨takes, rfl⟩ := (standing.pushLine_iff first).mp pushed
        obtain ⟨later, same⟩ := (ih (standing.given takes) others).mp rest
        exact ⟨⟨takes, later⟩, same⟩
      · rintro ⟨⟨takes, later⟩, same⟩
        exact ⟨_, (standing.pushLine_iff first).mpr ⟨takes, rfl⟩,
          (ih (standing.given takes) others).mpr ⟨later, same⟩⟩

end Standing

end Patching

/-! ## Items of a hunk -/

namespace Hunking

def advanced (hunking : Hunking) (items : List (Edit × List Char)) : Hunking where
  output := hunking.output ++ (after items).flatten
  sourceIndex := hunking.sourceIndex + (before items).length
  outputLines := hunking.outputLines + (after items).length
  changed := hunking.changed || items.any fun item => item.1 != .keep
  removed := hunking.removed + (before items).length
  added := hunking.added + (after items).length

theorem advanced_advanced (hunking : Hunking) (items others : List (Edit × List Char)) :
    (hunking.advanced items).advanced others = hunking.advanced (items ++ others) := by
  simp only [advanced, before_append, after_append, List.flatten_append, List.append_assoc,
    List.length_append, Nat.add_assoc, List.any_append, Bool.or_assoc]

theorem advanced_nil (hunking : Hunking) : hunking.advanced [] = hunking := by
  simp only [advanced, before, after, List.flatten_nil, List.append_nil, List.length_nil,
    Nat.add_zero, List.any_nil, Bool.or_false]

/-- The items agree with the text, with what has been put out and with the counts. -/
structure Applies (source : List (List Char)) (old new : Range) (produced : List (List Char))
    (hunking : Hunking) (items : List (Edit × List Char)) : Prop where
  stands : before items <+: source.drop hunking.sourceIndex
  takes : hunking.toPatching.Takes produced (after items)
  removed : hunking.removed + (before items).length ≤ old.count
  added : hunking.added + (after items).length ≤ new.count

variable {source : List (List Char)} {old new : Range} {produced : List (List Char)}
  {hunking : Hunking}

theorem consume_iff {item : Edit × List Char} {result : Hunking} :
    hunking.consume source (some (sign item.1)) item.2 = .ok result ↔
      before [item] <+: source.drop hunking.sourceIndex ∧
        result = { hunking with
          sourceIndex := hunking.sourceIndex + (before [item]).length
          removed := hunking.removed + (before [item]).length } := by
  obtain ⟨edit, line⟩ := item
  have found : (source[hunking.sourceIndex]? == some line) = true ↔
      [line] <+: source.drop hunking.sourceIndex := by
    rw [beq_iff_eq, ← List.head?_drop]
    constructor
    · intro head
      exact ⟨_, (List.eq_cons_of_mem_head? head).symm⟩
    · rintro ⟨rest, same⟩
      rw [← same]
      rfl
  cases edit with
  | keep =>
      simp only [consume, sign, true_or, if_true, before, List.length_singleton]
      rw [bind_unit_ok_iff, ensure_ok_iff, found, pure_eq_ok, Except.ok.injEq]
      exact and_congr_right fun _ => eq_comm
  | remove =>
      simp only [consume, sign, or_true, if_true, before, List.length_singleton]
      rw [bind_unit_ok_iff, ensure_ok_iff, found, pure_eq_ok, Except.ok.injEq]
      exact and_congr_right fun _ => eq_comm
  | add =>
      simp only [consume, sign, Option.some.injEq, Char.reduceEq, or_self, if_false, before,
        List.length_nil, Nat.add_zero, pure_eq_ok, Except.ok.injEq, List.nil_prefix, true_and]
      exact eq_comm

theorem produce_iff (standing : hunking.toPatching.Standing produced) {item : Edit × List Char}
    (single : IsLines [item.2]) {result : Hunking} :
    hunking.produce (some (sign item.1)) item.2 = .ok result ↔
      hunking.toPatching.Takes produced (after [item]) ∧
        result = { hunking with
          toPatching := hunking.toPatching.given (after [item])
          added := hunking.added + (after [item]).length } := by
  obtain ⟨edit, line⟩ := item
  have pushed : (hunking.toPatching.pushLine line >>= fun patching =>
        (pure { hunking with toPatching := patching, added := hunking.added + 1 } :
          Except Failure Hunking)) = .ok result ↔
      hunking.toPatching.Takes produced [line] ∧
        result = { hunking with
          toPatching := hunking.toPatching.given [line], added := hunking.added + 1 } := by
    rw [bind_ok_iff]
    constructor
    · rintro ⟨patching, pushed, same⟩
      obtain ⟨takes, rfl⟩ := (standing.pushLine_iff single).mp pushed
      cases same
      exact ⟨takes, rfl⟩
    · rintro ⟨takes, rfl⟩
      exact ⟨_, (standing.pushLine_iff single).mpr ⟨takes, rfl⟩, rfl⟩
  cases edit with
  | keep =>
      simp only [produce, sign, true_or, if_true]
      exact pushed
  | add =>
      simp only [produce, sign, or_true, if_true]
      exact pushed
  | remove =>
      simp only [produce, sign, Option.some.injEq, Char.reduceEq, or_self, if_false, after,
        Patching.given_nil, List.length_nil, Nat.add_zero, pure_eq_ok, Except.ok.injEq]
      rw [and_iff_right standing.takes_nil]
      exact eq_comm

theorem apply_iff (standing : hunking.toPatching.Standing produced) {item : Edit × List Char}
    (single : IsLines [item.2]) {result : Hunking} :
    hunking.apply source old new (some (sign item.1)) item.2 = .ok result ↔
      hunking.Applies source old new produced [item] ∧ result = hunking.advanced [item] := by
  have counts : ∀ next : Hunking,
      (!(decide (old.count < next.removed) || decide (new.count < next.added))) = true ↔
        next.removed ≤ old.count ∧ next.added ≤ new.count := by
    intro next
    rw [Bool.not_eq_true', Bool.or_eq_false_iff, decide_eq_false_iff_not, decide_eq_false_iff_not,
      Nat.not_lt, Nat.not_lt]
  have changed : (some (sign item.1) != some ' ') = [item].any fun item => item.1 != .keep := by
    obtain ⟨edit, line⟩ := item
    cases edit <;> rfl
  have there : ∀ index removed : Nat, ({ hunking with
      sourceIndex := index, removed := removed } : Hunking).toPatching.Standing produced :=
    fun _ _ => ⟨standing.lines, standing.output, standing.outputLines, standing.bounded⟩
  rw [Hunking.apply, bind_ok_iff]
  constructor
  · rintro ⟨consumed, read, written⟩
    obtain ⟨stands, rfl⟩ := consume_iff.mp read
    obtain ⟨given, write, checked⟩ := bind_ok_iff.mp written
    obtain ⟨takes, rfl⟩ := (produce_iff (there _ _) single).mp write
    rw [bind_unit_ok_iff, ensure_ok_iff, counts, changed] at checked
    obtain ⟨⟨removed, added⟩, same⟩ := checked
    cases same
    exact ⟨⟨stands, ⟨takes.lines, takes.fits⟩, removed, added⟩, rfl⟩
  · rintro ⟨applies, rfl⟩
    refine ⟨_, consume_iff.mpr ⟨applies.stands, rfl⟩, ?_⟩
    refine bind_ok_iff.mpr ⟨_, (produce_iff (there _ _) single).mpr
      ⟨⟨applies.takes.lines, applies.takes.fits⟩, rfl⟩, ?_⟩
    rw [bind_unit_ok_iff, ensure_ok_iff, counts, changed]
    exact ⟨⟨applies.removed, applies.added⟩, rfl⟩

theorem applies_cons_iff {item : Edit × List Char} {items : List (Edit × List Char)} :
    hunking.Applies source old new produced (item :: items) ↔
      hunking.Applies source old new produced [item] ∧
        (hunking.advanced [item]).Applies source old new (produced ++ after [item]) items := by
  have whole : item :: items = [item] ++ items := rfl
  have next : (hunking.advanced [item]).toPatching.output =
      (hunking.toPatching.given (after [item])).output := rfl
  constructor
  · intro applies
    have stands := applies.stands
    have takes := applies.takes
    have removed := applies.removed
    have added := applies.added
    rw [whole, before_append, prefix_append_iff, List.drop_drop] at stands
    rw [whole, after_append, Patching.takes_append_iff] at takes
    rw [whole, before_append, List.length_append] at removed
    rw [whole, after_append, List.length_append] at added
    refine ⟨⟨stands.1, takes.1, by omega, by omega⟩, stands.2, ⟨takes.2.lines, ?_⟩, ?_, ?_⟩
    · exact takes.2.fits
    · rw [advanced, Nat.add_assoc]
      exact removed
    · rw [advanced, Nat.add_assoc]
      exact added
  · rintro ⟨first, rest⟩
    refine ⟨?_, ?_, ?_, ?_⟩
    · rw [whole, before_append, prefix_append_iff, List.drop_drop]
      exact ⟨first.stands, rest.stands⟩
    · rw [whole, after_append, Patching.takes_append_iff]
      exact ⟨first.takes, rest.takes.lines, rest.takes.fits⟩
    · rw [whole, before_append, List.length_append, ← Nat.add_assoc]
      exact rest.removed
    · rw [whole, after_append, List.length_append, ← Nat.add_assoc]
      exact rest.added

theorem applyItems_iff (standing : hunking.toPatching.Standing produced)
    (removed : hunking.removed ≤ old.count) (added : hunking.added ≤ new.count)
    {items : List (Edit × List Char)} (single : ∀ item ∈ items, IsLines [item.2])
    {result : Hunking} :
    items.foldlM (fun hunking item =>
        hunking.apply source old new (some (sign item.1)) item.2) hunking = .ok result ↔
      hunking.Applies source old new produced items ∧ result = hunking.advanced items := by
  induction items generalizing produced hunking with
  | nil =>
      have applies : hunking.Applies source old new produced [] :=
        ⟨List.nil_prefix, standing.takes_nil, removed, added⟩
      rw [List.foldlM_nil, pure_eq_ok, Except.ok.injEq, and_iff_right applies, advanced_nil, eq_comm]
  | cons item items ih =>
      obtain ⟨first, others⟩ := List.forall_mem_cons.mp single
      have whole : item :: items = [item] ++ items := rfl
      rw [List.foldlM_cons, bind_ok_iff, applies_cons_iff, whole, ← advanced_advanced]
      have standingNext : ∀ applies : hunking.Applies source old new produced [item],
          (hunking.advanced [item]).toPatching.Standing (produced ++ after [item]) := by
        intro applies
        have given := standing.given applies.takes
        exact ⟨given.lines, given.output, given.outputLines, given.bounded⟩
      constructor
      · rintro ⟨next, applied, rest⟩
        obtain ⟨applies, rfl⟩ := (apply_iff standing first).mp applied
        obtain ⟨later, same⟩ :=
          (ih (standingNext applies) applies.removed applies.added others).mp rest
        exact ⟨⟨applies, later⟩, same⟩
      · rintro ⟨⟨applies, later⟩, same⟩
        exact ⟨_, (apply_iff standing first).mpr ⟨applies, rfl⟩,
          (ih (standingNext applies) applies.removed applies.added others).mpr ⟨later, same⟩⟩

end Hunking

/-! ## Hunks -/

/-- The range stands for `count` lines behind `index` lines. -/
structure Range.Names (range : Range) (index count : Nat) : Prop where
  counted : range.count = count
  starts : range.start = if count = 0 then index else index + 1

theorem Range.names_iff {range : Range} {index count : Nat} :
    range.Names index count ↔
      range.count = count ∧ range.index = index ∧ (range.start = 0 → range.count = 0) := by
  constructor
  · rintro ⟨same, start⟩
    refine ⟨same, ?_, ?_⟩
    · rw [Range.index, same]
      split
      · rename_i none
        rw [start, if_pos none]
      · rename_i some
        rw [start, if_neg some, Nat.add_sub_cancel]
    · intro zero
      rw [zero] at start
      split at start
      · rename_i none
        rw [same, none]
      · cases start
  · rintro ⟨same, position, nonzero⟩
    refine ⟨same, ?_⟩
    rw [Range.index, same] at position
    rw [same] at nonzero
    split at position
    · rename_i none
      rw [if_pos none, position]
    · rename_i some
      have positive : range.start ≠ 0 := fun zero => some (nonzero zero)
      rw [if_neg some, ← position]
      omega

/-- The patch has the ranges and the items of a hunk. -/
structure PatchHunk.Writes (written : PatchHunk) (hunk : Hunk (List Char)) : Prop where
  old : written.old.range.Names hunk.oldIndex (before hunk.items).length
  new : written.new.range.Names hunk.newIndex (after hunk.items).length
  items : written.items = hunk.items

def Patching.behind (patching : Patching) (kept : List (List Char))
    (items : List (Edit × List Char)) : Patching where
  output := patching.output ++ (kept ++ after items).flatten
  sourceIndex := patching.sourceIndex + (kept ++ before items).length
  outputLines := patching.outputLines + (kept ++ after items).length
  changed := patching.changed || items.any fun item => item.1 != .keep

/-- The hunk agrees with the text, with what has been put out and with its ranges. -/
structure Patching.Fits (source produced : List (List Char)) (patching : Patching)
    (hunk : PatchHunk) (kept : List (List Char)) : Prop where
  oldBounded : hunk.old.range.Bounded
  newBounded : hunk.new.range.Bounded
  oldIndex : hunk.old.range.index = patching.sourceIndex + kept.length
  newIndex : hunk.new.range.index = patching.outputLines + kept.length
  stands : kept ++ before hunk.items <+: source.drop patching.sourceIndex
  takes : patching.Takes produced (kept ++ after hunk.items)
  oldCount : hunk.old.range.count = (before hunk.items).length
  newCount : hunk.new.range.count = (after hunk.items).length

section Hunks

variable {source produced : List (List Char)} {patching : Patching}

theorem Patching.Fits.standing {hunk : PatchHunk} {kept : List (List Char)}
    (fits : patching.Fits source produced hunk kept) (standing : patching.Standing produced) :
    (patching.behind kept hunk.items).Standing (produced ++ (kept ++ after hunk.items)) :=
  have given := standing.given fits.takes
  ⟨given.lines, given.output, given.outputLines, given.bounded⟩

theorem advanced_behind (patching : Patching) (kept : List (List Char))
    (items : List (Edit × List Char)) :
    (Hunking.advanced { patching.given kept with
        sourceIndex := patching.sourceIndex + kept.length } items).toPatching =
      patching.behind kept items := by
  simp only [Hunking.advanced, Patching.behind, Patching.given, List.flatten_append,
    List.append_assoc, List.length_append, Nat.add_assoc]

/-- A hunk is applied exactly if it agrees. -/
theorem applyHunks_cons_iff (standing : patching.Standing produced) (sourceLines : IsLines source)
    (inside : patching.sourceIndex ≤ source.length) {hunk : PatchHunk} (formed : hunk.WellFormed)
    {rest : List (List Char)} (stops : Stops rest) {fuel : Nat} {result : Patching} :
    applyHunks source (fuel + 1) (hunk.lines ++ rest) patching = .ok result ↔
      ∃ kept, patching.Fits source produced hunk kept ∧
        applyHunks source fuel rest (patching.behind kept hunk.items) = .ok result := by
  have sourceSingle : ∀ {lines : List (List Char)}, lines <+: source.drop patching.sourceIndex →
      ∀ line ∈ lines, IsLines [line] := fun stands line member =>
    sourceLines.single (List.mem_of_mem_drop (stands.subset member))
  have placed : ∀ index : Nat,
      (!(decide (index < patching.sourceIndex) || decide (source.length < index))) = true ↔
        patching.sourceIndex ≤ index ∧ index ≤ source.length := by
    intro index
    rw [Bool.not_eq_true', Bool.or_eq_false_iff, decide_eq_false_iff_not, decide_eq_false_iff_not,
      Nat.not_lt, Nat.not_lt]
  have start : ∀ (kept : List (List Char)) (index : Nat),
      (patching.given kept).Standing (produced ++ kept) →
      Patching.Standing (produced ++ kept) { patching.given kept with sourceIndex := index } :=
    fun _ _ given => ⟨given.lines, given.output, given.outputLines, given.bounded⟩
  rw [PatchHunk.lines, List.cons_append, applyHunks]
  constructor
  · intro applied
    obtain ⟨⟨old, new⟩, headed, applied⟩ := bind_ok_iff.mp applied
    obtain ⟨⟨rfl, oldBounded⟩, ⟨rfl, newBounded⟩⟩ := formed.header_iff.mp headed
    rw [bind_unit_ok_iff, ensure_ok_iff, placed] at applied
    obtain ⟨⟨low, high⟩, applied⟩ := applied
    obtain ⟨between, pushed, applied⟩ := bind_ok_iff.mp applied
    have keptStands := List.take_prefix (hunk.old.range.index - patching.sourceIndex)
      (source.drop patching.sourceIndex)
    obtain ⟨takes, rfl⟩ := (standing.pushLines_iff (sourceSingle keptStands)).mp pushed
    have length : ((source.drop patching.sourceIndex).take
        (hunk.old.range.index - patching.sourceIndex)).length =
          hunk.old.range.index - patching.sourceIndex := by
      rw [List.length_take, List.length_drop]
      omega
    generalize (source.drop patching.sourceIndex).take
      (hunk.old.range.index - patching.sourceIndex) = kept at *
    rw [bind_unit_ok_iff, ensure_ok_iff, beq_iff_eq] at applied
    obtain ⟨newIndex, applied⟩ := applied
    rw [applyBody_items formed.items stops] at applied
    obtain ⟨⟨hunking, others⟩, body, applied⟩ := bind_ok_iff.mp applied
    obtain ⟨last, items, same⟩ := bind_ok_iff.mp body
    cases same
    obtain ⟨applies, rfl⟩ := (Hunking.applyItems_iff (start kept _ (standing.given takes))
      (Nat.zero_le _) (Nat.zero_le _) formed.items).mp items
    rw [bind_unit_ok_iff, ensure_ok_iff, Bool.and_eq_true, beq_iff_eq, beq_iff_eq] at applied
    obtain ⟨⟨removed, added⟩, applied⟩ := applied
    have oldIndex : hunk.old.range.index = patching.sourceIndex + kept.length := by omega
    rw [oldIndex, advanced_behind] at applied
    have stands := applies.stands
    rw [oldIndex, ← List.drop_drop] at stands
    have oldCount : 0 + (before hunk.items).length = hunk.old.range.count := removed
    have newCount : 0 + (after hunk.items).length = hunk.new.range.count := added
    refine ⟨kept, ⟨oldBounded, newBounded, oldIndex, newIndex, ?_, ?_, ?_, ?_⟩, applied⟩
    · exact prefix_append_iff.mpr ⟨keptStands, stands⟩
    · exact Patching.takes_append_iff.mpr ⟨takes, applies.takes.lines, applies.takes.fits⟩
    · omega
    · omega
  · rintro ⟨kept, fits, applied⟩
    obtain ⟨keptStands, stands⟩ := prefix_append_iff.mp fits.stands
    obtain ⟨takes, later⟩ := Patching.takes_append_iff.mp fits.takes
    have oldIndex := fits.oldIndex
    have short : kept.length ≤ source.length - patching.sourceIndex := by
      rw [← List.length_drop]
      exact keptStands.length_le
    have between : hunk.old.range.index - patching.sourceIndex = kept.length := by omega
    have taken : (source.drop patching.sourceIndex).take kept.length = kept :=
      (List.prefix_iff_eq_take.mp keptStands).symm
    have pushed := (standing.pushLines_iff (sourceSingle keptStands)).mpr ⟨takes, rfl⟩
    have newIndex : (hunk.new.range.index == (patching.given kept).outputLines) = true :=
      beq_iff_eq.mpr fits.newIndex
    rw [List.drop_drop, ← oldIndex] at stands
    have applies : Hunking.Applies source hunk.old.range hunk.new.range (produced ++ kept)
        { patching.given kept with sourceIndex := hunk.old.range.index } hunk.items :=
      ⟨stands, ⟨later.lines, later.fits⟩, by rw [fits.oldCount, Nat.zero_add],
        by rw [fits.newCount, Nat.zero_add]⟩
    have items := (Hunking.applyItems_iff (start kept _ (standing.given takes)) (Nat.zero_le _)
      (Nat.zero_le _) formed.items).mpr ⟨applies, rfl⟩
    have counts : ((Hunking.advanced { patching.given kept with
          sourceIndex := hunk.old.range.index } hunk.items).removed == hunk.old.range.count &&
        (Hunking.advanced { patching.given kept with
          sourceIndex := hunk.old.range.index } hunk.items).added == hunk.new.range.count) =
          true := by
      rw [Bool.and_eq_true, beq_iff_eq, beq_iff_eq, fits.oldCount, fits.newCount]
      exact ⟨Nat.zero_add _, Nat.zero_add _⟩
    rw [formed.header_iff.mpr ⟨⟨rfl, fits.oldBounded⟩, ⟨rfl, fits.newBounded⟩⟩, ok_bind]
    dsimp only
    rw [(placed _).mpr ⟨by omega, by omega⟩, ensure_true, ok_bind, between, taken, pushed, ok_bind,
      newIndex, ensure_true, ok_bind, applyBody_items formed.items stops, items, ok_bind, ok_bind]
    dsimp only
    rw [counts, ensure_true, ok_bind, oldIndex, advanced_behind]
    exact applied

theorem Patching.behind_sourceIndex (patching : Patching) (kept : List (List Char))
    (items : List (Edit × List Char)) : (patching.behind kept items).sourceIndex =
      patching.sourceIndex + kept.length + (before items).length := by
  rw [Nat.add_assoc, ← List.length_append]
  rfl

theorem Patching.behind_outputLines (patching : Patching) (kept : List (List Char))
    (items : List (Edit × List Char)) : (patching.behind kept items).outputLines =
      patching.outputLines + kept.length + (after items).length := by
  rw [Nat.add_assoc, ← List.length_append]
  rfl

theorem Patching.Fits.writes {hunk : PatchHunk} {kept : List (List Char)}
    (fits : patching.Fits source produced hunk kept) :
    hunk.Writes ⟨patching.sourceIndex + kept.length, patching.outputLines + kept.length,
      hunk.items⟩ where
  old := Range.names_iff.mpr ⟨fits.oldCount, fits.oldIndex, fits.oldBounded.nonzero⟩
  new := Range.names_iff.mpr ⟨fits.newCount, fits.newIndex, fits.newBounded.nonzero⟩
  items := rfl

theorem Patching.Fits.inside {hunk : PatchHunk} {kept : List (List Char)}
    (fits : patching.Fits source produced hunk kept)
    (inside : patching.sourceIndex ≤ source.length) :
    (patching.behind kept hunk.items).sourceIndex ≤ source.length := by
  have short := fits.stands.length_le
  rw [List.length_drop] at short
  rw [Patching.behind]
  dsimp only
  omega

/-- Apply the hunks and keep what stands behind them. -/
def applyAll (source : List (List Char)) (fuel : Nat) (lines : List (List Char))
    (patching : Patching) : Except Failure Patching := do
  let patching ← applyHunks source fuel lines patching
  (source.drop patching.sourceIndex).foldlM Patching.pushLine patching

theorem applyAll_sound (sourceLines : IsLines source) {hunks : List PatchHunk}
    (formed : ∀ hunk ∈ hunks, hunk.WellFormed) {fuel : Nat}
    (enough : (hunks.flatMap PatchHunk.lines).length ≤ fuel)
    (standing : patching.Standing produced) (inside : patching.sourceIndex ≤ source.length)
    {result : Patching}
    (applied : applyAll source fuel (hunks.flatMap PatchHunk.lines) patching = .ok result) :
    ∃ script new, List.Forall₂ PatchHunk.Writes hunks script ∧
      Script patching.sourceIndex patching.outputLines script
        (source.drop patching.sourceIndex) new ∧
      patching.Takes produced new ∧ result.output = patching.output ++ new.flatten := by
  induction hunks generalizing fuel produced patching with
  | nil =>
      have rest : (source.drop patching.sourceIndex).foldlM Patching.pushLine patching =
          .ok result := by
        cases fuel <;> exact applied
      have single : ∀ line ∈ source.drop patching.sourceIndex, IsLines [line] :=
        fun line member => sourceLines.single (List.mem_of_mem_drop member)
      obtain ⟨takes, rfl⟩ := (standing.pushLines_iff single).mp rest
      exact ⟨[], _, .nil, .rest _, takes, rfl⟩
  | cons hunk hunks ih =>
      obtain ⟨first, others⟩ := List.forall_mem_cons.mp formed
      rw [List.flatMap_cons] at enough applied
      rw [List.length_append, PatchHunk.lines, List.length_cons] at enough
      cases fuel with
      | zero => omega
      | succ fuel =>
          obtain ⟨next, applied, rest⟩ := bind_ok_iff.mp applied
          obtain ⟨kept, fits, applied⟩ := (applyHunks_cons_iff standing sourceLines inside first
            (stops_lines hunks)).mp applied
          obtain ⟨script, new, writes, later, takes, output⟩ := ih others (by omega)
            (fits.standing standing) (fits.inside inside) (bind_ok_iff.mpr ⟨next, applied, rest⟩)
          refine ⟨_ :: script, kept ++ after hunk.items ++ new, .cons fits.writes writes, ?_, ?_, ?_⟩
          · obtain ⟨behind, whole⟩ := fits.stands
            have left : source.drop (patching.behind kept hunk.items).sourceIndex = behind := by
              rw [Patching.behind, ← List.drop_drop, ← whole, List.drop_left]
            rw [left] at later
            rw [← whole]
            refine .hunk kept rfl rfl ?_
            rw [Patching.behind_sourceIndex, Patching.behind_outputLines] at later
            exact later
          · exact Patching.takes_append_iff.mpr ⟨fits.takes, takes.lines, takes.fits⟩
          · have whole : (kept ++ after hunk.items ++ new).flatten =
                (kept ++ after hunk.items).flatten ++ new.flatten := List.flatten_append
            rw [output, Patching.behind, whole, List.append_assoc]

theorem length_le_utf8Bytes {lines : List (List Char)} (whole : IsLines lines) :
    lines.length ≤ utf8Bytes lines.flatten := by
  have nonempty := whole.nonempty
  clear whole
  induction lines with
  | nil => exact Nat.zero_le _
  | cons line lines ih =>
      obtain ⟨first, others⟩ := List.forall_mem_cons.mp nonempty
      have later := ih others
      have positive : 0 < utf8Bytes line := by
        cases line with
        | nil => exact absurd rfl first
        | cons character line =>
            have whole : character :: line = [character] ++ line := rfl
            have here : utf8Bytes [character] = character.utf8Size := Nat.add_zero _
            have size := character.utf8Size_pos
            rw [whole, utf8Bytes_append, here]
            omega
      rw [List.flatten_cons, utf8Bytes_append, List.length_cons]
      omega

theorem Range.Names.bounded {range : Range} {index count : Nat} (names : range.Names index count)
    (small : index + count ≤ maxFileBytes) : range.Bounded where
  start := by
    rw [names.starts]
    split <;> omega
  count := by
    rw [names.counted]
    omega
  nonzero := (Range.names_iff.mp names).2.2

/-- An edit script is applied. -/
theorem applyAll_complete (sourceLines : IsLines source) (small : source.length ≤ maxFileBytes)
    {hunks : List PatchHunk} (formed : ∀ hunk ∈ hunks, hunk.WellFormed) {fuel : Nat}
    (enough : (hunks.flatMap PatchHunk.lines).length ≤ fuel)
    (standing : patching.Standing produced) (inside : patching.sourceIndex ≤ source.length)
    {script : List (Hunk (List Char))} (writes : List.Forall₂ PatchHunk.Writes hunks script)
    {new : List (List Char)}
    (leads : Script patching.sourceIndex patching.outputLines script
      (source.drop patching.sourceIndex) new)
    (takes : patching.Takes produced new) :
    ∃ result, applyAll source fuel (hunks.flatMap PatchHunk.lines) patching = .ok result ∧
      result.output = patching.output ++ new.flatten ∧
      result.changed = (patching.changed ||
        script.any fun hunk => hunk.items.any fun item => item.1 != .keep) := by
  induction writes generalizing fuel produced patching new with
  | nil =>
      generalize same : source.drop patching.sourceIndex = rest at leads
      cases leads with
      | rest =>
          have single : ∀ line ∈ source.drop patching.sourceIndex, IsLines [line] :=
            fun line member => sourceLines.single (List.mem_of_mem_drop member)
          have none : applyHunks source fuel [] patching = .ok patching := by
            cases fuel <;> rfl
          rw [same] at single
          refine ⟨patching.given new, ?_, rfl, (Bool.or_false _).symm⟩
          rw [applyAll, List.flatMap_nil, none, ok_bind, same]
          exact (standing.pushLines_iff single).mpr ⟨takes, rfl⟩
  | @cons hunk described hunks script write writes ih =>
      obtain ⟨first, others⟩ := List.forall_mem_cons.mp formed
      rw [List.flatMap_cons] at enough ⊢
      rw [List.length_append, PatchHunk.lines, List.length_cons] at enough
      generalize same : source.drop patching.sourceIndex = rest at leads
      cases leads with
      | @hunk _ _ kept _ _ old later oldAt newAt leads =>
          obtain ⟨oldCount, oldIndex, _⟩ := Range.names_iff.mp write.old
          obtain ⟨newCount, newIndex, _⟩ := Range.names_iff.mp write.new
          obtain ⟨takesHere, takesLater⟩ := Patching.takes_append_iff.mp takes
          have oldLength := congrArg List.length same
          have newLength := length_le_utf8Bytes takesHere.lines
          have fitsHere := takesHere.fits
          rw [standing.output, ← List.flatten_append] at fitsHere
          rw [List.length_drop, List.length_append, List.length_append] at oldLength
          rw [List.length_append, List.length_append, ← standing.outputLines] at newLength
          have fits : patching.Fits source produced hunk kept := by
            refine ⟨write.old.bounded (by omega), write.new.bounded (by omega), by omega, by omega,
              ?_, ?_, ?_, ?_⟩
            · rw [same, write.items]
              exact List.prefix_append _ _
            · rw [write.items]
              exact takesHere
            · rw [oldCount, write.items]
            · rw [newCount, write.items]
          have left : source.drop (patching.behind kept hunk.items).sourceIndex = old := by
            rw [Patching.behind_sourceIndex, Nat.add_assoc, ← List.length_append, ← List.drop_drop,
              same, write.items, List.drop_left]
          cases fuel with
          | zero => omega
          | succ fuel =>
              have shorter : (hunks.flatMap PatchHunk.lines).length ≤ fuel := by omega
              have leadsNext : Script (patching.behind kept hunk.items).sourceIndex
                  (patching.behind kept hunk.items).outputLines script
                  (source.drop (patching.behind kept hunk.items).sourceIndex) later := by
                rw [left, Patching.behind_sourceIndex, Patching.behind_outputLines, ← oldAt,
                  ← newAt, write.items]
                exact leads
              have takesNext : (patching.behind kept hunk.items).Takes
                  (produced ++ (kept ++ after hunk.items)) later := by
                rw [write.items]
                exact ⟨takesLater.lines, takesLater.fits⟩
              obtain ⟨result, applied, output, changed⟩ := ih others shorter
                (fits.standing standing) (fits.inside inside) leadsNext takesNext
              obtain ⟨next, hunksApplied, rest⟩ := bind_ok_iff.mp applied
              refine ⟨result, bind_ok_iff.mpr ⟨next, ?_, rest⟩, ?_, ?_⟩
              · exact (applyHunks_cons_iff standing sourceLines inside first
                  (stops_lines hunks)).mpr ⟨kept, fits, hunksApplied⟩
              · rw [output, Patching.behind, write.items, List.append_assoc, ← List.flatten_append]
              · rw [changed, Patching.behind, write.items, List.any_cons, Bool.or_assoc]

end Hunks

/-! ## Patches -/

/-- The hunks are those of an edit script from one text to the other. -/
def Lists (hunks : List PatchHunk) (original result : List Char) : Prop :=
  ∃ script, List.Forall₂ PatchHunk.Writes hunks script ∧
    Script 0 0 script (splitInclusive original) (splitInclusive result)

/-- Additions and removals are swapped, and the two ranges. -/
def PatchHunk.inverse (hunk : PatchHunk) : PatchHunk :=
  ⟨hunk.new, hunk.old, hunk.heading, EditScript.inverse hunk.items⟩

theorem PatchHunk.WellFormed.inverse {hunk : PatchHunk} (formed : hunk.WellFormed) :
    hunk.inverse.WellFormed where
  old := formed.new
  new := formed.old
  unbroken := formed.unbroken
  apart := formed.apart
  items := by
    intro item member
    obtain ⟨other, present, rfl⟩ := List.mem_map.mp member
    exact formed.items other present

theorem PatchHunk.Writes.inverse {written : PatchHunk} {hunk : Hunk (List Char)}
    (writes : written.Writes hunk) : written.inverse.Writes hunk.inverse where
  old := by
    rw [Hunk.inverse, before_inverse]
    exact writes.new
  new := by
    rw [Hunk.inverse, after_inverse]
    exact writes.old
  items := congrArg EditScript.inverse writes.items

theorem Lists.inverse {hunks : List PatchHunk} {original result : List Char}
    (lists : Lists hunks original result) :
    Lists (hunks.map PatchHunk.inverse) result original := by
  obtain ⟨script, writes, leads⟩ := lists
  refine ⟨script.map Hunk.inverse, ?_, leads.inverse⟩
  rw [List.forall₂_map_left_iff, List.forall₂_map_right_iff]
  exact writes.imp fun _ _ write => write.inverse

theorem apply_ok_iff {original patch result : List Char} :
    apply original patch = .ok result ↔
      (patch ≠ [] ∧ patch.getLast? = some '\n') ∧
        ∃ patching, applyAll (splitInclusive original) (splitInclusive patch).length
            (splitInclusive patch) {} = .ok patching ∧
          (patching.changed = true ∧ patching.output ≠ original) ∧ patching.output = result := by
  have ends : (!(patch.isEmpty || patch.getLast? != some '\n')) = true ↔
      patch ≠ [] ∧ patch.getLast? = some '\n' := by
    rw [Bool.not_eq_true', Bool.or_eq_false_iff, List.isEmpty_eq_false_iff, bne_eq_false_iff_eq]
  have differs : ∀ patching : Patching,
      (!(!patching.changed || patching.output == original)) = true ↔
        patching.changed = true ∧ patching.output ≠ original := by
    intro patching
    rw [Bool.not_eq_true', Bool.or_eq_false_iff, Bool.not_eq_false', beq_eq_false_iff_ne]
  rw [apply, bind_unit_ok_iff, ensure_ok_iff, ends]
  refine and_congr_right fun _ => ?_
  constructor
  · intro applied
    obtain ⟨next, hunks, applied⟩ := bind_ok_iff.mp applied
    obtain ⟨patching, rest, applied⟩ := bind_ok_iff.mp applied
    rw [bind_unit_ok_iff, ensure_ok_iff, differs] at applied
    obtain ⟨differs, same⟩ := applied
    cases same
    exact ⟨patching, bind_ok_iff.mpr ⟨next, hunks, rest⟩, differs, rfl⟩
  · rintro ⟨patching, applied, changed, rfl⟩
    obtain ⟨next, hunks, rest⟩ := bind_ok_iff.mp applied
    refine bind_ok_iff.mpr ⟨next, hunks, bind_ok_iff.mpr ⟨patching, rest, ?_⟩⟩
    rw [(differs patching).mpr changed]
    rfl

theorem standing_nil : Patching.Standing [] {} :=
  ⟨.nil, rfl, rfl, Nat.zero_le _⟩

theorem splitInclusive_patchText {hunks : List PatchHunk}
    (formed : ∀ hunk ∈ hunks, hunk.WellFormed) :
    splitInclusive (patchText hunks) = hunks.flatMap PatchHunk.lines := by
  refine (isLines_of_ended fun line member => ?_).splitInclusive_flatten
  obtain ⟨hunk, present, inside⟩ := List.mem_flatMap.mp member
  exact (formed hunk present).lines_ended line inside

theorem patchText_ends {hunks : List PatchHunk} (formed : ∀ hunk ∈ hunks, hunk.WellFormed)
    (nonempty : hunks ≠ []) : patchText hunks ≠ [] ∧ (patchText hunks).getLast? = some '\n' := by
  have whole := isLines_splitInclusive (patchText hunks)
  have ended : ∀ line ∈ splitInclusive (patchText hunks), Ended line := by
    intro line member
    rw [splitInclusive_patchText formed] at member
    obtain ⟨hunk, present, inside⟩ := List.mem_flatMap.mp member
    exact (formed hunk present).lines_ended line inside
  have notEmpty : patchText hunks ≠ [] := by
    intro empty
    have none := splitInclusive_patchText formed
    rw [empty] at none
    cases hunks with
    | nil => exact nonempty rfl
    | cons hunk hunks => cases none
  rw [whole.all_ended_iff, flatten_splitInclusive, List.isEmpty_eq_false_iff.mpr notEmpty,
    Bool.false_or, beq_iff_eq] at ended
  exact ⟨notEmpty, ended⟩

/-- A patch is applied exactly if it lists the hunks of an edit script that changes the text. -/
theorem apply_patchText_iff {original : List Char} (small : utf8Bytes original ≤ maxFileBytes)
    {hunks : List PatchHunk} (formed : ∀ hunk ∈ hunks, hunk.WellFormed) {result : List Char} :
    apply original (patchText hunks) = .ok result ↔
      Lists hunks original result ∧ original ≠ result ∧ utf8Bytes result ≤ maxFileBytes := by
  have sourceLines := isLines_splitInclusive original
  rw [apply_ok_iff, splitInclusive_patchText formed]
  constructor
  · rintro ⟨_, patching, applied, ⟨_, differs⟩, rfl⟩
    obtain ⟨script, new, writes, leads, takes, output⟩ :=
      applyAll_sound sourceLines formed (Nat.le_refl _) standing_nil (Nat.zero_le _) applied
    rw [List.nil_append] at output
    have lines : splitInclusive patching.output = new := by
      rw [output]
      exact takes.lines.splitInclusive_flatten
    refine ⟨⟨script, writes, ?_⟩, differs.symm, output ▸ takes.fits⟩
    rw [lines]
    exact leads
  · rintro ⟨⟨script, writes, leads⟩, differs, bounded⟩
    have small : (splitInclusive original).length ≤ maxFileBytes := by
      have length := length_le_utf8Bytes sourceLines
      rw [flatten_splitInclusive] at length
      exact Nat.le_trans length small
    have takes : Patching.Takes [] {} (splitInclusive result) :=
      ⟨isLines_splitInclusive result, by rwa [List.nil_append, flatten_splitInclusive]⟩
    obtain ⟨patching, applied, output, changed⟩ := applyAll_complete sourceLines small formed
      (Nat.le_refl _) standing_nil (Nat.zero_le _) writes leads takes
    rw [flatten_splitInclusive, List.nil_append] at output
    have linesDiffer : splitInclusive original ≠ splitInclusive result := by
      intro same
      rw [← flatten_splitInclusive original, same, flatten_splitInclusive] at differs
      exact differs rfl
    obtain ⟨hunk, member, item, inside, other⟩ := leads.changed linesDiffer
    have edited : patching.changed = true := by
      rw [changed, Bool.or_eq_true]
      exact .inr (List.any_eq_true.mpr
        ⟨hunk, member, List.any_eq_true.mpr ⟨item, inside, bne_iff_ne.mpr other⟩⟩)
    have nonempty : hunks ≠ [] := by
      rintro rfl
      cases writes
      cases member
    exact ⟨patchText_ends formed nonempty, patching, applied,
      ⟨edited, fun same => differs (same.symm.trans output)⟩, output⟩

theorem exists_patchText {original patch result : List Char}
    (applied : apply original patch = .ok result) :
    ∃ hunks : List PatchHunk, (∀ hunk ∈ hunks, hunk.WellFormed) ∧ patch = patchText hunks := by
  obtain ⟨⟨nonempty, ends⟩, patching, applied, _⟩ := apply_ok_iff.mp applied
  obtain ⟨next, applied, _⟩ := bind_ok_iff.mp applied
  have ended : ∀ line ∈ splitInclusive patch, Ended line := by
    rw [(isLines_splitInclusive patch).all_ended_iff, flatten_splitInclusive, ends, BEq.rfl,
      Bool.or_true]
  obtain ⟨hunks, formed, same⟩ := applyHunks_ok (Nat.le_refl _) ended applied
  refine ⟨hunks, formed, ?_⟩
  rw [patchText, ← same, flatten_splitInclusive]

/-- A patch leads exactly to what its script leads to, and swapped it leads back. Everything else
is refused. -/
theorem apply_exact {original : List Char} (small : utf8Bytes original ≤ maxFileBytes) :
    (∀ hunks : List PatchHunk, (∀ hunk ∈ hunks, hunk.WellFormed) → ∀ result,
      (apply original (patchText hunks) = .ok result ↔
        Lists hunks original result ∧ original ≠ result ∧ utf8Bytes result ≤ maxFileBytes) ∧
      (apply original (patchText hunks) = .ok result →
        apply result (patchText (hunks.map PatchHunk.inverse)) = .ok original)) ∧
    ∀ patch result, apply original patch = .ok result →
      ∃ hunks : List PatchHunk, (∀ hunk ∈ hunks, hunk.WellFormed) ∧ patch = patchText hunks := by
  refine ⟨fun hunks formed result => ⟨apply_patchText_iff small formed, fun applied => ?_⟩,
    fun _ _ => exists_patchText⟩
  obtain ⟨lists, differs, bounded⟩ := (apply_patchText_iff small formed).mp applied
  have inverseFormed : ∀ hunk ∈ hunks.map PatchHunk.inverse, hunk.WellFormed := by
    intro hunk member
    obtain ⟨other, present, rfl⟩ := List.mem_map.mp member
    exact (formed other present).inverse
  exact (apply_patchText_iff bounded inverseFormed).mpr ⟨lists.inverse, differs.symm, small⟩

/-- A line is taken out in front of a last line that has no line feed. -/
def removal : PatchHunk where
  old := ⟨['1'], some ['3']⟩
  new := ⟨['1'], some ['2']⟩
  heading := []
  items := [(.keep, ['a', '\n']), (.remove, ['b', '\n']), (.keep, ['c'])]

theorem removal_wellFormed : removal.WellFormed := by
  have one : IsNumber ['1'] := ⟨List.cons_ne_nil _ _, rfl⟩
  have counted (digit : Char) (number : IsNumber [digit]) :
      RangeText.WellFormed ⟨['1'], some [digit]⟩ :=
    ⟨one, fun digits member => by cases member; exact number⟩
  refine ⟨counted '3' ⟨List.cons_ne_nil _ _, rfl⟩, counted '2' ⟨List.cons_ne_nil _ _, rfl⟩,
    List.not_mem_nil, .inl rfl, ?_⟩
  have first : IsLines [['a'] ++ ['\n']] := .ended (by decide) .nil
  have second : IsLines [['b'] ++ ['\n']] := .ended (by decide) .nil
  have last : IsLines [['c']] := .last (List.cons_ne_nil _ _) (by decide)
  exact List.forall_mem_cons.mpr ⟨first, List.forall_mem_cons.mpr
    ⟨second, List.forall_mem_singleton.mpr last⟩⟩

theorem removal_lists : Lists [removal] "a\nb\nc".toList "a\nc".toList := by
  refine ⟨[⟨0, 0, removal.items⟩], .cons ⟨⟨rfl, rfl⟩, ⟨rfl, rfl⟩, rfl⟩ .nil, ?_⟩
  exact .hunk [] rfl rfl (.rest [])

theorem apply_exact_removal :
    apply "a\nb\nc".toList (patchText [removal]) = .ok "a\nc".toList ∧
      apply "a\nc".toList (patchText [removal.inverse]) = .ok "a\nb\nc".toList := by
  have small : utf8Bytes "a\nb\nc".toList ≤ maxFileBytes := by decide
  have formed : ∀ hunk ∈ [removal], hunk.WellFormed := List.forall_mem_singleton.mpr removal_wellFormed
  obtain ⟨leads, back⟩ := (apply_exact small).1 [removal] formed "a\nc".toList
  have applied := leads.mpr ⟨removal_lists, by decide, by decide⟩
  exact ⟨applied, back applied⟩

/-- A hunk of lines that are kept lists an edit script, but changes nothing. -/
theorem context_only_refused :
    (Lists [⟨⟨['1'], none⟩, ⟨['1'], none⟩, [], [(.keep, ['x', '\n'])]⟩] ['x', '\n'] ['x', '\n'] ∧
      PatchHunk.WellFormed ⟨⟨['1'], none⟩, ⟨['1'], none⟩, [], [(.keep, ['x', '\n'])]⟩) ∧
    apply ['x', '\n']
        (patchText [⟨⟨['1'], none⟩, ⟨['1'], none⟩, [], [(.keep, ['x', '\n'])]⟩]) =
      .error (failure "patch must change the file") := by
  have number : IsNumber ['1'] := ⟨List.cons_ne_nil _ _, rfl⟩
  have range : RangeText.WellFormed ⟨['1'], none⟩ := ⟨number, fun _ member => by cases member⟩
  have line : IsLines [['x'] ++ ['\n']] := .ended (by decide) .nil
  refine ⟨⟨⟨[⟨0, 0, [(.keep, ['x', '\n'])]⟩], ?_, ?_⟩, ?_⟩, rfl⟩
  · exact .cons ⟨⟨rfl, rfl⟩, ⟨rfl, rfl⟩, rfl⟩ .nil
  · exact .hunk [] rfl rfl (.rest [])
  · exact ⟨range, range, List.not_mem_nil, .inl rfl, List.forall_mem_singleton.mpr line⟩

end Kvist.FileTools
