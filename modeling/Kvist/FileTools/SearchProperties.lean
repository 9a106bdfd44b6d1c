import Mathlib.Data.List.Sort
import Kvist.FileTools.Search

/-!
# Which lines a search reports

Places at which the text is found can overlap, but the search goes on behind each of them. A line is
missed exactly if a place counted before overlaps the first one on it.
-/

set_option autoImplicit false

namespace Kvist.FileTools

open Occurrences
open Json (utf8 utf8Bytes)

/-! ## The line of an offset -/

def lineOf (text : List Char) (offset : Nat) : Nat := 1 + (text.take offset).count '\n'

def lastLineStart (text : List Char) : Nat :=
  text.length - (text.reverse.takeWhile (· != '\n')).length

def lineStartOf (text : List Char) (offset : Nat) : Nat := lastLineStart (text.take offset)

/-- What is to be reported of the line on which the text is found at an offset. -/
def matchAt (path text : List Char) (offset : Nat) : SearchMatch :=
  searchMatch path text (lineOf text offset) (lineStartOf text offset) offset

/-- The offsets at which the query stands and does not stand earlier on the same line. -/
def firstOnLines (query text : List Char) : List Nat :=
  (List.range text.length).filter fun offset =>
    occursAt query text offset &&
      (List.range offset).all fun before =>
        !(occursAt query text before && lineOf text before == lineOf text offset)

theorem lineOf_pos (text : List Char) (offset : Nat) : lineOf text offset ≠ 0 := by
  rw [lineOf]
  omega

theorem lineOf_mono {text : List Char} {before offset : Nat} (ordered : before ≤ offset) :
    lineOf text before ≤ lineOf text offset := by
  have part : (text.take before).Sublist (text.take offset) :=
    (List.take_prefix_take_left ordered).sublist
  exact Nat.add_le_add_left (part.count_le '\n') 1

theorem mem_firstOnLines {query text : List Char} {offset : Nat} :
    offset ∈ firstOnLines query text ↔ occursAt query text offset = true ∧
      ∀ before < offset, occursAt query text before = true →
        lineOf text before ≠ lineOf text offset := by
  have inside : occursAt query text offset = true → offset < text.length := by
    intro occurs
    rw [occursAt, Bool.and_eq_true, decide_eq_true_eq] at occurs
    exact occurs.1
  simp only [firstOnLines, List.mem_filter, List.mem_range, Bool.and_eq_true, List.all_eq_true,
    Bool.not_eq_true', Bool.and_eq_false_imp, beq_eq_false_iff_ne]
  constructor
  · exact fun first => first.2
  · exact fun first => ⟨inside first.1, first⟩

theorem exists_firstOnLines {query text : List Char} {offset : Nat}
    (occurs : occursAt query text offset = true) :
    ∃ first ∈ firstOnLines query text, first ≤ offset ∧ lineOf text first = lineOf text offset := by
  induction offset using Nat.strong_induction_on with
  | _ offset ih =>
    by_cases first : offset ∈ firstOnLines query text
    · exact ⟨offset, first, Nat.le_refl _, rfl⟩
    · rw [mem_firstOnLines] at first
      push Not at first
      obtain ⟨before, earlier, found, same⟩ := first occurs
      obtain ⟨first, member, low, line⟩ := ih before earlier found
      exact ⟨first, member, by omega, line.trans same⟩

/-! ## The cursor -/

private theorem findIdx?_newline (text : List Char) :
    text.findIdx? (· == '\n') =
      if (text.takeWhile (· != '\n')).length < text.length then
        some (text.takeWhile (· != '\n')).length
      else none := by
  induction text with
  | nil => rfl
  | cons character rest ih =>
      rw [List.findIdx?_cons, List.takeWhile_cons]
      by_cases newline : character = '\n'
      · rw [newline]
        simp
      · have same : (character == '\n') = false := beq_false_of_ne newline
        have other : (character != '\n') = true := by rw [bne, same, Bool.not_false]
        rw [same, other, if_neg Bool.false_ne_true, if_pos rfl, ih]
        simp only [List.length_cons, Nat.add_lt_add_iff_right]
        split <;> rfl

private theorem takeWhile_length_le {text : List Char} :
    (text.takeWhile (· != '\n')).length ≤ text.length :=
  (List.takeWhile_prefix _).length_le

theorem lastLineStart_append_some {front passed : List Char} {newline : Nat}
    (found : rfind '\n' passed = some newline) :
    lastLineStart (front ++ passed) = front.length + newline + 1 := by
  rw [rfind, findIdx?_newline, List.length_reverse] at found
  split at found
  · rename_i inside
    rw [Option.map_some, Option.some.injEq] at found
    rw [lastLineStart, List.reverse_append, List.length_append, ← found,
      List.takeWhile_append, List.length_reverse, if_neg (by omega)]
    omega
  · cases found

theorem lastLineStart_append_none {front passed : List Char}
    (found : rfind '\n' passed = none) : lastLineStart (front ++ passed) = lastLineStart front := by
  rw [rfind, findIdx?_newline, List.length_reverse] at found
  split at found
  · cases found
  · rename_i outside
    have all : (passed.reverse.takeWhile (· != '\n')).length ≤ passed.reverse.length :=
      takeWhile_length_le
    have whole : (passed.reverse.takeWhile (· != '\n')).length = passed.reverse.length := by
      rw [List.length_reverse] at all ⊢
      omega
    have bound : (front.reverse.takeWhile (· != '\n')).length ≤ front.reverse.length :=
      takeWhile_length_le
    rw [List.length_reverse] at bound
    rw [lastLineStart, lastLineStart, List.reverse_append, List.length_append,
      List.takeWhile_append, if_pos whole, List.length_append, List.length_reverse]
    omega

/-- The cursor knows the line of the offset at which it stands. -/
structure Cursor.Standing (text : List Char) (cursor : Cursor) : Prop where
  line : cursor.line = lineOf text cursor.previousOffset
  lineStart : cursor.lineStart = lineStartOf text cursor.previousOffset

theorem Cursor.Standing.advance {text : List Char} {cursor : Cursor} {offset : Nat}
    (standing : cursor.Standing text) (forward : cursor.previousOffset ≤ offset)
    (inside : offset ≤ text.length) : (cursor.advance text offset).Standing text := by
  have split : text.take offset =
      text.take cursor.previousOffset ++ (text.take offset).drop cursor.previousOffset := by
    have front : (text.take offset).take cursor.previousOffset = text.take cursor.previousOffset := by
      rw [List.take_take, Nat.min_eq_left forward]
    rw [← front, List.take_append_drop]
  have length : (text.take cursor.previousOffset).length = cursor.previousOffset :=
    List.length_take_of_le (by omega)
  constructor
  · show cursor.line + _ = lineOf text offset
    rw [standing.line, lineOf, lineOf, split, List.count_append, ← split, Nat.add_assoc]
  · have whole : lineStartOf text offset =
        lastLineStart (text.take cursor.previousOffset ++
          (text.take offset).drop cursor.previousOffset) := by
      rw [← split]
      rfl
    simp only [Cursor.advance]
    rw [whole]
    cases found : rfind '\n' ((text.take offset).drop cursor.previousOffset) with
    | none =>
        rw [lastLineStart_append_none found]
        exact standing.lineStart
    | some newline =>
        rw [lastLineStart_append_some found, length]

/-! ## What is reported -/

def firsts (line : Nat → Nat) : Nat → List Nat → List Nat
  | _, [] => []
  | last, offset :: rest =>
      if line offset = last then firsts line last rest
      else offset :: firsts line (line offset) rest

theorem mem_firsts_iff {line : Nat → Nat} {last offset : Nat} {offsets : List Nat}
    (sorted : offsets.Pairwise (· < ·))
    (mono : ∀ first ∈ offsets, ∀ second ∈ offsets, first ≤ second → line first ≤ line second)
    (above : ∀ offset ∈ offsets, last ≤ line offset) :
    offset ∈ firsts line last offsets ↔ offset ∈ offsets ∧ line offset ≠ last ∧
      ∀ before ∈ offsets, before < offset → line before ≠ line offset := by
  induction offsets generalizing last with
  | nil => simp [firsts]
  | cons head rest ih =>
      obtain ⟨apart, sorted⟩ := List.pairwise_cons.mp sorted
      have low : ∀ second ∈ rest, line head ≤ line second := fun second member =>
        mono head List.mem_cons_self second (List.mem_cons_of_mem _ member)
          (Nat.le_of_lt (apart second member))
      have restMono : ∀ first ∈ rest, ∀ second ∈ rest, first ≤ second →
          line first ≤ line second := fun first member second other =>
        mono first (List.mem_cons_of_mem _ member) second (List.mem_cons_of_mem _ other)
      rw [firsts]
      split
      · rename_i same
        rw [ih sorted restMono fun second member => same ▸ low second member, List.mem_cons]
        constructor
        · rintro ⟨member, other, first⟩
          refine ⟨.inr member, other, ?_⟩
          intro before inside earlier
          rcases List.mem_cons.mp inside with rfl | inside
          · rw [same]
            exact Ne.symm other
          · exact first before inside earlier
        · rintro ⟨member, other, first⟩
          rcases member with rfl | member
          · exact absurd same other
          · exact ⟨member, other, fun before inside => first before (List.mem_cons_of_mem _ inside)⟩
      · rename_i other
        rw [List.mem_cons, ih sorted restMono low, List.mem_cons]
        constructor
        · rintro (rfl | ⟨member, new, first⟩)
          · refine ⟨.inl rfl, other, ?_⟩
            intro before inside earlier
            rcases List.mem_cons.mp inside with rfl | inside
            · exact absurd earlier (Nat.lt_irrefl _)
            · exact absurd (apart before inside) (by omega)
          · have headAbove := above head List.mem_cons_self
            have behind := low offset member
            refine ⟨.inr member, by omega, ?_⟩
            intro before inside earlier
            rcases List.mem_cons.mp inside with rfl | inside
            · exact Ne.symm new
            · exact first before inside earlier
        · rintro ⟨rfl | member, new, first⟩
          · exact .inl rfl
          · exact .inr ⟨member,
              Ne.symm (first head List.mem_cons_self (apart offset member)),
              fun before inside => first before (List.mem_cons_of_mem _ inside)⟩

theorem firsts_sublist (line : Nat → Nat) (last : Nat) (offsets : List Nat) :
    (firsts line last offsets).Sublist offsets := by
  induction offsets generalizing last with
  | nil => exact List.Sublist.slnil
  | cons offset rest ih =>
      rw [firsts]
      split
      · exact (ih last).cons offset
      · exact (ih _).cons_cons offset

/-- Whether more can be reported. -/
def fitsEntries (found more : List SearchMatch) : Bool :=
  more.isEmpty || found.length + more.length ≤ maxEntries

theorem foldlM_searchStep {path text : List Char} {cursor : Cursor} {found : List SearchMatch}
    {offsets : List Nat} (standing : cursor.Standing text)
    (forward : ∀ offset ∈ offsets, cursor.previousOffset ≤ offset ∧ offset ≤ text.length)
    (sorted : offsets.Pairwise (· < ·)) :
    (offsets.foldlM (searchStep path text) (cursor, found)).map Prod.snd =
      let more := (firsts (lineOf text) cursor.lastResultLine offsets).map (matchAt path text)
      if fitsEntries found more then .ok (found ++ more)
      else .error (failure "search match count exceeds the result bound") := by
  induction offsets generalizing cursor found with
  | nil => simp [firsts, fitsEntries, Except.map]
  | cons offset rest ih =>
      obtain ⟨apart, sorted⟩ := List.pairwise_cons.mp sorted
      obtain ⟨low, high⟩ := forward offset List.mem_cons_self
      have standing := standing.advance low high
      have line : (cursor.advance text offset).line = lineOf text offset := standing.line
      have start : (cursor.advance text offset).lineStart = lineStartOf text offset :=
        standing.lineStart
      have next : ∀ second ∈ rest, offset ≤ second ∧ second ≤ text.length := fun second member =>
        ⟨Nat.le_of_lt (apart second member), (forward second (List.mem_cons_of_mem _ member)).2⟩
      rw [List.foldlM_cons, firsts, searchStep]
      dsimp only
      rw [line, start]
      by_cases same : lineOf text offset = cursor.lastResultLine
      · rw [if_pos (show lineOf text offset = (cursor.advance text offset).lastResultLine from same),
          if_pos same, ok_bind]
        exact ih standing next sorted
      · rw [if_neg (show lineOf text offset ≠ (cursor.advance text offset).lastResultLine from same),
          if_neg same]
        by_cases full : found.length < maxEntries
        · rw [decide_eq_true full, ensure_true, ok_bind, pure_eq_ok, ok_bind, List.map_cons]
          have there : Cursor.Standing text ⟨offset, lineOf text offset, lineStartOf text offset,
              lineOf text offset⟩ := ⟨rfl, rfl⟩
          have later := @ih _ (found ++ [matchAt path text offset]) there next sorted
          refine later.trans ?_
          have fits : fitsEntries (found ++ [matchAt path text offset])
                ((firsts (lineOf text) (lineOf text offset) rest).map (matchAt path text)) =
              fitsEntries found (matchAt path text offset ::
                (firsts (lineOf text) (lineOf text offset) rest).map (matchAt path text)) := by
            generalize (firsts (lineOf text) (lineOf text offset) rest).map _ = more
            rw [Bool.eq_iff_iff]
            cases more with
            | nil =>
                simp only [fitsEntries, List.isEmpty_nil, Bool.true_or, List.isEmpty_cons,
                  Bool.false_or, decide_eq_true_eq, true_iff, List.length_cons, List.length_nil]
                omega
            | cons first more =>
                simp only [fitsEntries, List.isEmpty_cons, Bool.false_or, decide_eq_true_eq,
                  List.length_append, List.length_cons, List.length_nil]
                omega
          dsimp only
          rw [fits, List.append_assoc, List.singleton_append]
        · rw [decide_eq_false full, ensure_false, error_bind, error_bind]
          have exceeds : fitsEntries found (matchAt path text offset ::
              (firsts (lineOf text) (lineOf text offset) rest).map (matchAt path text)) = false := by
            rw [fitsEntries, List.isEmpty_cons, Bool.false_or, decide_eq_false_iff_not,
              List.length_cons]
            omega
          rw [List.map_cons, exceeds]
          rfl

def reportedOffsets (query text : List Char) : List Nat :=
  firsts (lineOf text) 0 (matchIndices query text)

theorem matchIndices_lt {query text : List Char} {offset : Nat}
    (member : offset ∈ matchIndices query text) : offset < text.length := by
  have occurs := occursAt_of_mem member
  rw [occursAt, Bool.and_eq_true, decide_eq_true_eq] at occurs
  exact occurs.1

theorem searchText_eq {path text query : List Char} (nonempty : query ≠ [])
    (found : List SearchMatch) :
    searchText path text query found =
      let more := (reportedOffsets query text).map (matchAt path text)
      if fitsEntries found more then .ok (found ++ more)
      else .error (failure "search match count exceeds the result bound") := by
  have ran := @foldlM_searchStep path text {} found _ ⟨rfl, rfl⟩
    (fun offset member => ⟨Nat.zero_le offset, Nat.le_of_lt (matchIndices_lt member)⟩)
    (matchIndices_sorted nonempty text)
  refine Eq.trans ?_ ran
  rw [searchText]
  cases List.foldlM (searchStep path text) ({}, found) (matchIndices query text) with
  | error error => rfl
  | ok progress => rfl

theorem mem_reportedOffsets {query text : List Char} (nonempty : query ≠ []) {offset : Nat} :
    offset ∈ reportedOffsets query text ↔ offset ∈ matchIndices query text ∧
      ∀ before ∈ matchIndices query text, before < offset →
        lineOf text before ≠ lineOf text offset := by
  rw [reportedOffsets, mem_firsts_iff (matchIndices_sorted nonempty text)
    (fun _ _ _ _ ordered => lineOf_mono ordered) (fun _ _ => Nat.zero_le _)]
  exact and_congr_right fun _ => ⟨fun first => first.2, fun first => ⟨lineOf_pos text offset, first⟩⟩

/-- No first place on a line is overlapped by a place that is counted before. -/
def FirstsApart (query text : List Char) : Prop :=
  ∀ first ∈ firstOnLines query text, ∀ before ∈ matchIndices query text,
    before < first → before + query.length ≤ first

theorem firstsApart_iff {query text : List Char} :
    FirstsApart query text ↔
      ∀ first ∈ firstOnLines query text, first ∈ matchIndices query text := by
  constructor
  · intro apart first member
    rcases mem_matchIndices_or (mem_firstOnLines.mp member).1 with found | ⟨before, found, low, high⟩
    · exact found
    · exact absurd (apart first member before found low) (by omega)
  · intro counted first member before found earlier
    exact matchIndices_apart found (counted first member) earlier

theorem firstOnLines_sorted (query text : List Char) :
    (firstOnLines query text).Pairwise (· < ·) :=
  List.Pairwise.filter _ List.pairwise_lt_range

theorem reportedOffsets_eq_iff {query text : List Char} (nonempty : query ≠ []) :
    reportedOffsets query text = firstOnLines query text ↔ FirstsApart query text := by
  rw [firstsApart_iff]
  constructor
  · intro same first member
    rw [← same] at member
    exact ((mem_reportedOffsets nonempty).mp member).1
  · intro counted
    have sorted : (reportedOffsets query text).Pairwise (· < ·) :=
      (matchIndices_sorted nonempty text).sublist (firsts_sublist _ _ _)
    refine sorted.eq_of_mem_iff (firstOnLines_sorted query text) fun offset => ?_
    rw [mem_reportedOffsets nonempty]
    constructor
    · rintro ⟨member, first⟩
      obtain ⟨start, begins, low, line⟩ := exists_firstOnLines (occursAt_of_mem member)
      by_cases here : start = offset
      · exact here ▸ begins
      · exact absurd line (first start (counted start begins) (by omega))
    · intro begins
      have first := (mem_firstOnLines.mp begins).2
      exact ⟨counted offset begins, fun before member earlier =>
        first before earlier (occursAt_of_mem member)⟩

/-- Places on one line only, as those of a query without a line feed, leave the first one alone. -/
theorem firstsApart_of_single_line {query text : List Char} (single : '\n' ∉ query) :
    FirstsApart query text := by
  intro first member before found earlier
  by_contra near
  have occurs := occursAt_of_mem found
  rw [occursAt, Bool.and_eq_true, List.isPrefixOf_iff_prefix] at occurs
  obtain ⟨rest, stands⟩ := occurs.2
  have between : (text.take first).drop before = query.take (first - before) := by
    rw [List.drop_take, ← stands, List.take_append_of_le_length (by omega)]
  have split : text.take first = text.take before ++ (text.take first).drop before := by
    have front : (text.take first).take before = text.take before := by
      rw [List.take_take, Nat.min_eq_left (by omega)]
    rw [← front, List.take_append_drop]
  have none : ((text.take first).drop before).count '\n' = 0 := by
    rw [between, List.count_eq_zero]
    exact fun inside => single (List.mem_of_mem_take inside)
  refine (mem_firstOnLines.mp member).2 before earlier (occursAt_of_mem found) ?_
  rw [lineOf, lineOf, split, List.count_append, none]
  rfl

/-! ## A searched file -/

/-- A file that is read and is text, within the bounds. -/
structure Searched (file : OpenedFile) (relative : List Char) (arguments : SearchArgs)
    (state : WalkState) (text : List Char) : Prop where
  metadata : file.metadata = .ok { isFile := true, length := utf8Bytes text }
  contents : file.contents = .ok (utf8 text)
  fresh : ∃ fresh, file.fresh = .ok fresh ∧ fresh.length = utf8Bytes text
  wanted : ∀ pattern, arguments.filePattern = some pattern →
    Text.containsText pattern relative = true
  small : utf8Bytes text ≤ maxFileBytes
  scanned : utf8Bytes text ≤ maxScanBytes - state.scannedBytes
  noZero : '\x00' ∉ text

theorem searchFile_eq {file : OpenedFile} {path relative : List Char} {arguments : SearchArgs}
    {state : WalkState} {text : List Char} (found : List SearchMatch)
    (searched : Searched file relative arguments state text) :
    searchFile file path relative arguments state found =
      (searchText path text arguments.query found).map fun found =>
        ({ state with scannedBytes := state.scannedBytes + utf8Bytes text }, found) := by
  obtain ⟨fresh, asked, same⟩ := searched.fresh
  have pattern : (arguments.filePattern.any fun pattern => !Text.containsText pattern relative) =
      false := by
    cases given : arguments.filePattern with
    | none => rfl
    | some pattern => rw [Option.any_some, searched.wanted pattern given, Bool.not_true]
  have length : (utf8 text).length = utf8Bytes text := Json.length_utf8 text
  have whole : (utf8 text).take (maxFileBytes + 1) = utf8 text :=
    List.take_of_length_le (by rw [length]; exact Nat.le_succ_of_le searched.small)
  have scanned : scanBytes file (utf8Bytes text) = .ok (utf8 text) := by
    rw [scanBytes, searched.contents, asked]
    simp only [Except.mapError, ok_bind, whole, length, same, decide_eq_true searched.small,
      ensure_true, BEq.rfl, Bool.and_self, pure_eq_ok]
  have noZero : text.contains '\x00' = false := by
    rw [List.contains_eq_mem, decide_eq_false searched.noZero]
  rw [searchFile, searched.metadata]
  simp only [Except.mapError, ok_bind, ensure_true, pattern, Bool.false_eq_true, if_false,
    if_neg (Nat.not_lt.mpr searched.small), decide_eq_true searched.scanned, scanned, length,
    Utf8.fromUtf8_eq_some_iff.mpr rfl, noZero]
  cases searchText path text arguments.query found with
  | error error => rfl
  | ok found => rfl

theorem byteOffset_lt {text : List Char} {before offset : Nat} (earlier : before < offset)
    (inside : offset ≤ text.length) : byteOffset text before < byteOffset text offset := by
  have split : text.take offset = text.take before ++ (text.take offset).drop before := by
    have front : (text.take offset).take before = text.take before := by
      rw [List.take_take, Nat.min_eq_left (by omega)]
    rw [← front, List.take_append_drop]
  rw [byteOffset, byteOffset, split, Json.utf8Bytes_append]
  cases between : (text.take offset).drop before with
  | nil =>
      rw [List.drop_eq_nil_iff, List.length_take_of_le inside] at between
      omega
  | cons character rest =>
      have positive := character.utf8Size_pos
      rw [utf8Bytes]
      omega

theorem matchAt_injective {path text : List Char} {first second : Nat}
    (low : first < text.length) (high : second < text.length)
    (same : matchAt path text first = matchAt path text second) : first = second := by
  have bytes : byteOffset text first = byteOffset text second :=
    congrArg SearchMatch.matchByteOffset same
  rcases Nat.lt_trichotomy first second with earlier | equal | later
  · exact absurd bytes (Nat.ne_of_lt (byteOffset_lt earlier (Nat.le_of_lt high)))
  · exact equal
  · exact absurd bytes.symm (Nat.ne_of_lt (byteOffset_lt later (Nat.le_of_lt low)))

theorem firstOnLines_lt {query text : List Char} {offset : Nat}
    (first : offset ∈ firstOnLines query text) : offset < text.length :=
  List.mem_range.mp (List.mem_filter.mp first).1

theorem map_matchAt_inj {path text : List Char} {first second : List Nat}
    (low : ∀ offset ∈ first, offset < text.length) (high : ∀ offset ∈ second, offset < text.length)
    (same : first.map (matchAt path text) = second.map (matchAt path text)) : first = second := by
  induction first generalizing second with
  | nil => exact (List.map_eq_nil_iff.mp same.symm).symm
  | cons offset first ih =>
      cases second with
      | nil => cases same
      | cons other second =>
          rw [List.map_cons, List.map_cons, List.cons.injEq] at same
          rw [matchAt_injective (low offset List.mem_cons_self) (high other List.mem_cons_self)
            same.1, ih (fun offset member => low offset (List.mem_cons_of_mem _ member))
            (fun offset member => high offset (List.mem_cons_of_mem _ member)) same.2]

/-- Each line is reported once, with the first place on it, exactly if the first places are apart
from those counted before and the entries suffice. -/
theorem searchFile_complete_iff {file : OpenedFile} {path relative : List Char}
    {arguments : SearchArgs} {state : WalkState} {text : List Char} (found : List SearchMatch)
    (searched : Searched file relative arguments state text) (nonempty : arguments.query ≠ []) :
    searchFile file path relative arguments state found =
        .ok ({ state with scannedBytes := state.scannedBytes + utf8Bytes text },
          found ++ (firstOnLines arguments.query text).map (matchAt path text)) ↔
      FirstsApart arguments.query text ∧
        fitsEntries found ((firstOnLines arguments.query text).map (matchAt path text)) = true := by
  rw [searchFile_eq found searched, searchText_eq nonempty, ← reportedOffsets_eq_iff nonempty]
  dsimp only
  constructor
  · intro reported
    split at reported
    · rename_i fits
      simp only [Except.map, Except.ok.injEq, Prod.mk.injEq, true_and,
        List.append_cancel_left_eq] at reported
      have same := map_matchAt_inj
        (fun offset member => matchIndices_lt ((firsts_sublist _ _ _).subset member))
        (fun offset member => firstOnLines_lt member) reported
      exact ⟨same, same ▸ fits⟩
    · cases reported
  · rintro ⟨same, fits⟩
    rw [same, if_pos fits]
    rfl

theorem searchFile_complete_plain :
    searchFile ⟨.ok ⟨true, 6⟩, .ok [98, 10, 97, 98, 97, 98], .ok ⟨true, 6⟩⟩ ['/', 'f'] ['f']
        ⟨['b'], none⟩ {} [] =
      .ok ({ scannedBytes := 6 }, [⟨['/', 'f'], 1, 0, ['b'], false⟩,
        ⟨['/', 'f'], 2, 3, ['a', 'b', 'a', 'b'], false⟩]) :=
  (@searchFile_complete_iff _ _ _ _ _ ['b', '\n', 'a', 'b', 'a', 'b'] []
    ⟨rfl, rfl, ⟨_, rfl, rfl⟩, by decide, by decide, by decide, by decide⟩ (by decide)).mpr
    ⟨firstsApart_of_single_line (by decide), by decide⟩

/-- A place that the one before overlaps is passed over, and with it its line. -/
theorem overlapping_line_missed :
    searchFile ⟨.ok ⟨true, 5⟩, .ok [97, 10, 97, 10, 97], .ok ⟨true, 5⟩⟩ ['/', 'f'] ['f']
        ⟨['a', '\n', 'a'], none⟩ {} [] =
      .ok ({ scannedBytes := 5 }, [⟨['/', 'f'], 1, 0, ['a'], false⟩]) ∧
    occursAt ['a', '\n', 'a'] ['a', '\n', 'a', '\n', 'a'] 2 = true ∧
    lineOf ['a', '\n', 'a', '\n', 'a'] 2 = 2 := by
  decide

end Kvist.FileTools
