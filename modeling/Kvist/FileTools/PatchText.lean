import Kvist.EditScript
import Kvist.FileTools.Patch
import Kvist.TextLines

/-!
# Texts of a patch

A patch spells its hunks: a header with two ranges, and a line for each line that is kept, removed
or added. What is read as a header or as the lines of a hunk has been spelled so.
-/

set_option autoImplicit false

namespace Kvist.FileTools

open EditScript Radix Text

/-! ## Numbers and ranges -/

def IsNumber (digits : List Char) : Prop := digits ≠ [] ∧ digits.all isAsciiDigit = true

theorem IsNumber.absent {digits : List Char} (formed : IsNumber digits) {character : Char}
    (other : isAsciiDigit character = false) : character ∉ digits := by
  intro member
  rw [List.all_eq_true.mp formed.2 character member] at other
  cases other

theorem number_ok_iff {digits : List Char} (formed : IsNumber digits) {value : Nat} :
    number digits = .ok value ↔ (valueOf 10 digits).getD 0 = value ∧ value ≤ usizeMax := by
  have read := valueOf_digits (List.all_eq_true.mp formed.2)
  rw [number, List.isEmpty_eq_false_iff.mpr formed.1, formed.2, Bool.not_false, Bool.true_and,
    ensure_true, ok_bind, okOr_ok_iff,
    fromStrRadix_of_unsigned formed.1 (formed.absent rfl), read, Option.getD_some,
    Option.filter_eq_some_iff, Option.some.injEq, decide_eq_true_eq]

theorem isNumber_of_number {digits : List Char} {value : Nat}
    (read : number digits = .ok value) : IsNumber digits := by
  rw [number, bind_unit_ok_iff, ensure_ok_iff, Bool.and_eq_true, Bool.not_eq_true',
    List.isEmpty_eq_false_iff] at read
  exact read.1

/-- A range with its digits, and with or without a count. -/
structure RangeText where
  start : List Char
  count : Option (List Char)

namespace RangeText

def text (written : RangeText) : List Char :=
  written.start ++ written.count.elim [] fun digits => ',' :: digits

def range (written : RangeText) : Range :=
  ⟨(valueOf 10 written.start).getD 0, written.count.elim 1 fun digits => (valueOf 10 digits).getD 0⟩

structure WellFormed (written : RangeText) : Prop where
  start : IsNumber written.start
  count : ∀ digits ∈ written.count, IsNumber digits

/-- A character of no number stands in no range, except for the comma. -/
theorem WellFormed.absent {written : RangeText} (formed : written.WellFormed) {character : Char}
    (other : isAsciiDigit character = false) (noComma : character ≠ ',') :
    character ∉ written.text := by
  rw [text, List.mem_append, not_or]
  refine ⟨formed.start.absent other, ?_⟩
  cases count : written.count with
  | none => exact List.not_mem_nil
  | some digits =>
      rw [Option.elim_some, List.mem_cons, not_or]
      exact ⟨noComma, (formed.count digits count).absent other⟩

end RangeText

/-- What a range has to satisfy to be read. -/
structure Range.Bounded (range : Range) : Prop where
  start : range.start ≤ maxFileBytes
  count : range.count ≤ maxFileBytes
  nonzero : range.start = 0 → range.count = 0

theorem Range.bounded_iff (range : Range) :
    (!(decide (maxFileBytes < range.start) || decide (maxFileBytes < range.count) ||
      (range.start == 0 && range.count != 0))) = true ↔ range.Bounded := by
  rw [Bool.not_eq_true', Bool.or_eq_false_iff, Bool.or_eq_false_iff, decide_eq_false_iff_not,
    decide_eq_false_iff_not, Nat.not_lt, Nat.not_lt, Bool.and_eq_false_imp, beq_iff_eq,
    bne_eq_false_iff_eq]
  exact ⟨fun all => ⟨all.1.1, all.1.2, all.2⟩,
    fun bounded => ⟨⟨bounded.start, bounded.count⟩, bounded.nonzero⟩⟩

theorem RangeText.WellFormed.split {written : RangeText} (formed : written.WellFormed) :
    (splitOnce ',' written.text).getD (written.text, ['1']) =
      (written.start, written.count.getD ['1']) := by
  have noComma : ',' ∉ written.start := formed.start.absent rfl
  rw [RangeText.text]
  cases written.count with
  | none =>
      rw [Option.elim_none, List.append_nil, splitOnce_absent noComma]
      rfl
  | some digits =>
      rw [Option.elim_some, splitOnce_append noComma]
      rfl

theorem Range.parse_text {written : RangeText} (formed : written.WellFormed) (sign : Char)
    {range : Range} :
    Range.parse (sign :: written.text) sign = .ok range ↔
      range = written.range ∧ written.range.Bounded := by
  have signed : stripLeading [sign] (sign :: written.text) = some written.text :=
    stripLeading_append [sign] written.text
  have counted : IsNumber (written.count.getD ['1']) := by
    cases count : written.count with
    | none => exact ⟨List.cons_ne_nil _ _, rfl⟩
    | some digits => exact formed.count digits count
  have value : (valueOf 10 (written.count.getD ['1'])).getD 0 = written.range.count := by
    rw [RangeText.range]
    cases written.count with
    | none => rfl
    | some digits => rfl
  have small : maxFileBytes ≤ usizeMax := by decide
  rw [Range.parse, signed, okOr_some, ok_bind, formed.split]
  dsimp only
  constructor
  · intro read
    obtain ⟨start, first, read⟩ := bind_ok_iff.mp read
    obtain ⟨count, second, read⟩ := bind_ok_iff.mp read
    rw [number_ok_iff formed.start] at first
    rw [number_ok_iff counted, value] at second
    rw [bind_unit_ok_iff, ensure_ok_iff, Range.bounded_iff ⟨start, count⟩] at read
    have same : (⟨start, count⟩ : Range) = written.range := by
      rw [← first.1, ← second.1]
      rfl
    rw [pure_eq_ok, Except.ok.injEq, same] at read
    exact ⟨read.2.symm, read.1⟩
  · rintro ⟨rfl, bounded⟩
    have first : number written.start = .ok written.range.start :=
      (number_ok_iff formed.start).mpr ⟨rfl, Nat.le_trans bounded.start small⟩
    have second : number (written.count.getD ['1']) = .ok written.range.count :=
      (number_ok_iff counted).mpr ⟨value, Nat.le_trans bounded.count small⟩
    rw [first, ok_bind, second, ok_bind, (Range.bounded_iff _).mpr bounded]
    rfl

theorem Range.parse_ok {value : List Char} {sign : Char} {range : Range}
    (read : Range.parse value sign = .ok range) :
    ∃ written : RangeText, written.WellFormed ∧ value = sign :: written.text := by
  obtain ⟨rest, signed, read⟩ := bind_ok_iff.mp read
  rw [okOr_ok_iff, stripLeading_eq_some_iff] at signed
  cases parts : splitOnce ',' rest with
  | none =>
      rw [parts] at read
      obtain ⟨start, first, read⟩ := bind_ok_iff.mp read
      refine ⟨⟨rest, none⟩, ⟨isNumber_of_number first, fun _ member => ?_⟩, ?_⟩
      · cases member
      · rw [signed, RangeText.text, Option.elim_none, List.append_nil]
        rfl
  | some found =>
      obtain ⟨before, behind⟩ := found
      rw [parts] at read
      obtain ⟨start, first, read⟩ := bind_ok_iff.mp read
      obtain ⟨count, second, read⟩ := bind_ok_iff.mp read
      refine ⟨⟨before, some behind⟩, ⟨isNumber_of_number first, fun digits member => ?_⟩, ?_⟩
      · cases member
        exact isNumber_of_number second
      · rw [signed, splitOnce_eq_some parts]
        rfl

/-! ## Hunks -/

structure PatchHunk where
  old : RangeText
  new : RangeText
  heading : List Char
  items : List (Edit × List Char)

def sign : Edit → Char
  | .keep => ' '
  | .remove => '-'
  | .add => '+'

/-- A line without a line feed is written with one, and with a marker behind it. -/
def itemLines (item : Edit × List Char) : List (List Char) :=
  if item.2.getLast? = some '\n' then [sign item.1 :: item.2]
  else [sign item.1 :: (item.2 ++ ['\n']), noNewline]

def bodyLines (items : List (Edit × List Char)) : List (List Char) := items.flatMap itemLines

namespace PatchHunk

def ranges (hunk : PatchHunk) : List Char := '-' :: hunk.old.text ++ ' ' :: '+' :: hunk.new.text

def headerLine (hunk : PatchHunk) : List Char :=
  "@@ ".toList ++ (hunk.ranges ++ (" @@".toList ++ hunk.heading)) ++ ['\n']

def lines (hunk : PatchHunk) : List (List Char) := hunk.headerLine :: bodyLines hunk.items

structure WellFormed (hunk : PatchHunk) : Prop where
  old : hunk.old.WellFormed
  new : hunk.new.WellFormed
  unbroken : '\n' ∉ hunk.heading
  apart : hunk.heading = [] ∨ hunk.heading.head? = some ' '
  items : ∀ item ∈ hunk.items, IsLines [item.2]

end PatchHunk

def patchText (hunks : List PatchHunk) : List Char := (hunks.flatMap PatchHunk.lines).flatten

namespace PatchHunk.WellFormed

variable {hunk : PatchHunk}

theorem header_iff (formed : hunk.WellFormed) {old new : Range} :
    header hunk.headerLine = .ok (old, new) ↔
      (old = hunk.old.range ∧ hunk.old.range.Bounded) ∧
        (new = hunk.new.range ∧ hunk.new.range.Bounded) := by
  have noSign : '@' ∉ hunk.ranges := by
    simp only [ranges, List.mem_append, List.mem_cons, not_or]
    exact ⟨⟨by decide, formed.old.absent rfl (by decide)⟩, by decide, by decide,
      formed.new.absent rfl (by decide)⟩
  have noBlank : ' ' ∉ '-' :: hunk.old.text := by
    rw [List.mem_cons, not_or]
    exact ⟨by decide, formed.old.absent rfl (by decide)⟩
  have leading : stripLeading "@@ ".toList
      ("@@ ".toList ++ (hunk.ranges ++ (" @@".toList ++ hunk.heading))) =
        some (hunk.ranges ++ (" @@".toList ++ hunk.heading)) := stripLeading_append _ _
  have parts : splitOnceText " @@".toList (hunk.ranges ++ (" @@".toList ++ hunk.heading)) =
      some (hunk.ranges, hunk.heading) :=
    splitOnceText_append (by decide) noSign ['@'] hunk.heading
  have apart : (hunk.heading.isEmpty || hunk.heading.head? == some ' ') = true := by
    rw [Bool.or_eq_true, List.isEmpty_iff, beq_iff_eq]
    exact formed.apart
  have both : splitOnce ' ' hunk.ranges = some ('-' :: hunk.old.text, '+' :: hunk.new.text) :=
    splitOnce_append noBlank
  rw [header, headerLine, stripTrailing_append, okOr_some, ok_bind, leading, okOr_some, ok_bind,
    parts, okOr_some, ok_bind]
  dsimp only
  rw [apart, ensure_true, ok_bind, both, okOr_some, ok_bind, ← Range.parse_text formed.old '-',
    ← Range.parse_text formed.new '+', bind_ok_iff]
  constructor
  · rintro ⟨first, readOld, rest⟩
    obtain ⟨second, readNew, same⟩ := bind_ok_iff.mp rest
    rw [pure_eq_ok, Except.ok.injEq, Prod.mk.injEq] at same
    rw [same.1] at readOld
    rw [same.2] at readNew
    exact ⟨readOld, readNew⟩
  · rintro ⟨readOld, readNew⟩
    refine ⟨old, readOld, ?_⟩
    rw [readNew]
    rfl

end PatchHunk.WellFormed

theorem header_ok {line : List Char} {ranges : Range × Range} (ended : Ended line)
    (read : header line = .ok ranges) (items : List (Edit × List Char))
    (formed : ∀ item ∈ items, IsLines [item.2]) :
    ∃ hunk : PatchHunk, hunk.WellFormed ∧ hunk.headerLine = line ∧ hunk.items = items := by
  obtain ⟨inner, unbroken, rfl⟩ := ended
  rw [header, stripTrailing_append, okOr_some, ok_bind] at read
  obtain ⟨rest, leading, read⟩ := bind_ok_iff.mp read
  rw [okOr_ok_iff, stripLeading_eq_some_iff] at leading
  obtain ⟨⟨written, heading⟩, parts, read⟩ := bind_ok_iff.mp read
  rw [okOr_ok_iff] at parts
  have split := splitOnceText_eq_some parts
  rw [bind_unit_ok_iff, ensure_ok_iff, Bool.or_eq_true, List.isEmpty_iff, beq_iff_eq] at read
  obtain ⟨apart, read⟩ := read
  obtain ⟨⟨first, second⟩, both, read⟩ := bind_ok_iff.mp read
  rw [okOr_ok_iff] at both
  obtain ⟨old, readOld, read⟩ := bind_ok_iff.mp read
  obtain ⟨new, readNew, _⟩ := bind_ok_iff.mp read
  obtain ⟨oldText, oldFormed, rfl⟩ := Range.parse_ok readOld
  obtain ⟨newText, newFormed, rfl⟩ := Range.parse_ok readNew
  have noFeed : '\n' ∉ heading := by
    intro member
    refine unbroken ?_
    rw [leading, split]
    exact List.mem_append_right _ (List.mem_append_right _ (List.mem_append_right _ member))
  refine ⟨⟨oldText, newText, heading, items⟩, ⟨oldFormed, newFormed, noFeed, apart, formed⟩, ?_, rfl⟩
  rw [PatchHunk.headerLine, leading, split, splitOnce_eq_some both]
  rfl

/-! ## Lines of a hunk -/

theorem sign_plain (edit : Edit) :
    sign edit ≠ '@' ∧ sign edit ≠ '\\' ∧ sign edit ≠ '\n' := by
  cases edit <;> decide

theorem ended_cons {line : List Char} {character : Char} (other : character ≠ '\n')
    (ended : Ended line) : Ended (character :: line) := by
  obtain ⟨inner, unbroken, rfl⟩ := ended
  refine ⟨character :: inner, ?_, rfl⟩
  rw [List.mem_cons, not_or]
  exact ⟨other.symm, unbroken⟩

theorem ended_noNewline : Ended noNewline :=
  ⟨"\\ No newline at end of file".toList, by decide, rfl⟩

/-- A line of a text ends in its line feed, or has none. -/
theorem isLines_single {line : List Char} :
    IsLines [line] ↔ Ended line ∨ (line ≠ [] ∧ '\n' ∉ line) := by
  constructor
  · intro whole
    cases whole with
    | last nonempty unbroken => exact .inr ⟨nonempty, unbroken⟩
    | ended unbroken _ => exact .inl ⟨_, unbroken, rfl⟩
  · rintro (⟨inner, unbroken, rfl⟩ | ⟨nonempty, unbroken⟩)
    · exact .ended unbroken .nil
    · exact .last nonempty unbroken

theorem itemLines_ended (edit : Edit) {line : List Char} (ended : Ended line) :
    itemLines (edit, line) = [sign edit :: line] := by
  obtain ⟨inner, _, rfl⟩ := ended
  exact if_pos List.getLast?_concat

theorem itemLines_last (edit : Edit) {line : List Char} (unbroken : '\n' ∉ line) :
    itemLines (edit, line) = [sign edit :: (line ++ ['\n']), noNewline] :=
  if_neg fun last => unbroken (List.mem_of_getLast? last)

theorem bodyLines_ended {items : List (Edit × List Char)}
    (formed : ∀ item ∈ items, IsLines [item.2]) : ∀ line ∈ bodyLines items, Ended line := by
  intro line member
  obtain ⟨⟨edit, content⟩, present, here⟩ := List.mem_flatMap.mp member
  rcases isLines_single.mp (formed _ present) with ended | ⟨_, unbroken⟩
  · rw [itemLines_ended edit ended, List.mem_singleton] at here
    exact here ▸ ended_cons (sign_plain edit).2.2 ended
  · rw [itemLines_last edit unbroken, List.mem_cons, List.mem_singleton] at here
    rcases here with rfl | rfl
    · exact ended_cons (sign_plain edit).2.2 ⟨content, unbroken, rfl⟩
    · exact ended_noNewline

theorem PatchHunk.WellFormed.lines_ended {hunk : PatchHunk} (formed : hunk.WellFormed) :
    ∀ line ∈ hunk.lines, Ended line := by
  refine List.forall_mem_cons.mpr ⟨⟨_, ?_, rfl⟩, bodyLines_ended formed.items⟩
  simp only [ranges, List.mem_append, List.mem_cons, not_or]
  exact ⟨by decide, ⟨⟨by decide, formed.old.absent rfl (by decide)⟩, by decide, by decide,
    formed.new.absent rfl (by decide)⟩, by decide, formed.unbroken⟩

/-- What follows the lines of a hunk is a header. -/
def Stops (rest : List (List Char)) : Prop := ∀ line ∈ rest.head?, isHeader line = true

theorem isHeader_headerLine (hunk : PatchHunk) : isHeader hunk.headerLine = true :=
  List.isPrefixOf_iff_prefix.mpr ⟨_, (List.append_assoc _ _ _).symm⟩

theorem isHeader_sign (edit : Edit) (line : List Char) : isHeader (sign edit :: line) = false := by
  cases edit <;> rfl

theorem Stops.unmarked {rest : List (List Char)} (stops : Stops rest) :
    rest.head? ≠ some noNewline := by
  intro marker
  have header := stops _ marker
  exact absurd header (by decide)

theorem stops_lines (hunks : List PatchHunk) : Stops (hunks.flatMap PatchHunk.lines) := by
  cases hunks with
  | nil =>
      intro _ member
      cases member
  | cons hunk hunks =>
      intro line member
      cases member
      exact isHeader_headerLine hunk

theorem itemLines_unmarked (item : Edit × List Char) (rest : List (List Char)) :
    (itemLines item ++ rest).head? ≠ some noNewline := by
  have other : ∀ line : List Char, sign item.1 :: line ≠ noNewline := by
    intro line same
    exact (sign_plain item.1).2.1 (List.cons.inj same).1
  rw [itemLines]
  split
  · exact fun same => other _ (Option.some.inj same)
  · exact fun same => other _ (Option.some.inj same)

theorem bodyLines_unmarked (items : List (Edit × List Char)) {rest : List (List Char)}
    (unmarked : rest.head? ≠ some noNewline) :
    (bodyLines items ++ rest).head? ≠ some noNewline := by
  cases items with
  | nil => exact unmarked
  | cons item items =>
      rw [bodyLines, List.flatMap_cons, List.append_assoc]
      exact itemLines_unmarked item _

theorem contentOf_plain (edit : Edit) (line : List Char) {next : Option (List Char)}
    (unmarked : next ≠ some noNewline) : contentOf (sign edit :: line) next = .ok line := by
  rw [contentOf, if_neg unmarked]
  cases edit <;> rfl

theorem contentOf_marked (edit : Edit) {line : List Char} (nonempty : line ≠ []) :
    contentOf (sign edit :: (line ++ ['\n'])) (some noNewline) = .ok line := by
  have signed : ((sign edit :: (line ++ ['\n'])).head? == some ' ' ||
      (sign edit :: (line ++ ['\n'])).head? == some '-' ||
      (sign edit :: (line ++ ['\n'])).head? == some '+') = true := by
    cases edit <;> rfl
  rw [contentOf, if_pos rfl, signed, ensure_true, ok_bind, List.drop_succ_cons, List.drop_zero,
    stripTrailing_append, okOr_some, ok_bind, List.isEmpty_eq_false_iff.mpr nonempty]
  rfl

theorem contentOf_ok {line content : List Char} {next : Option (List Char)} (ended : Ended line)
    (read : contentOf line next = .ok content) :
    ∃ edit, IsLines [content] ∧ line.head? = some (sign edit) ∧
      ((next ≠ some noNewline ∧ itemLines (edit, content) = [line]) ∨
        (next = some noNewline ∧ itemLines (edit, content) = [line, noNewline])) := by
  rw [contentOf, bind_unit_ok_iff, ensure_ok_iff] at read
  obtain ⟨signed, read⟩ := read
  have found : ∃ edit, line.head? = some (sign edit) := by
    rw [Bool.or_eq_true, Bool.or_eq_true, beq_iff_eq, beq_iff_eq, beq_iff_eq] at signed
    rcases signed with (keep | remove) | add
    · exact ⟨.keep, keep⟩
    · exact ⟨.remove, remove⟩
    · exact ⟨.add, add⟩
  obtain ⟨edit, head⟩ := found
  obtain ⟨inner, unbroken, rfl⟩ := ended
  cases inner with
  | nil => exact absurd (Option.some.inj head).symm (sign_plain edit).2.2
  | cons character inner =>
      rw [List.cons_append, List.head?_cons, Option.some.injEq] at head
      rw [List.mem_cons, not_or] at unbroken
      rw [List.cons_append, List.drop_succ_cons, List.drop_zero] at read
      refine ⟨edit, ?_⟩
      rw [List.cons_append, List.head?_cons, head]
      split at read
      · rename_i marker
        rw [stripTrailing_append, okOr_some, ok_bind, bind_unit_ok_iff, ensure_ok_iff,
          Bool.not_eq_true', List.isEmpty_eq_false_iff] at read
        obtain ⟨nonempty, same⟩ := read
        cases same
        exact ⟨.last nonempty unbroken.2, rfl, .inr ⟨marker, itemLines_last edit unbroken.2⟩⟩
      · rename_i unmarked
        cases read
        have ended : Ended (inner ++ ['\n']) := ⟨inner, unbroken.2, rfl⟩
        exact ⟨isLines_single.mpr (.inl ended), rfl, .inl ⟨unmarked, itemLines_ended edit ended⟩⟩

/-! ## Reading the lines of a hunk -/

section Body

variable {source : List (List Char)} {old new : Range}

theorem applyBody_line {line : List Char} {rest : List (List Char)} {hunking : Hunking}
    (body : isHeader line = false) (unmarked : rest.head? ≠ some noNewline) :
    applyBody source old new (line :: rest) hunking =
      contentOf line rest.head? >>= fun content =>
        hunking.apply source old new line.head? content >>= fun hunking =>
          applyBody source old new rest hunking := by
  rw [applyBody, body, if_neg Bool.false_ne_true]
  cases rest with
  | nil => rfl
  | cons second rest =>
      have other : second ≠ noNewline := fun same => unmarked (congrArg some same)
      simp only [if_neg other]

theorem applyBody_marked {line : List Char} {rest : List (List Char)} {hunking : Hunking}
    (body : isHeader line = false) :
    applyBody source old new (line :: noNewline :: rest) hunking =
      contentOf line (some noNewline) >>= fun content =>
        hunking.apply source old new line.head? content >>= fun hunking =>
          applyBody source old new rest hunking := by
  rw [applyBody, body, if_neg Bool.false_ne_true]
  simp only [if_true, List.head?_cons]

theorem applyBody_item {item : Edit × List Char} (formed : IsLines [item.2])
    {rest : List (List Char)} (unmarked : rest.head? ≠ some noNewline) (hunking : Hunking) :
    applyBody source old new (itemLines item ++ rest) hunking =
      hunking.apply source old new (some (sign item.1)) item.2 >>= applyBody source old new rest := by
  obtain ⟨edit, line⟩ := item
  rcases isLines_single.mp formed with ended | ⟨nonempty, unbroken⟩
  · rw [itemLines_ended edit ended, List.singleton_append,
      applyBody_line (isHeader_sign edit line) unmarked, contentOf_plain edit line unmarked]
    rfl
  · rw [itemLines_last edit unbroken, List.cons_append, List.cons_append, List.nil_append,
      applyBody_marked (isHeader_sign edit _), contentOf_marked edit nonempty]
    rfl

theorem applyBody_stops {rest : List (List Char)} (stops : Stops rest) (hunking : Hunking) :
    applyBody source old new rest hunking = .ok (hunking, rest) := by
  cases rest with
  | nil => rfl
  | cons line rest => rw [applyBody, stops line rfl, if_pos rfl]

theorem applyBody_items {items : List (Edit × List Char)}
    (formed : ∀ item ∈ items, IsLines [item.2]) {rest : List (List Char)} (stops : Stops rest)
    (hunking : Hunking) :
    applyBody source old new (bodyLines items ++ rest) hunking =
      items.foldlM (fun hunking item =>
        hunking.apply source old new (some (sign item.1)) item.2) hunking >>= fun hunking =>
          .ok (hunking, rest) := by
  induction items generalizing hunking with
  | nil => exact applyBody_stops stops hunking
  | cons item items ih =>
      obtain ⟨first, others⟩ := List.forall_mem_cons.mp formed
      have whole : bodyLines (item :: items) ++ rest = itemLines item ++ (bodyLines items ++ rest) := by
        rw [bodyLines, List.flatMap_cons, List.append_assoc]
        rfl
      rw [whole, applyBody_item first (bodyLines_unmarked items stops.unmarked), List.foldlM_cons,
        bind_assoc]
      congr 1
      funext hunking
      exact ih others hunking

theorem applyBody_ok {lines : List (List Char)} (ended : ∀ line ∈ lines, Ended line)
    {hunking result : Hunking} {rest : List (List Char)}
    (read : applyBody source old new lines hunking = .ok (result, rest)) :
    ∃ items, (∀ item ∈ items, IsLines [item.2]) ∧ lines = bodyLines items ++ rest ∧ Stops rest := by
  induction length : lines.length using Nat.strongRecOn generalizing lines hunking with
  | ind size ih =>
      cases lines with
      | nil =>
          cases read
          refine ⟨[], fun _ member => (List.not_mem_nil member).elim, rfl, ?_⟩
          intro _ member
          cases member
      | cons line others =>
          obtain ⟨lineEnded, othersEnded⟩ := List.forall_mem_cons.mp ended
          cases body : isHeader line with
          | true =>
              rw [applyBody, body, if_pos rfl] at read
              cases read
              refine ⟨[], fun _ member => (List.not_mem_nil member).elim, rfl, ?_⟩
              intro _ member
              cases member
              exact body
          | false =>
              by_cases marker : others.head? = some noNewline
              · obtain ⟨behind, rfl⟩ : ∃ behind, others = noNewline :: behind :=
                  ⟨others.tail, List.eq_cons_of_mem_head? marker⟩
                rw [applyBody_marked body] at read
                obtain ⟨content, found, read⟩ := bind_ok_iff.mp read
                obtain ⟨next, _, read⟩ := bind_ok_iff.mp read
                obtain ⟨edit, whole, _, written⟩ := contentOf_ok lineEnded found
                have shorter : behind.length < size := by
                  rw [← length, List.length_cons, List.length_cons]
                  omega
                obtain ⟨items, formed, same, stops⟩ := ih behind.length shorter
                  (List.forall_mem_cons.mp othersEnded).2 read rfl
                rcases written with ⟨unmarked, _⟩ | ⟨_, written⟩
                · exact absurd rfl unmarked
                · refine ⟨(edit, content) :: items, List.forall_mem_cons.mpr ⟨whole, formed⟩, ?_,
                    stops⟩
                  rw [bodyLines, List.flatMap_cons, written, same]
                  rfl
              · rw [applyBody_line body marker] at read
                obtain ⟨content, found, read⟩ := bind_ok_iff.mp read
                obtain ⟨next, _, read⟩ := bind_ok_iff.mp read
                obtain ⟨edit, whole, _, written⟩ := contentOf_ok lineEnded found
                have shorter : others.length < size := by
                  rw [← length, List.length_cons]
                  omega
                obtain ⟨items, formed, same, stops⟩ := ih others.length shorter othersEnded read rfl
                rcases written with ⟨_, written⟩ | ⟨marked, _⟩
                · refine ⟨(edit, content) :: items, List.forall_mem_cons.mpr ⟨whole, formed⟩, ?_,
                    stops⟩
                  rw [bodyLines, List.flatMap_cons, written, same]
                  rfl
                · exact absurd marked marker

theorem applyHunks_ok {fuel : Nat} {lines : List (List Char)} (enough : lines.length ≤ fuel)
    (ended : ∀ line ∈ lines, Ended line) {patching result : Patching}
    (read : applyHunks source fuel lines patching = .ok result) :
    ∃ hunks : List PatchHunk, (∀ hunk ∈ hunks, hunk.WellFormed) ∧
      lines = hunks.flatMap PatchHunk.lines := by
  induction fuel generalizing lines patching with
  | zero =>
      rw [List.eq_nil_of_length_eq_zero (Nat.le_zero.mp enough)]
      exact ⟨[], fun _ member => (List.not_mem_nil member).elim, rfl⟩
  | succ fuel ih =>
      cases lines with
      | nil => exact ⟨[], fun _ member => (List.not_mem_nil member).elim, rfl⟩
      | cons line others =>
          obtain ⟨lineEnded, othersEnded⟩ := List.forall_mem_cons.mp ended
          rw [applyHunks] at read
          obtain ⟨⟨old, new⟩, headed, read⟩ := bind_ok_iff.mp read
          obtain ⟨_, read⟩ := bind_unit_ok_iff.mp read
          obtain ⟨between, _, read⟩ := bind_ok_iff.mp read
          obtain ⟨_, read⟩ := bind_unit_ok_iff.mp read
          obtain ⟨⟨hunking, rest⟩, body, read⟩ := bind_ok_iff.mp read
          obtain ⟨_, applied⟩ := bind_unit_ok_iff.mp read
          obtain ⟨items, formed, rfl, _⟩ := applyBody_ok othersEnded body
          obtain ⟨hunk, hunkFormed, rfl, rfl⟩ := header_ok lineEnded headed items formed
          rw [List.length_cons, List.length_append] at enough
          obtain ⟨hunks, hunksFormed, rfl⟩ := ih (by omega)
            (fun other member => othersEnded other (List.mem_append_right _ member)) applied
          exact ⟨hunk :: hunks, List.forall_mem_cons.mpr ⟨hunkFormed, hunksFormed⟩, rfl⟩

end Body

end Kvist.FileTools
