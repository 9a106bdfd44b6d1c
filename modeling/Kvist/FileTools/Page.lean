import Kvist.Bisection
import Kvist.FileTools.Search
import Kvist.FileTools.SearchProperties

/-!
# Pages of results

A page holds as many results as were asked for, or as many of them as the encoded output allows. It
says at which result to go on.
-/

set_option autoImplicit false

namespace Kvist.FileTools

open Bisection
open Json (Value utf8Bytes compact quote natural)

def maxOutputBytes : Nat := 7000

/-- The outcome is encoded, and encoded once more as the text that the model is shown. -/
def outputFits (output : Value) : Bool :=
  let encoded := compact output
  utf8Bytes encoded < maxOutputBytes && utf8Bytes (quote (String.ofList encoded)) < maxOutputBytes

def pageCandidate (items : List Value) (offset : Nat) (outcome : Value → Option Nat → Value)
    (count : Nat) : Value :=
  outcome (.array ((items.drop offset).take count))
    (if offset + count < items.length then some (offset + count) else none)

def fittedPage (items : List Value) (offset limit : Nat) (outcome : Value → Option Nat → Value) :
    Except Failure Value := do
  ensure (offset ≤ items.length) (failure "offset exceeds the result count")
  let count := min limit (items.length - offset)
  let candidate := pageCandidate items offset outcome
  if outputFits (candidate count) then return candidate count
  else
    match bisect (fun middle => (some (candidate middle)).filter outputFits) count 1 count none with
    | some page => return page
    | none => .error (failure "a single entry cannot fit the complete encoded output bound")

/-! ## The outcomes -/

/-- The results under their name, and where they stand among all of them. -/
def pageOutcome (label : String) (more : List (String × Value)) (offset total : Nat) (page : Value)
    (next : Option Nat) : Value :=
  .object ([(label, page), ("offset", natural offset),
    ("next_offset", (next.map natural).getD .null), ("total", natural total)] ++ more)

def listPage (values : List Value) (offset limit : Nat) : Except Failure Value :=
  fittedPage values offset limit (pageOutcome "entries" [] offset values.length)

def WalkState.complete (state : WalkState) : Bool :=
  state.skippedSymlinks == 0 && state.skippedBinary == 0 && state.skippedGenerated == 0 &&
    state.skippedOversized == 0 && state.excludedFiles == 0

def discoverCounts (state : WalkState) : List (String × Value) :=
  [("skipped_symlinks", natural state.skippedSymlinks),
    ("skipped_generated", natural state.skippedGenerated),
    ("visited_entries", natural state.visited), ("complete", .boolean state.complete)]

def discoverPage (state : WalkState) (files : List Value) (offset limit : Nat) :
    Except Failure Value :=
  fittedPage files offset limit (pageOutcome "files" (discoverCounts state) offset files.length)

def searchCounts (state : WalkState) (scope : String) : List (String × Value) :=
  [("skipped_symlinks", natural state.skippedSymlinks),
    ("skipped_binary", natural state.skippedBinary),
    ("skipped_generated", natural state.skippedGenerated),
    ("skipped_oversized", natural state.skippedOversized),
    ("excluded_files", natural state.excludedFiles), ("complete", .boolean state.complete),
    ("scope", .string scope), ("visited_entries", natural state.visited),
    ("scanned_bytes", natural state.scannedBytes)]

def searchPage (state : WalkState) (scope : String) (found : List Value) (offset limit : Nat) :
    Except Failure Value :=
  fittedPage found offset limit
    (pageOutcome "matches" (searchCounts state scope) offset found.length)

end Kvist.FileTools

/-! ## Following the pages

Whoever goes on at the offset that each page gives is shown every result once, as long as each
result fits a page of its own.
-/

namespace Kvist.FileTools

open Bisection
open Json (Value natural)

/-- A page holds results wherever the next result fits a page of its own. -/
theorem fittedPage_ok {items : List Value} {offset limit : Nat}
    {outcome : Value → Option Nat → Value} (inside : offset < items.length) (positive : 0 < limit)
    (alone : outputFits (pageCandidate items offset outcome 1) = true) :
    ∃ count, 0 < count ∧ offset + count ≤ items.length ∧
      fittedPage items offset limit outcome = .ok (pageCandidate items offset outcome count) ∧
      outputFits (pageCandidate items offset outcome count) = true := by
  rw [fittedPage, decide_eq_true (Nat.le_of_lt inside), ensure_true, ok_bind]
  dsimp only
  split
  · rename_i fits
    exact ⟨_, by omega, by omega, rfl, fits⟩
  · have passes : (Option.filter outputFits (some (pageCandidate items offset outcome 1))).isSome := by
      rw [Option.filter_some, if_pos alone]
      rfl
    have found : (bisect
        (fun middle => (some (pageCandidate items offset outcome middle)).filter outputFits)
        (min limit (items.length - offset)) 1 (min limit (items.length - offset)) none).isSome :=
      bisect_of_first Nat.one_pos (show 1 ≤ min limit (items.length - offset) by omega)
        (Nat.le_refl _) passes
    rw [Option.isSome_iff_exists] at found
    obtain ⟨page, found⟩ := found
    rcases bisect_sound found with kept | ⟨count, low, high, passed⟩
    · cases kept
    · rw [Option.filter_eq_some_iff, Option.some.injEq] at passed
      obtain ⟨rfl, fits⟩ := passed
      rw [found]
      exact ⟨count, low, by omega, rfl, fits⟩

/-- The last result makes no page if it does not fit one. -/
theorem fittedPage_error {item : Value} {limit : Nat} {outcome : Value → Option Nat → Value}
    (positive : 0 < limit) (large : outputFits (pageCandidate [item] 0 outcome 1) = false) :
    fittedPage [item] 0 limit outcome =
      .error (failure "a single entry cannot fit the complete encoded output bound") := by
  have count : min limit ([item].length - 0) = 1 := by
    rw [List.length_singleton]
    omega
  rw [fittedPage, decide_eq_true (Nat.zero_le _), ensure_true, ok_bind, count]
  dsimp only
  have fails : (some (pageCandidate [item] 0 outcome 1)).filter outputFits = none := by
    rw [Option.filter_some, large]
    rfl
  rw [large, if_neg Bool.false_ne_true, bisect]
  simp only [Nat.le_refl, if_true, Nat.sub_self, Nat.zero_div, Nat.add_zero, fails, bisect]

/-! ## Going on from page to page -/

/-- The pages from an offset on, each asked for at the offset that the one before it gives. -/
inductive Followed (request : Nat → Except Failure Value) : Nat → List Value → Prop where
  | last {offset : Nat} {page : Value} :
      request offset = .ok page → page.get? "next_offset" = some .null →
      Followed request offset [page]
  | more {offset next : Nat} {page : Value} {pages : List Value} :
      request offset = .ok page → page.get? "next_offset" = some (natural next) →
      Followed request next pages → Followed request offset (page :: pages)

/-- The results that a page holds. -/
def pageItems (label : String) (page : Value) : List Value :=
  match page.get? label with
  | some (.array items) => items
  | _ => []

theorem pageItems_candidate {label : String} {more : List (String × Value)} {items : List Value}
    {offset count : Nat} :
    pageItems label (pageCandidate items offset (pageOutcome label more offset items.length) count) =
      (items.drop offset).take count := by
  simp [pageItems, pageCandidate, pageOutcome, Value.get?]

theorem nextOffset_candidate {label : String} (named : label ≠ "next_offset")
    {more : List (String × Value)} {items : List Value} {offset count : Nat} :
    (pageCandidate items offset (pageOutcome label more offset items.length) count).get?
        "next_offset" =
      some (if offset + count < items.length then natural (offset + count) else .null) := by
  have other : (label == "next_offset") = false := beq_false_of_ne named
  have offsetName : ("offset" == "next_offset") = false := by decide
  simp only [pageCandidate, pageOutcome, Value.get?, List.cons_append, List.nil_append,
    List.find?_cons, other, offsetName, BEq.rfl, Option.map_some]
  split <;> rfl

theorem natural_injective {first second : Nat} (same : natural first = natural second) :
    first = second :=
  Nat.repr_injective (Value.number.inj same)

section Run

variable {label : String} {more : List (String × Value)} {items : List Value} {limits : Nat → Nat}

theorem followed_items (named : label ≠ "next_offset") (positive : ∀ offset, 0 < limits offset)
    (alone : ∀ offset < items.length, outputFits
      (pageCandidate items offset (pageOutcome label more offset items.length) 1) = true)
    {offset : Nat} {pages : List Value} (inside : offset < items.length)
    (followed : Followed (fun offset => fittedPage items offset (limits offset)
      (pageOutcome label more offset items.length)) offset pages) :
    pages.flatMap (pageItems label) = items.drop offset ∧
      ∀ page ∈ pages, outputFits page = true ∧ pageItems label page ≠ [] := by
  have step : ∀ {offset : Nat} {page : Value}, offset < items.length →
      fittedPage items offset (limits offset) (pageOutcome label more offset items.length) =
        .ok page →
      ∃ count, 0 < count ∧ offset + count ≤ items.length ∧ outputFits page = true ∧
        pageItems label page = (items.drop offset).take count ∧ pageItems label page ≠ [] ∧
        page.get? "next_offset" =
          some (if offset + count < items.length then natural (offset + count) else .null) := by
    intro offset page inside asked
    obtain ⟨count, some, low, given, fits⟩ :=
      fittedPage_ok inside (positive offset) (alone offset inside)
    rw [given, Except.ok.injEq] at asked
    subst asked
    refine ⟨count, some, low, fits, pageItems_candidate, ?_, nextOffset_candidate named⟩
    rw [pageItems_candidate]
    intro none
    have length := congrArg List.length none
    rw [List.length_take, List.length_drop, List.length_nil] at length
    omega
  induction followed with
  | last asked ends =>
      obtain ⟨count, some, low, fits, shown, nonempty, next⟩ := step inside asked
      rw [ends, Option.some.injEq] at next
      split at next
      · cases next
      · refine ⟨?_, ?_⟩
        · rw [List.flatMap_singleton, shown, List.take_of_length_le]
          rw [List.length_drop]
          omega
        · intro page member
          rw [List.mem_singleton] at member
          exact member ▸ ⟨fits, nonempty⟩
  | more asked goesOn _ ih =>
      obtain ⟨count, some, low, fits, shown, nonempty, next⟩ := step inside asked
      rw [goesOn, Option.some.injEq] at next
      split at next
      · rename_i within
        cases natural_injective next
        obtain ⟨rest, pages⟩ := ih within
        refine ⟨?_, ?_⟩
        · rw [List.flatMap_cons, shown, rest, ← List.drop_drop, List.take_append_drop]
        · intro page member
          rcases List.mem_cons.mp member with rfl | member
          · exact ⟨fits, nonempty⟩
          · exact pages page member
      · cases next

/-- The last result is reached, at the latest with as many pages as there are results. -/
theorem exists_followed (named : label ≠ "next_offset") (positive : ∀ offset, 0 < limits offset)
    (alone : ∀ offset < items.length, outputFits
      (pageCandidate items offset (pageOutcome label more offset items.length) 1) = true)
    (rest : Nat) {offset : Nat} (inside : offset < items.length)
    (within : items.length ≤ offset + rest) :
    ∃ pages, Followed (fun offset => fittedPage items offset (limits offset)
      (pageOutcome label more offset items.length)) offset pages := by
  induction rest generalizing offset with
  | zero => omega
  | succ rest ih =>
      obtain ⟨count, some, low, given, -⟩ :=
        fittedPage_ok inside (positive offset) (alone offset inside)
      have next := @nextOffset_candidate label named more items offset count
      by_cases ends : offset + count < items.length
      · obtain ⟨pages, followed⟩ := ih ends (by omega)
        rw [if_pos ends] at next
        exact ⟨_, .more given next followed⟩
      · rw [if_neg ends] at next
        exact ⟨_, .last given next⟩

theorem alone_of_error {offset limit : Nat} {outcome : Value → Option Nat → Value}
    {failed : Failure} (inside : offset < items.length) (positive : 0 < limit)
    (refused : fittedPage items offset limit outcome = .error failed) :
    outputFits (pageCandidate items offset outcome 1) = false := by
  by_contra fits
  rw [Bool.not_eq_false] at fits
  obtain ⟨_, _, _, given, _⟩ := fittedPage_ok inside positive fits
  rw [given] at refused
  cases refused

/-- Whatever the limits, the pages show every result once and in order, each of them some, as long
as each result fits a page of its own. A request fails only at a result that does not. -/
theorem followed_all (named : label ≠ "next_offset") (nonempty : items ≠ [])
    (positive : ∀ offset, 0 < limits offset) :
    ((∀ offset < items.length, outputFits
        (pageCandidate items offset (pageOutcome label more offset items.length) 1) = true) →
      (∃ pages, Followed (fun offset => fittedPage items offset (limits offset)
        (pageOutcome label more offset items.length)) 0 pages) ∧
      ∀ pages, Followed (fun offset => fittedPage items offset (limits offset)
          (pageOutcome label more offset items.length)) 0 pages →
        pages.flatMap (pageItems label) = items ∧
          ∀ page ∈ pages, outputFits page = true ∧ pageItems label page ≠ []) ∧
    ∀ offset < items.length, ∀ failed,
      fittedPage items offset (limits offset) (pageOutcome label more offset items.length) =
          .error failed →
        outputFits
          (pageCandidate items offset (pageOutcome label more offset items.length) 1) = false := by
  have start := List.length_pos_iff.mpr nonempty
  refine ⟨fun alone => ⟨?_, ?_⟩, fun offset inside failed refused => ?_⟩
  · exact exists_followed named positive alone items.length start (by omega)
  · exact fun _ followed => followed_items named positive alone start followed
  · exact alone_of_error inside (positive offset) refused

end Run

theorem followed_all_listed :
    (∃ pages, Followed (fun offset => fittedPage [.string "a", .string "b"] offset 1
      (pageOutcome "files" [] offset 2)) 0 pages) ∧
    ∀ pages, Followed (fun offset => fittedPage [.string "a", .string "b"] offset 1
        (pageOutcome "files" [] offset 2)) 0 pages →
      pages.flatMap (pageItems "files") = [.string "a", .string "b"] ∧
        ∀ page ∈ pages, outputFits page = true ∧ pageItems "files" page ≠ [] :=
  (followed_all (by decide) (by decide) (fun _ => Nat.one_pos)).1 (by decide)

/-! ## A result that fits no page -/

private theorem compactItems_sublist {item : Value} {items : List Value} (member : item ∈ items) :
    (Json.compact item).Sublist (Json.compactItems items) := by
  induction items with
  | nil => cases member
  | cons first rest ih =>
      cases rest with
      | nil =>
          rw [List.mem_singleton.mp member, Json.compactItems]
      | cons second rest =>
          rw [Json.compactItems.eq_3 _ _ (by simp)]
          rcases List.mem_cons.mp member with rfl | member
          · exact List.sublist_append_left _ _
          · exact ((ih member).cons ',').trans (List.sublist_append_right _ _)

private theorem compactMembers_sublist {name : String} {value : Value}
    {members : List (String × Value)} (member : (name, value) ∈ members) :
    (Json.compact value).Sublist (Json.compactMembers members) := by
  induction members with
  | nil => cases member
  | cons first rest ih =>
      obtain ⟨firstName, firstValue⟩ := first
      cases rest with
      | nil =>
          cases List.mem_singleton.mp member
          rw [Json.compactMembers]
          exact (List.sublist_cons_self _ _).trans (List.sublist_append_right _ _)
      | cons second rest =>
          rw [Json.compactMembers.eq_3 _ _ _ (by simp)]
          rcases List.mem_cons.mp member with same | member
          · cases same
            exact ((List.sublist_append_left _ _).cons ':').trans (List.sublist_append_right _ _)
          · exact ((((ih member).cons ',').trans (List.sublist_append_right _ _)).cons ':').trans
              (List.sublist_append_right _ _)

/-- The text of an element is part of the text of its array. -/
theorem compact_item_sublist {item : Value} {items : List Value} (member : item ∈ items) :
    (Json.compact item).Sublist (Json.compact (.array items)) := by
  rw [Json.compact]
  exact ((compactItems_sublist member).trans (List.sublist_append_left _ _)).cons '['

theorem compact_member_sublist {name : String} {value : Value} {members : List (String × Value)}
    (member : (name, value) ∈ members) :
    (Json.compact value).Sublist (Json.compact (.object members)) := by
  rw [Json.compact]
  exact ((compactMembers_sublist member).trans (List.sublist_append_left _ _)).cons '{'

private theorem escape_bytes (character : Char) :
    1 + [character].count '\\' ≤ Json.utf8Bytes (Json.escape character) := by
  by_cases backslash : character = '\\'
  · rw [backslash]
    decide
  · have none : [character].count '\\' = 0 := by
      rw [List.count_eq_zero, List.mem_singleton]
      exact Ne.symm backslash
    have bytes : ∀ (first : Char) (rest : List Char), 1 ≤ Json.utf8Bytes (first :: rest) := by
      intro first rest
      have positive := first.utf8Size_pos
      rw [Json.utf8Bytes]
      omega
    rw [none, Json.escape]
    repeat' split
    all_goals exact bytes _ _

/-- Encoding a text again takes a byte for each character, and one more for each backslash. -/
theorem length_add_count_le (text : List Char) :
    text.length + text.count '\\' ≤ Json.utf8Bytes (text.flatMap Json.escape) := by
  induction text with
  | nil => exact Nat.le_refl _
  | cons character rest ih =>
      have first := escape_bytes character
      rw [List.flatMap_cons, Json.utf8Bytes_append, ← List.singleton_append, List.count_append,
        List.length_append, List.length_singleton]
      omega

theorem outputFits_false {output : Value} {part : List Char}
    (inside : part.Sublist (Json.compact output))
    (large : maxOutputBytes ≤ part.length + part.count '\\') : outputFits output = false := by
  have encoded := length_add_count_le (Json.compact output)
  have length := inside.length_le
  have count := inside.count_le '\\'
  have twice : ¬Json.utf8Bytes (Json.quote (String.ofList (Json.compact output))) <
      maxOutputBytes := by
    rw [Json.quote, String.toList_ofList, Json.utf8Bytes, Json.utf8Bytes_append]
    omega
  rw [outputFits, decide_eq_false twice, Bool.and_false]

private theorem replicate_control (count : Nat) :
    ((List.replicate count '\x01').flatMap Json.escape).length = 6 * count ∧
      ((List.replicate count '\x01').flatMap Json.escape).count '\\' = count := by
  induction count with
  | zero => exact ⟨rfl, rfl⟩
  | succ count ih =>
      have control : Json.escape '\x01' = ['\\', 'u', '0', '0', '0', '1'] := by decide
      rw [List.replicate_succ, List.flatMap_cons, List.length_append, List.count_append, ih.1, ih.2,
        control]
      constructor
      · rw [show (['\\', 'u', '0', '0', '0', '1'] : List Char).length = 6 from rfl]
        omega
      · rw [show (['\\', 'u', '0', '0', '0', '1'] : List Char).count '\\' = 1 by decide]
        omega

/-- A line of control characters, as it is reported. -/
def controlLine : SearchMatch := ⟨['/', 'f'], 1, 0, 'a' :: List.replicate 1023 '\x01', false⟩

/-- It is within its bound, and yet takes more than a page. -/
theorem control_line_fits_no_page :
    searchFile ⟨.ok ⟨true, 1024⟩, .ok (97 :: List.replicate 1023 1), .ok ⟨true, 1024⟩⟩
        ['/', 'f'] ['f'] ⟨['a'], none⟩ {} [] = .ok ({ scannedBytes := 1024 }, [controlLine]) ∧
    searchPage { scannedBytes := 1024 } "file" [controlLine.toJson] 0 100 =
      .error (failure "a single entry cannot fit the complete encoded output bound") := by
  have large : outputFits (pageCandidate [controlLine.toJson] 0 (pageOutcome "matches"
      (searchCounts { scannedBytes := 1024 } "file") 0 1) 1) = false := by
    obtain ⟨length, count⟩ := replicate_control 1023
    have inString : ((List.replicate 1023 '\x01').flatMap Json.escape).Sublist
        (Json.compact (.string (String.ofList controlLine.content))) := by
      rw [Json.compact, Json.quote, String.toList_ofList, controlLine, List.flatMap_cons]
      exact ((List.sublist_append_right _ _).trans (List.sublist_append_left _ _)).cons '"'
    have inItem : (Json.compact (.string (String.ofList controlLine.content))).Sublist
        (Json.compact controlLine.toJson) :=
      @compact_member_sublist "content" _ _ (by simp)
    have inArray : (Json.compact controlLine.toJson).Sublist
        (Json.compact (.array [controlLine.toJson])) :=
      compact_item_sublist List.mem_cons_self
    have inPage : (Json.compact (.array [controlLine.toJson])).Sublist (Json.compact
        (pageCandidate [controlLine.toJson] 0 (pageOutcome "matches"
          (searchCounts { scannedBytes := 1024 } "file") 0 1) 1)) :=
      @compact_member_sublist "matches" _ _ List.mem_cons_self
    refine outputFits_false (((inString.trans inItem).trans inArray).trans inPage) ?_
    rw [length, count]
    decide
  constructor
  · decide +kernel
  · exact fittedPage_error (by decide) large

end Kvist.FileTools
