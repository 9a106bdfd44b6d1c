import Mathlib
import Kvist.Occurrences
import Kvist.Utf8

/-!
# Redaction of evidence

The redaction values are replaced by a mark, one after the other, and the text is cut at a bound.
-/

set_option autoImplicit false

namespace Kvist.Evidence

open Occurrences
open Json (utf8Bytes)

/-- The roles' own values, and those of the environment that the sandbox passes on. -/
def evidenceRedactions (architect developer securityReviewer : List (List Char))
    (environment : Option (List (List Char))) : List (List Char) :=
  ((developer ++ securityReviewer) ++ environment.getD []).foldl
    (fun values value => if values.contains value then values else values ++ [value]) architect

def redacted : List Char := "[REDACTED]".toList

/-- `str::replace`: an empty needle is found around every character. -/
def replaceAll (needle replacement text : List Char) : List Char :=
  if needle = [] then replacement ++ text.flatMap (fun character => character :: replacement)
  else replace needle replacement text

def truncateUtf8 (value : List Char) (limit : Nat) : List Char :=
  if utf8Bytes value ≤ limit then value else Utf8.takeBytes limit value

def redactBounded (value : List Char) (redactions : List (List Char)) (limit : Nat) : List Char :=
  truncateUtf8
    (redactions.foldl (fun value redaction => replaceAll redaction redacted value) value) limit

end Kvist.Evidence

/-! ## What redaction leaves

Each character of an occurrence of a value is to be masked and all others are to be kept. That is so
where a value that is replaced later has no part of it masked before, does not overlap itself and
is not brought in by the marks.
-/

namespace Kvist.Evidence

open Occurrences
open Json (utf8Bytes)

/-! ## Masked texts -/

/-- What becomes of one character: it is kept, it is hidden behind a mark, or a mark takes its place. -/
inductive Cell where
  | kept
  | hidden
  | mark
  deriving DecidableEq

/-- Whether the character at an index belongs to an occurrence of the value. -/
def belongs (value text : List Char) (index : Nat) : Bool :=
  (List.range (index + 1)).any fun offset =>
    occursAt value text offset && index < offset + value.length

def cellStep (text : List Char) (index : Nat) (cell : Cell) (value : List Char) : Cell :=
  match cell with
  | .kept =>
      if occursAt value text index then .mark
      else if belongs value text index then .hidden
      else .kept
  | other => other

/-- The first value with an occurrence on a character decides. -/
def cellOf (values : List (List Char)) (text : List Char) (index : Nat) : Cell :=
  values.foldl (cellStep text index) .kept

def Cell.render (character : Char) : Cell → List Char
  | .kept => [character]
  | .hidden => []
  | .mark => redacted

def maskedFrom (cells : Nat → Cell) : Nat → List Char → List Char
  | _, [] => []
  | index, character :: rest =>
      (cells index).render character ++ maskedFrom cells (index + 1) rest

/-- The text with each character of an occurrence masked and every other character kept. -/
def maskedText (values : List (List Char)) (text : List Char) : List Char :=
  maskedFrom (cellOf values text) 0 text

theorem belongs_iff {value text : List Char} {index : Nat} :
    belongs value text index = true ↔ ∃ offset ≤ index,
      occursAt value text offset = true ∧ index < offset + value.length := by
  simp only [belongs, List.any_eq_true, List.mem_range, Bool.and_eq_true, decide_eq_true_eq,
    Nat.lt_succ_iff]

theorem cellOf_append (values : List (List Char)) (value text : List Char) (index : Nat) :
    cellOf (values ++ [value]) text index = cellStep text index (cellOf values text index) value := by
  rw [cellOf, List.foldl_append]
  rfl

theorem cellOf_kept_iff {values : List (List Char)} {text : List Char} {index : Nat}
    (nonempty : ∀ value ∈ values, value ≠ []) :
    cellOf values text index = .kept ↔ ∀ value ∈ values, belongs value text index = false := by
  induction values using List.reverseRecOn with
  | nil => exact ⟨fun _ _ member => (List.not_mem_nil member).elim, fun _ => rfl⟩
  | append_singleton values value ih =>
      have head : ∀ value ∈ values, value ≠ [] := fun value member =>
        nonempty value (List.mem_append_left _ member)
      have last : value ≠ [] := nonempty value (List.mem_append_right _ List.mem_cons_self)
      rw [cellOf_append]
      constructor
      · intro kept
        cases before : cellOf values text index with
        | kept =>
            rw [before, cellStep] at kept
            intro other member
            rcases List.mem_append.mp member with member | member
            · exact (ih head).mp before other member
            · cases List.mem_singleton.mp member
              cases isIn : belongs value text index with
              | false => rfl
              | true =>
                  rw [isIn, if_pos rfl] at kept
                  split at kept <;> cases kept
        | hidden =>
            rw [before] at kept
            cases kept
        | mark =>
            rw [before] at kept
            cases kept
      · intro absent
        have before := (ih head).mpr fun other member =>
          absent other (List.mem_append_left _ member)
        have outside := absent value (List.mem_append_right _ List.mem_cons_self)
        have notHere : occursAt value text index = false := by
          by_contra stands
          rw [Bool.not_eq_false] at stands
          have positive := List.length_pos_iff.mpr last
          rw [belongs_iff.mpr ⟨index, Nat.le_refl _, stands, by omega⟩] at outside
          cases outside
        rw [before, cellStep, notHere, outside, if_neg Bool.false_ne_true,
          if_neg Bool.false_ne_true]

/-! ## Masking one value after the other -/

def places (value text : List Char) (cells : Nat → Cell) : Nat → List Char → Nat
  | _, [] => 0
  | index, _ :: rest =>
      (if cells index = .kept ∧ occursAt value text index = true then 1 else 0) +
        places value text cells (index + 1) rest

/-- What masking a value needs of the values that are masked before it. -/
structure Clean (earlier : List (List Char)) (value text : List Char) : Prop where
  nonempty : value ≠ []
  whole : ∀ offset, occursAt value text offset = true →
    (∀ index, offset ≤ index → index < offset + value.length →
      cellOf earlier text index = .kept) ∨
    ∀ index, offset ≤ index → index < offset + value.length →
      cellOf earlier text index ≠ .kept
  apart : ∀ first second, first < second →
    occursAt value text first = true → occursAt value text second = true →
    cellOf earlier text first = .kept → cellOf earlier text second = .kept →
    first + value.length ≤ second
  nothingNew : countOf value (maskedText earlier text) = places value text (cellOf earlier text) 0 text

theorem maskedFrom_kept {cells : Nat → Cell} {index length : Nat} {rest : List Char}
    (kept : ∀ other, index ≤ other → other < index + length → cells other = .kept)
    (inside : length ≤ rest.length) :
    maskedFrom cells index rest =
      rest.take length ++ maskedFrom cells (index + length) (rest.drop length) := by
  induction length generalizing index rest with
  | zero => rfl
  | succ length ih =>
      cases rest with
      | nil =>
          rw [List.length_nil] at inside
          omega
      | cons character rest =>
          rw [List.length_cons] at inside
          have later := @ih (index + 1) rest
            (fun other low high => kept other (by omega) (by omega)) (by omega)
          rw [maskedFrom, kept index (Nat.le_refl _) (by omega), Cell.render, later,
            List.take_succ_cons, List.drop_succ_cons, Nat.add_assoc, Nat.add_comm 1 length]
          rfl

section Step

variable {earlier : List (List Char)} {value text : List Char}

theorem occursAt_length {offset : Nat} (stands : occursAt value text offset = true) :
    value <+: text.drop offset := by
  rw [occursAt, Bool.and_eq_true] at stands
  exact List.isPrefixOf_iff_prefix.mp stands.2

theorem Clean.shown (clean : Clean earlier value text) {index : Nat}
    (stands : occursAt value text index = true) (kept : cellOf earlier text index = .kept) :
    value <+: maskedFrom (cellOf earlier text) index (text.drop index) := by
  have starts := occursAt_length stands
  have positive := List.length_pos_iff.mpr clean.nonempty
  have whole : ∀ other, index ≤ other → other < index + value.length →
      cellOf earlier text other = .kept := by
    rcases clean.whole index stands with all | none
    · exact all
    · exact absurd kept (none index (Nat.le_refl _) (by omega))
  rw [maskedFrom_kept whole starts.length_le, ← List.prefix_iff_eq_take.mp starts]
  exact List.prefix_append _ _

theorem Clean.places_le (clean : Clean earlier value text) {index : Nat} {rest : List Char}
    (suffix : rest = text.drop index) :
    places value text (cellOf earlier text) index rest ≤
      countOf value (maskedFrom (cellOf earlier text) index rest) := by
  induction rest generalizing index with
  | nil => exact Nat.zero_le _
  | cons character rest ih =>
      have next : rest = text.drop (index + 1) := by
        rw [← List.drop_drop, ← suffix, List.drop_succ_cons, List.drop_zero]
      have later := ih next
      rw [places]
      split
      · rename_i both
        have shown := clean.shown both.2 both.1
        rw [← suffix, maskedFrom, both.1, Cell.render, List.singleton_append] at shown
        rw [maskedFrom, both.1, Cell.render, List.singleton_append, countOf_cons,
          if_pos (List.isPrefixOf_iff_prefix.mpr shown)]
        omega
      · rw [maskedFrom, Nat.zero_add]
        exact later.trans (countOf_append_le _ _ _)

/-- What the scan has behind it at an index: no occurrence reaches further than it skips. -/
structure Scanned (earlier : List (List Char)) (value text : List Char) (index skip : Nat) :
    Prop where
  behind : ∀ offset < index, occursAt value text offset = true →
    cellOf earlier text offset = .kept → offset + value.length ≤ index + skip
  skipping : 0 < skip → ∃ offset < index, occursAt value text offset = true ∧
    cellOf earlier text offset = .kept ∧ offset + value.length = index + skip

theorem Scanned.succ {index skip later : Nat} (scanned : Scanned earlier value text index skip)
    (reach : skip ≤ later + 1)
    (here : occursAt value text index = true → cellOf earlier text index = .kept →
      value.length ≤ later + 1) :
    ∀ offset < index + 1, occursAt value text offset = true →
      cellOf earlier text offset = .kept → offset + value.length ≤ index + 1 + later := by
  intro offset before stands kept
  rcases Nat.lt_succ_iff_lt_or_eq.mp before with before | rfl
  · have behind := scanned.behind offset before stands kept
    omega
  · have length := here stands kept
    omega

theorem Clean.substitute_masked (clean : Clean earlier value text) {index skip : Nat}
    {rest : List Char} (suffix : rest = text.drop index)
    (scanned : Scanned earlier value text index skip)
    (exactly : countOf value (maskedFrom (cellOf earlier text) index rest) =
      places value text (cellOf earlier text) index rest) :
    substitute (value.isPrefixOf ·) value.length redacted skip
        (maskedFrom (cellOf earlier text) index rest) =
      maskedFrom (cellOf (earlier ++ [value]) text) index rest := by
  induction rest generalizing index skip with
  | nil => cases skip <;> rfl
  | cons character rest ih =>
      have next : rest = text.drop (index + 1) := by
        rw [← List.drop_drop, ← suffix, List.drop_succ_cons, List.drop_zero]
      have enough := clean.places_le next
      rw [places] at exactly
      cases skip with
      | succ skip =>
          obtain ⟨offset, low, stands, kept, ends⟩ := scanned.skipping (Nat.succ_pos skip)
          have keptHere : cellOf earlier text index = .kept := by
            rcases clean.whole offset stands with all | none
            · exact all index (by omega) (by omega)
            · exact absurd kept (none offset (Nat.le_refl _) (by omega))
          have notHere : occursAt value text index ≠ true := by
            intro again
            have apart := clean.apart offset index low stands again kept keptHere
            omega
          have isIn : belongs value text index = true :=
            belongs_iff.mpr ⟨offset, by omega, stands, by omega⟩
          have after : cellOf (earlier ++ [value]) text index = .hidden := by
            rw [cellOf_append, keptHere, cellStep, if_neg notHere, if_pos isIn]
          rw [if_neg fun both => notHere both.2, Nat.zero_add, maskedFrom, keptHere, Cell.render,
            List.singleton_append, countOf_cons] at exactly
          rw [maskedFrom, maskedFrom, keptHere, after, Cell.render, Cell.render,
            List.singleton_append, List.nil_append, substitute]
          refine ih next ⟨?_, ?_⟩ (by omega)
          · exact scanned.succ (by omega) fun again => absurd again notHere
          · exact fun _ => ⟨offset, by omega, stands, kept, by omega⟩
      | zero =>
          by_cases kept : cellOf earlier text index = .kept
          · by_cases stands : occursAt value text index = true
            · have shown := clean.shown stands kept
              have positive := List.length_pos_iff.mpr clean.nonempty
              have after : cellOf (earlier ++ [value]) text index = .mark := by
                rw [cellOf_append, kept, cellStep, if_pos stands]
              rw [← suffix, maskedFrom, kept, Cell.render, List.singleton_append,
                ← List.isPrefixOf_iff_prefix] at shown
              rw [if_pos ⟨kept, stands⟩, maskedFrom, kept, Cell.render, List.singleton_append,
                countOf_cons, if_pos shown] at exactly
              rw [maskedFrom, maskedFrom, kept, after, Cell.render, Cell.render,
                List.singleton_append, substitute, if_pos shown]
              refine congrArg (redacted ++ ·) (ih next ⟨?_, ?_⟩ (by omega))
              · exact scanned.succ (by omega) fun _ _ => by omega
              · exact fun _ => ⟨index, by omega, stands, kept, by omega⟩
            · have outside : belongs value text index ≠ true := by
                intro isIn
                obtain ⟨offset, low, standsThere, reach⟩ := belongs_iff.mp isIn
                have before : offset ≠ index := by
                  rintro rfl
                  exact stands standsThere
                have keptThere : cellOf earlier text offset = .kept := by
                  rcases clean.whole offset standsThere with all | none
                  · exact all offset (Nat.le_refl _) (by omega)
                  · exact absurd kept (none index low reach)
                have behind := scanned.behind offset (by omega) standsThere keptThere
                omega
              have after : cellOf (earlier ++ [value]) text index = .kept := by
                rw [cellOf_append, kept, cellStep, if_neg stands, if_neg outside]
              rw [if_neg fun both => stands both.2, Nat.zero_add, maskedFrom, kept, Cell.render,
                List.singleton_append, countOf_cons] at exactly
              have absent : ¬value.isPrefixOf (character ::
                  maskedFrom (cellOf earlier text) (index + 1) rest) = true := by
                intro shown
                rw [if_pos shown] at exactly
                omega
              rw [if_neg absent] at exactly
              rw [maskedFrom, maskedFrom, kept, after, Cell.render, List.singleton_append,
                List.singleton_append, substitute, if_neg absent]
              refine congrArg (character :: ·) (ih next ⟨?_, ?_⟩ (by omega))
              · exact scanned.succ (by omega) fun again => absurd again stands
              · exact fun skips => absurd skips (Nat.lt_irrefl _)
          · have after : cellOf (earlier ++ [value]) text index = cellOf earlier text index := by
              rw [cellOf_append]
              cases cell : cellOf earlier text index with
              | kept => exact absurd cell kept
              | hidden => rfl
              | mark => rfl
            rw [if_neg fun both => kept both.1, Nat.zero_add, maskedFrom] at exactly
            have fewer := countOf_append_le value ((cellOf earlier text index).render character)
              (maskedFrom (cellOf earlier text) (index + 1) rest)
            have same : countOf value ((cellOf earlier text index).render character ++
                maskedFrom (cellOf earlier text) (index + 1) rest) =
                countOf value (maskedFrom (cellOf earlier text) (index + 1) rest) := by omega
            rw [maskedFrom, maskedFrom, after]
            refine (replace_append same).trans (congrArg (_ ++ ·) (ih next ⟨?_, ?_⟩ (by omega)))
            · exact scanned.succ (by omega) fun _ keptHere => absurd keptHere kept
            · exact fun skips => absurd skips (Nat.lt_irrefl _)

theorem Clean.replace_masked (clean : Clean earlier value text) :
    replaceAll value redacted (maskedText earlier text) = maskedText (earlier ++ [value]) text := by
  rw [replaceAll, if_neg clean.nonempty]
  exact clean.substitute_masked rfl
    ⟨fun _ before => absurd before (Nat.not_lt_zero _), fun skips => absurd skips (Nat.lt_irrefl _)⟩
    clean.nothingNew

end Step

theorem occursAt_lt {value text : List Char} {offset : Nat}
    (stands : occursAt value text offset = true) : offset < text.length := by
  rw [occursAt, Bool.and_eq_true, decide_eq_true_eq] at stands
  exact stands.1

theorem clean_iff {earlier : List (List Char)} {value text : List Char} :
    Clean earlier value text ↔ value ≠ [] ∧
      (∀ offset < text.length, occursAt value text offset = true →
        (∀ index < offset + value.length, offset ≤ index → cellOf earlier text index = .kept) ∨
        ∀ index < offset + value.length, offset ≤ index → cellOf earlier text index ≠ .kept) ∧
      (∀ second < text.length, ∀ first < second,
        occursAt value text first = true ∧ occursAt value text second = true ∧
          cellOf earlier text first = .kept ∧ cellOf earlier text second = .kept →
        first + value.length ≤ second) ∧
      countOf value (maskedText earlier text) =
        places value text (cellOf earlier text) 0 text := by
  constructor
  · intro clean
    refine ⟨clean.nonempty, fun offset _ stands => ?_, ?_, clean.nothingNew⟩
    · exact (clean.whole offset stands).imp (fun kept index high low => kept index low high)
        fun masked index high low => masked index low high
    · rintro second - first before ⟨stands, again, kept, keptAgain⟩
      exact clean.apart first second before stands again kept keptAgain
  · rintro ⟨nonempty, whole, apart, nothingNew⟩
    refine ⟨nonempty, fun offset stands => ?_,
      fun first second before stands again kept keptAgain => ?_, nothingNew⟩
    · exact (whole offset (occursAt_lt stands) stands).imp
        (fun kept index low high => kept index high low)
        fun masked index low high => masked index high low
    · exact apart second (occursAt_lt again) first before ⟨stands, again, kept, keptAgain⟩

set_option synthInstance.maxSize 256 in
instance (earlier : List (List Char)) (value text : List Char) :
    Decidable (Clean earlier value text) :=
  decidable_of_iff _ clean_iff.symm

/-- Each value is masked as if it were the first one. -/
def CleanAll : List (List Char) → List (List Char) → List Char → Prop
  | _, [], _ => True
  | earlier, value :: rest, text =>
      Clean earlier value text ∧ CleanAll (earlier ++ [value]) rest text

instance decidableCleanAll : (earlier values : List (List Char)) → (text : List Char) →
    Decidable (CleanAll earlier values text)
  | _, [], _ => .isTrue trivial
  | earlier, value :: rest, text =>
      have := decidableCleanAll (earlier ++ [value]) rest text
      inferInstanceAs (Decidable (Clean earlier value text ∧ CleanAll (earlier ++ [value]) rest text))

theorem CleanAll.nonempty {earlier values : List (List Char)} {text : List Char}
    (clean : CleanAll earlier values text) : ∀ value ∈ values, value ≠ [] := by
  induction values generalizing earlier with
  | nil => exact fun _ member => (List.not_mem_nil member).elim
  | cons value values ih => exact List.forall_mem_cons.mpr ⟨clean.1.nonempty, ih clean.2⟩

theorem foldl_masked {earlier values : List (List Char)} {text : List Char}
    (clean : CleanAll earlier values text) :
    values.foldl (fun value redaction => replaceAll redaction redacted value)
        (maskedText earlier text) = maskedText (earlier ++ values) text := by
  induction values generalizing earlier with
  | nil => rw [List.append_nil, List.foldl_nil]
  | cons value values ih =>
      rw [List.foldl_cons, clean.1.replace_masked, ih clean.2, List.append_assoc,
        List.singleton_append]

/-- Two texts that differ in the characters of occurrences only. -/
structure SameOutside (values : List (List Char)) (text other : List Char) : Prop where
  length : text.length = other.length
  cells : ∀ index, cellOf values text index = cellOf values other index
  outside : ∀ index, cellOf values text index = .kept → text[index]? = other[index]?

theorem maskedFrom_same {cells : Nat → Cell} {index : Nat} {text other : List Char}
    (length : text.length = other.length)
    (same : ∀ place, cells (index + place) = .kept → text[place]? = other[place]?) :
    maskedFrom cells index text = maskedFrom cells index other := by
  induction text generalizing index other with
  | nil => rw [List.eq_nil_of_length_eq_zero length.symm]
  | cons character text ih =>
      cases other with
      | nil => cases length
      | cons second other =>
          rw [List.length_cons, List.length_cons, Nat.succ.injEq] at length
          have rest := @ih (index + 1) other length fun place kept => by
            rw [Nat.add_right_comm] at kept
            have there := same (place + 1) kept
            rwa [List.getElem?_cons_succ, List.getElem?_cons_succ] at there
          rw [maskedFrom, maskedFrom, rest]
          cases cell : cells index with
          | kept =>
              have here := same 0 cell
              rw [List.getElem?_cons_zero, List.getElem?_cons_zero, Option.some.injEq] at here
              rw [here]
          | hidden => rfl
          | mark => rfl

theorem maskedText_same {values : List (List Char)} {text other : List Char}
    (same : SameOutside values text other) : maskedText values text = maskedText values other := by
  rw [maskedText, maskedText, ← funext same.cells]
  refine maskedFrom_same same.length fun place kept => ?_
  rw [Nat.zero_add] at kept
  exact same.outside place kept

/-- The characters of occurrences are masked, the others are kept up to the bound, and nothing of
the masked characters shows. -/
theorem redactBounded_masked {values : List (List Char)} {text : List Char}
    (clean : CleanAll [] values text) (limit : Nat) :
    (∀ index, cellOf values text index = .kept ↔
      ∀ value ∈ values, belongs value text index = false) ∧
    redactBounded text values limit = truncateUtf8 (maskedText values text) limit ∧
      ∀ other, CleanAll [] values other → SameOutside values text other →
        redactBounded other values limit = redactBounded text values limit := by
  have masked : ∀ {text : List Char}, CleanAll [] values text →
      redactBounded text values limit = truncateUtf8 (maskedText values text) limit := by
    intro text clean
    have plain : maskedText [] text = text := by
      have whole := @maskedFrom_kept (cellOf [] text) 0 _ text
        (fun _ _ _ => rfl) (Nat.le_refl _)
      rw [List.take_length, List.drop_length] at whole
      exact whole.trans (List.append_nil text)
    have folded := foldl_masked clean
    rw [plain, List.nil_append] at folded
    rw [redactBounded, folded]
  refine ⟨fun _ => cellOf_kept_iff clean.nonempty, masked clean, ?_⟩
  intro other cleanOther same
  rw [masked clean, masked cleanOther, maskedText_same same]

/-- A longer value, one that it begins with, and one that may stand in the place of that one. -/
def nestedValues : List (List Char) := ["abcdef".toList, "abc".toList, "xyz".toList]

private theorem nested_sameOutside :
    SameOutside nestedValues "abcdef abc".toList "abcdef xyz".toList := by
  have beyond : ∀ text : List Char, text.length = 10 → ∀ index, 10 ≤ index →
      cellOf nestedValues text index = .kept := by
    intro text length index past
    rw [cellOf_kept_iff (by decide)]
    intro value member
    rw [Bool.eq_false_iff, Ne, belongs_iff]
    rintro ⟨offset, -, stands, below⟩
    have fits := (occursAt_length stands).length_le
    have start := occursAt_lt stands
    rw [List.length_drop] at fits
    omega
  have cells : ∀ index < 10, cellOf nestedValues "abcdef abc".toList index =
      cellOf nestedValues "abcdef xyz".toList index := by decide
  have outside : ∀ index < 10, cellOf nestedValues "abcdef abc".toList index = .kept →
      "abcdef abc".toList[index]? = "abcdef xyz".toList[index]? := by decide
  refine ⟨by decide, fun index => ?_, fun index kept => ?_⟩
  · by_cases inside : index < 10
    · exact cells index inside
    · rw [beyond _ (by decide) index (by omega), beyond _ (by decide) index (by omega)]
  · by_cases inside : index < 10
    · exact outside index inside kept
    · rw [List.getElem?_eq_none (Nat.le_of_not_lt inside),
        List.getElem?_eq_none (Nat.le_of_not_lt inside)]

/-- The longer value is masked whole, and the bound cuts the mark of the shorter one, whatever
stands there. -/
theorem redactBounded_masked_nested :
    (∀ index, cellOf nestedValues "abcdef abc".toList index = .kept ↔
      ∀ value ∈ nestedValues, belongs value "abcdef abc".toList index = false) ∧
    redactBounded "abcdef abc".toList nestedValues 14 = "[REDACTED] [RE".toList ∧
    redactBounded "abcdef xyz".toList nestedValues 14 =
      redactBounded "abcdef abc".toList nestedValues 14 := by
  obtain ⟨cells, masked, same⟩ :=
    @redactBounded_masked nestedValues "abcdef abc".toList (by decide) 14
  refine ⟨cells, ?_, same "abcdef xyz".toList (by decide) nested_sameOutside⟩
  rw [masked]
  decide

/-- A value that begins like a longer one leaves the end of it. -/
theorem longer_value_leaks :
    redactBounded "abcdef".toList ["abc".toList, "abcdef".toList] 100 = "[REDACTED]def".toList ∧
      belongs "abcdef".toList "abcdef".toList 3 = true := by
  decide

end Kvist.Evidence
