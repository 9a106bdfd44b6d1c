import Kvist.Markdown.Documents
import Mathlib.Data.List.Perm.Basic

/-!
# What a repair keeps

Every line stays in its section and in its order there. As long as nothing is left open at the end
of the document, each section is read in its new place as it was read before, so that the placeholders
of the empty ones are blockers.
-/

set_option autoImplicit false

namespace Kvist.Markdown

open Text
open Galla (eqIgnoreAsciiCase)

/-! ## Lines in sections -/

variable {headings : List (List Char)} {document front back : List Line} {line : Line}

/-- Each line with the required section that it stands in. The required headings are left out. -/
def placed (headings : List (List Char)) : Option Nat → List Line → List (Option Nat × Line)
  | _, [] => []
  | current, line :: rest =>
      match recognize headings line with
      | some index => placed headings (some index) rest
      | none =>
          let current := if line.heading.any (· ≤ 2) then none else current
          (current, line) :: placed headings current rest

/-- The lines of a required section, or those that stand in none. -/
def inSection (place : Option Nat) (lines : List (Option Nat × Line)) : List Line :=
  (lines.filter fun line => line.1 = place).map (·.2)

def sectionLines (headings : List (List Char)) (place : Option Nat) (document : List Line) :
    List Line :=
  inSection place (placed headings none document)

def unrecognized (headings : List (List Char)) (document : List Line) : List (List Char) :=
  (document.filter fun line => recognize headings line = none).map (·.text)

def texts (document : List Line) : List (List Char) := document.map (·.text)

theorem texts_cons (line : Line) (rest : List Line) :
    texts (line :: rest) = line.text :: texts rest := List.map_cons

theorem placed_recognized {index : Nat} (current : Option Nat)
    (required : recognize headings line = some index) (rest : List Line) :
    placed headings current (line :: rest) = placed headings (some index) rest := by
  rw [placed, required]

theorem placed_other (current : Option Nat) (other : recognize headings line = none)
    (rest : List Line) :
    placed headings current (line :: rest) =
      (if line.heading.any (· ≤ 2) then none else current, line) ::
        placed headings (if line.heading.any (· ≤ 2) then none else current) rest := by
  rw [placed, other]

theorem inSection_cons (place : Option Nat) (line : Option Nat × Line)
    (rest : List (Option Nat × Line)) :
    inSection place (line :: rest) =
      if line.1 = place then line.2 :: inSection place rest else inSection place rest := by
  rw [inSection, inSection]
  rw [List.filter_cons]
  simp only [decide_eq_true_eq]
  split_ifs
  · rw [List.map_cons]
  · rfl

theorem recognize_lt {index : Nat} (required : recognize headings line = some index) :
    index < headings.length := by
  rw [recognize, List.findIdx?_eq_some_iff_getElem] at required
  exact required.1

theorem placed_lines (current : Option Nat) (document : List Line) :
    (placed headings current document).map (·.2) =
      document.filter fun line => recognize headings line = none := by
  induction document generalizing current with
  | nil => rfl
  | cons line rest ih =>
      cases found : recognize headings line with
      | some index =>
          rw [placed_recognized current found, ih,
            List.filter_cons_of_neg (by rw [found]; exact of_decide_eq_false rfl)]
      | none =>
          rw [placed_other current found, List.map_cons, ih,
            List.filter_cons_of_pos (by rw [found]; rfl)]

theorem placed_bounded {current : Option Nat} (bounded : ∀ index ∈ current, index < headings.length)
    {document : List Line} :
    ∀ line ∈ placed headings current document, ∀ index ∈ line.1, index < headings.length := by
  induction document generalizing current with
  | nil => exact fun line member => absurd member List.not_mem_nil
  | cons line rest ih =>
      cases found : recognize headings line with
      | some index =>
          rw [placed_recognized current found]
          refine ih fun other same => ?_
          cases same
          exact recognize_lt found
      | none =>
          have later : ∀ index ∈ (if line.heading.any (· ≤ 2) then none else current),
              index < headings.length := by
            split_ifs
            · exact fun index none => by cases none
            · exact bounded
          rw [placed_other current found]
          intro other member
          rcases List.mem_cons.mp member with rfl | member
          · exact later
          · exact ih later other member

/-! ## Sorting -/

def written (texts : List (List Char)) : List Char := texts.flatMap (· ++ ['\n'])

theorem written_append (front back : List (List Char)) :
    written (front ++ back) = written front ++ written back :=
  List.flatMap_append

theorem written_cons (text : List Char) (rest : List (List Char)) :
    written (text :: rest) = text ++ '\n' :: written rest := by
  rw [written, List.flatMap_cons, List.append_assoc]
  rfl

theorem foldl_sortLine (document : List Line) (sorting : Sorting) :
    (document.foldl (sortLine headings) sorting).extra =
        sorting.extra ++
          written (texts (inSection none (placed headings sorting.current document))) ∧
      ∀ index, (document.foldl (sortLine headings) sorting).bodies[index]? =
        (sorting.bodies[index]?).map (· ++
          written (texts (inSection (some index) (placed headings sorting.current document)))) := by
  induction document generalizing sorting with
  | nil =>
      refine ⟨(List.append_nil _).symm, fun index => ?_⟩
      cases found : sorting.bodies[index]? with
      | none => exact found
      | some body => exact found.trans (congrArg some (List.append_nil body).symm)
  | cons line rest ih =>
      obtain ⟨extra, bodies⟩ := ih (sortLine headings sorting line)
      rw [List.foldl_cons, extra]
      cases found : recognize headings line with
      | some index =>
          rw [placed_recognized _ found]
          have moved : sortLine headings sorting line = { sortLine headings sorting line with
              bodies := sorting.bodies, extra := sorting.extra, current := some index } := by
            rw [sortLine, found]
          rw [moved] at bodies ⊢
          exact ⟨rfl, bodies⟩
      | none =>
          rw [placed_other _ found]
          cases place : (if line.heading.any (· ≤ 2) then none else sorting.current) with
          | none =>
              have moved : sortLine headings sorting line =
                  { sorting with current := none, extra := sorting.extra ++ line.text ++ ['\n'] } := by
                rw [sortLine, found]
                dsimp only
                rw [place]
              rw [moved] at bodies ⊢
              refine ⟨?_, fun index => ?_⟩
              · dsimp only
                rw [inSection_cons, if_pos rfl, texts_cons, written_cons, List.append_assoc,
                  List.append_assoc]
                rfl
              · rw [inSection_cons, if_neg nofun]
                exact bodies index
          | some within =>
              have moved : sortLine headings sorting line =
                  { sorting with
                    current := some within
                    bodies := sorting.bodies.modify within (· ++ line.text ++ ['\n']) } := by
                rw [sortLine, found]
                dsimp only
                rw [place]
              rw [moved] at bodies ⊢
              refine ⟨?_, fun index => ?_⟩
              · rw [inSection_cons, if_neg nofun]
              · rw [bodies index, inSection_cons]
                dsimp only
                by_cases same : within = index
                · obtain rfl := same
                  rw [List.getElem?_modify_eq, if_pos rfl, texts_cons, Option.map_eq_map,
                    Option.map_map]
                  refine Option.map_congr fun body _ => ?_
                  rw [Function.comp_apply, written_cons, List.append_assoc, List.append_assoc]
                  rfl
                · rw [List.getElem?_modify_ne _ _ same,
                    if_neg fun both => same (Option.some_inj.mp both)]

/-- A required section as it is written: its heading between blank lines, a placeholder where it has
no content, and its lines. -/
def filled (heading : List Char) (body : List (List Char)) : List (List Char) :=
  [[], heading, []] ++
    ((if bodyHasContent heading (written body) then []
      else draftLines (placeholderReason heading)) ++ body)

/-- The lines in native order. -/
def arranged (headings : List (List Char)) (document : List Line) : List (List Char) :=
  texts (sectionLines headings none document) ++
    headings.zipIdx.flatMap fun pair =>
      filled pair.1 (texts (sectionLines headings (some pair.2) document))

theorem sectionText_written (heading : List Char) (body : List (List Char)) :
    sectionText heading (written body) = written (filled heading body) := by
  rw [filled, written_append, written_append, sectionText, List.append_assoc]
  refine congrArg₂ _ ?_ (congrArg (· ++ written body) ?_)
  · rw [written_cons, written_cons, written_cons]
    rfl
  · split_ifs
    · rfl
    · rfl

theorem sections_contents (kind : DocumentKind) (contents : List Char) (reasons : List Reason) :
    (sections kind contents reasons).1 =
      written (arranged kind.requiredSections (scan contents)) := by
  rw [sections]
  dsimp only
  obtain ⟨extra, bodies⟩ := @foldl_sortLine kind.requiredSections (scan contents)
    (Sorting.start kind.requiredSections reasons)
  have pairs : kind.requiredSections.zip ((scan contents).foldl (sortLine kind.requiredSections)
      (Sorting.start kind.requiredSections reasons)).bodies =
      kind.requiredSections.zipIdx.map fun pair => (pair.1,
        written (texts (sectionLines kind.requiredSections (some pair.2) (scan contents)))) := by
    refine List.ext_getElem? fun index => ?_
    rw [List.zip, List.getElem?_zipWith, bodies index, List.getElem?_map, List.getElem?_zipIdx,
      Sorting.start, List.getElem?_map]
    cases kind.requiredSections[index]? with
    | none => rfl
    | some heading => 
        simp only [Option.map_some, Nat.zero_add]
        rfl
  rw [extra, pairs, List.flatMap_map, arranged, written_append]
  refine congrArg₂ _ rfl ?_
  rw [written, List.flatMap_assoc]
  exact List.flatMap_congr fun pair _ => sectionText_written pair.1 _

/-! ## What is kept -/

/-- Lines with distinct keys are the lines of each key, up to their order. -/
theorem flatMap_filter_perm {α β : Type} [DecidableEq α] {keys : List α} {pairs : List (α × β)}
    (distinct : keys.Nodup) (within : ∀ pair ∈ pairs, pair.1 ∈ keys) :
    (keys.flatMap fun key => pairs.filter fun pair => pair.1 = key).Perm pairs := by
  induction keys generalizing pairs with
  | nil =>
      have none : pairs = [] := List.eq_nil_iff_forall_not_mem.mpr fun pair member =>
        List.not_mem_nil (within pair member)
      rw [none]
      exact List.Perm.refl _
  | cons key keys ih =>
      rw [List.nodup_cons] at distinct
      have others : ∀ pair ∈ pairs.filter (fun pair => !decide (pair.1 = key)), pair.1 ∈ keys := by
        intro pair member
        rw [List.mem_filter, Bool.not_eq_true', decide_eq_false_iff_not] at member
        exact (List.mem_cons.mp (within pair member.1)).resolve_left member.2
      have same : (keys.flatMap fun other =>
          (pairs.filter fun pair => !decide (pair.1 = key)).filter fun pair => pair.1 = other) =
          keys.flatMap fun other => pairs.filter fun pair => pair.1 = other := by
        refine List.flatMap_congr fun other member => ?_
        rw [List.filter_filter]
        refine List.filter_congr fun pair _ => ?_
        by_cases here : pair.1 = other
        · have apart : pair.1 ≠ key := fun equal => distinct.1 (equal ▸ here ▸ member)
          rw [decide_eq_true here, decide_eq_false apart]
          rfl
        · rw [decide_eq_false here]
          rfl
      have rest := ih distinct.2 others
      rw [same] at rest
      rw [List.flatMap_cons]
      exact (rest.append_left _).trans (List.filter_append_perm _ pairs)

theorem sections_perm (headings : List (List Char)) (document : List Line) :
    (texts (sectionLines headings none document) ++ headings.zipIdx.flatMap fun pair =>
      texts (sectionLines headings (some pair.2) document)).Perm
        (unrecognized headings document) := by
  have distinct : (none :: (List.range headings.length).map some).Nodup := by
    rw [List.nodup_cons, List.nodup_map_iff fun _ _ same => Option.some_inj.mp same]
    refine ⟨fun member => ?_, List.nodup_range⟩
    obtain ⟨index, _, same⟩ := List.mem_map.mp member
    cases same
  have within : ∀ line ∈ placed headings none document,
      line.1 ∈ none :: (List.range headings.length).map some := by
    intro line member
    have bounded := placed_bounded (fun index none => by cases none) line member
    cases place : line.1 with
    | none => exact List.mem_cons_self
    | some index =>
        refine List.mem_cons_of_mem _ (List.mem_map_of_mem (List.mem_range.mpr ?_))
        exact bounded index (by rw [place]; rfl)
  have all := (flatMap_filter_perm distinct within).map fun line => line.2.text
  have remaining : (placed headings none document).map (fun line => line.2.text) =
      unrecognized headings document := by
    rw [unrecognized, ← placed_lines none, List.map_map]
    rfl
  have places : headings.zipIdx.map (·.2) = List.range headings.length := by
    rw [List.zipIdx_map_snd, List.range_eq_range']
  rw [remaining, List.flatMap_cons, List.map_append, List.map_flatMap, ← places, List.map_map,
    List.flatMap_map] at all
  have named : ∀ place, ((placed headings none document).filter fun line => line.1 = place).map
      (fun line => line.2.text) = texts (sectionLines headings place document) := by
    intro place
    rw [texts, sectionLines, inSection, List.map_map]
    rfl
  simp only [named, Function.comp_apply] at all
  exact all

def Added (kind : DocumentKind) (text : List Char) : Prop :=
  text = kind.templateMarker ∨ text = [] ∨
    (∃ heading ∈ kind.requiredSections, eqIgnoreAsciiCase (trimList text) heading = true) ∨
    ∃ heading ∈ kind.requiredSections, text ∈ draftLines (placeholderReason heading)

/-- Each line is kept as often as it was there, and in its order in its section. Either the document
is left as it is behind what is put in front, or the lines of each required section stand together
behind its heading, with nothing between but blank lines and a placeholder. -/
structure KeepsLines (kind : DocumentKind) (original : List Line) (repaired : List (List Char)) :
    Prop where
  multiplicity : ∃ added, repaired.Perm (unrecognized kind.requiredSections original ++ added) ∧
    ∀ text ∈ added, Added kind text
  order : ∀ place, (texts (sectionLines kind.requiredSections place original)).Sublist repaired
  behind : texts original <:+ repaired ∨
    ∀ heading index, (heading, index) ∈ kind.requiredSections.zipIdx →
      ∃ between, (∀ text ∈ between, text = [] ∨ text ∈ draftLines (placeholderReason heading)) ∧
        heading :: (between ++ texts (sectionLines kind.requiredSections (some index) original)) <:+:
          repaired

theorem sectionLines_sublist (headings : List (List Char)) (place : Option Nat)
    (document : List Line) :
    (texts (sectionLines headings place document)).Sublist (texts document) := by
  have placed : ((placed headings none document).map (·.2)).Sublist document := by
    rw [placed_lines]
    exact List.filter_sublist
  exact ((List.filter_sublist.map _).trans placed).map _

theorem recognize_spelled {index : Nat} (required : recognize headings line = some index) :
    ∃ heading ∈ headings, eqIgnoreAsciiCase (trimList line.text) heading = true := by
  rw [recognize, List.findIdx?_eq_some_iff_getElem] at required
  obtain ⟨bound, matched, _⟩ := required
  rw [Bool.and_eq_true] at matched
  exact ⟨headings[index], List.getElem_mem bound, matched.2⟩

theorem keepsLines_self (kind : DocumentKind) (document : List Line) :
    KeepsLines kind document (texts document) where
  multiplicity := by
    refine ⟨(document.filter fun line => !decide
      (recognize kind.requiredSections line = none)).map (·.text), ?_, ?_⟩
    · rw [unrecognized, ← List.map_append]
      exact ((List.filter_append_perm _ document).map _).symm
    · intro text member
      obtain ⟨line, inside, rfl⟩ := List.mem_map.mp member
      have required := (List.mem_filter.mp inside).2
      rw [Bool.not_eq_true', decide_eq_false_iff_not, ← Ne.eq_def,
        Option.ne_none_iff_exists'] at required
      obtain ⟨index, required⟩ := required
      exact .inr (.inr (.inl (recognize_spelled required)))
  order := fun place => sectionLines_sublist _ place document
  behind := .inl List.suffix_rfl

theorem heading_spelled (kind : DocumentKind) : ∀ heading ∈ kind.requiredSections,
    eqIgnoreAsciiCase (trimList heading) heading = true := by
  cases kind <;> rw [DocumentKind.requiredSections] <;> repeat rw [String.toList_ofList]
  all_goals decide

theorem mem_headings_of_sectionLines {index : Nat}
    (member : line ∈ sectionLines headings (some index) document) : index < headings.length := by
  obtain ⟨pair, inside, _⟩ := List.mem_map.mp member
  obtain ⟨placedThere, place⟩ := List.mem_filter.mp inside
  exact placed_bounded (fun index none => by cases none) pair placedThere index
    (of_decide_eq_true place)

theorem sectionLines_infix_filled (heading : List Char) (body : List (List Char)) :
    body <:+: filled heading body :=
  ((List.suffix_append _ body).trans (List.suffix_append _ _)).isInfix

theorem filled_between (heading : List Char) (body : List (List Char)) :
    ∃ between, filled heading body = [] :: heading :: (between ++ body) ∧
      ∀ text ∈ between, text = [] ∨ text ∈ draftLines (placeholderReason heading) := by
  refine ⟨[] :: if bodyHasContent heading (written body) then []
    else draftLines (placeholderReason heading), rfl, List.forall_mem_cons.mpr ⟨.inl rfl, ?_⟩⟩
  intro text member
  split_ifs at member
  · exact absurd member List.not_mem_nil
  · exact .inr member

theorem filled_infix_arranged {heading : List Char} {index : Nat}
    (required : (heading, index) ∈ headings.zipIdx) (document : List Line) :
    filled heading (texts (sectionLines headings (some index) document)) <:+:
      arranged headings document := by
  obtain ⟨before, after, parts⟩ := List.append_of_mem required
  rw [arranged, parts, List.flatMap_append, List.flatMap_cons, ← List.append_assoc,
    ← List.append_assoc]
  exact List.infix_append _ _ _

/-- Lines that are put in native order are kept. -/
theorem keepsLines_arranged (kind : DocumentKind) (document : List Line) :
    KeepsLines kind document (arranged kind.requiredSections document) where
  multiplicity := by
    let headings := kind.requiredSections
    let added : List Char × Nat → List (List Char) := fun pair =>
      [[], pair.1, []] ++
        if bodyHasContent pair.1 (written (texts (sectionLines headings (some pair.2) document)))
        then [] else draftLines (placeholderReason pair.1)
    have filledEq : ∀ pair ∈ headings.zipIdx,
        filled pair.1 (texts (sectionLines headings (some pair.2) document)) =
          added pair ++ texts (sectionLines headings (some pair.2) document) :=
      fun pair _ => (List.append_assoc _ _ _).symm
    refine ⟨headings.zipIdx.flatMap added, ?_, ?_⟩
    · rw [arranged, List.flatMap_congr filledEq]
      have split := (List.flatMap_append_perm headings.zipIdx added fun pair =>
        texts (sectionLines headings (some pair.2) document)).symm
      refine (split.append_left _).trans ?_
      refine (List.perm_append_comm.append_left _).trans ?_
      rw [← List.append_assoc]
      exact (sections_perm headings document).append_right _
    · intro text member
      obtain ⟨pair, inside, member⟩ := List.mem_flatMap.mp member
      have heading : pair.1 ∈ headings := List.fst_mem_of_mem_zipIdx inside
      rcases List.mem_append.mp member with fixed | drafted
      · simp only [List.mem_cons, List.not_mem_nil, or_false] at fixed
        rcases fixed with blank | same | blank
        · exact .inr (.inl blank)
        · exact .inr (.inr (.inl ⟨pair.1, heading, same ▸ heading_spelled kind pair.1 heading⟩))
        · exact .inr (.inl blank)
      · split_ifs at drafted
        · exact absurd drafted List.not_mem_nil
        · exact .inr (.inr (.inr ⟨pair.1, heading, drafted⟩))
  order := by
    intro place
    cases place with
    | none => exact List.sublist_append_left _ _
    | some index =>
        cases found : kind.requiredSections[index]? with
        | some heading =>
            have required := List.mk_mem_zipIdx_iff_getElem?.mpr found
            exact ((sectionLines_infix_filled heading _).trans
              (filled_infix_arranged required document)).sublist
        | none =>
            have empty : sectionLines kind.requiredSections (some index) document = [] :=
              List.eq_nil_iff_forall_not_mem.mpr fun line member => absurd
                (mem_headings_of_sectionLines member)
                (Nat.not_lt.mpr (List.getElem?_eq_none_iff.mp found))
            rw [empty]
            exact List.nil_sublist _
  behind := by
    refine .inr fun heading index required => ?_
    obtain ⟨between, parts, blank⟩ := filled_between heading
      (texts (sectionLines kind.requiredSections (some index) document))
    refine ⟨between, blank, List.IsInfix.trans ?_ (filled_infix_arranged required document)⟩
    rw [parts]
    exact (List.suffix_cons _ _).isInfix

/-! ## Reading a section by itself -/

theorem commentAfter_plain {text : List Char} (plain : '<' ∉ text) :
    commentAfter false text = false := by
  induction text with
  | nil => rfl
  | cons character rest ih =>
      rw [List.mem_cons, not_or] at plain
      rw [commentAfter.eq_4]
      · exact ih plain.2
      · rintro _ _ rfl _
        exact plain.1 rfl
      · intro _ impossible
        cases impossible

/-- A line that is no fence and closes its comments leaves nothing open. -/
theorem next_start {text : List Char} (unfenced : fenceStart text = none)
    (closed : commentAfter false text = false) : next .start text = .start := by
  have run : fenceRun text = 0 := by rw [fenceRun, unfenced]
  have fence : fenceAfter .start text = none := by
    rw [fenceAfter, run, unfenced]
    rfl
  rw [next, isCode, fence]
  exact congrArg (Scanner.mk none) closed

theorem fenceStart_of_headingLevel {text : List Char} {level : Nat}
    (heading : headingLevel text = some level) : fenceStart text = none := by
  rw [headingLevel] at heading
  split_ifs at heading with marked
  cases shown : unindented text with
  | nil => rw [fenceStart, shown]; rfl
  | cons first rest =>
      rw [shown, List.takeWhile_cons] at marked
      by_cases hash : first = '#'
      · rw [fenceStart, shown, hash]
        simp
      · rw [decide_eq_false hash] at marked
        exact absurd marked.1 (Nat.lt_irrefl _)

theorem heading_unmarked (kind : DocumentKind) : ∀ heading ∈ kind.requiredSections,
    '<' ∉ Galla.toAsciiLowercase heading := by
  cases kind <;> rw [DocumentKind.requiredSections] <;> repeat rw [String.toList_ofList]
  all_goals decide

/-- A required heading leaves nothing open. -/
theorem next_recognized {kind : DocumentKind} {text : List Char} {index : Nat}
    (required : recognize kind.requiredSections (readLine .start text) = some index) :
    next .start text = .start := by
  have spelled := recognize_spelled required
  obtain ⟨heading, member, same⟩ := spelled
  rw [recognize, List.findIdx?_eq_some_iff_getElem] at required
  obtain ⟨_, matched, _⟩ := required
  rw [Bool.and_eq_true, decide_eq_true_iff] at matched
  have level : headingLevel text = some 2 := by
    have found := matched.1
    rw [readLine] at found
    dsimp only at found
    split_ifs at found
    exact found
  refine next_start (fenceStart_of_headingLevel level) (commentAfter_plain fun inside => ?_)
  rcases isWhitespace_or_mem_trimList inside with blank | shown
  · exact absurd blank (by decide)
  · have lowered : Galla.toAsciiLowercase (trimList text) = Galla.toAsciiLowercase heading :=
      eq_of_beq same
    have mark : '<' ∈ Galla.toAsciiLowercase (trimList text) := List.mem_map.mpr ⟨'<', shown, rfl⟩
    rw [lowered] at mark
    exact heading_unmarked kind heading member mark

/-- The lines of a section are read by themselves as they are read in the document. What is open at
their end is what is open at the end of the document, where the section is the last one. -/
theorem readLines_inSection (kind : DocumentKind) (lines : List (List Char)) (scanner : Scanner)
    (current place : Option Nat) :
    readLines (if place = current then scanner else .start)
        (texts (inSection place (placed kind.requiredSections current (readLines scanner lines)))) =
        inSection place (placed kind.requiredSections current (readLines scanner lines)) ∧
      (behind scanner lines = .start →
        behind (if place = current then scanner else .start)
          (texts (inSection place (placed kind.requiredSections current (readLines scanner lines)))) =
        .start) := by
  induction lines generalizing scanner current with
  | nil =>
      refine ⟨rfl, fun ended => ?_⟩
      obtain rfl : scanner = .start := ended
      rw [ite_self]
      rfl
  | cons text rest ih =>
      have ended : behind scanner (text :: rest) = behind (next scanner text) rest := rfl
      rw [readLines, ended]
      cases found : recognize kind.requiredSections (readLine scanner text) with
      | some index =>
          have heading : (readLine scanner text).heading = some 2 := by
            have required := found
            rw [recognize, List.findIdx?_eq_some_iff_getElem] at required
            obtain ⟨_, matched, _⟩ := required
            rw [Bool.and_eq_true, decide_eq_true_iff] at matched
            exact matched.1
          obtain rfl := start_of_heading heading
          rw [placed_recognized _ found, next_recognized found, ite_self]
          have later := ih .start (some index)
          rw [ite_self] at later
          exact later
      | none =>
          rw [placed_other _ found, inSection_cons]
          dsimp only
          generalize moved :
            (if (readLine scanner text).heading.any (· ≤ 2) then none else current) = later
          -- A heading that ends the section stands where nothing is open.
          have same : (if place = current then scanner else .start) =
              if place = later then scanner else .start := by
            split_ifs at moved with ends
            · obtain ⟨level, heading, _⟩ := (Option.any_eq_true _ _).mp ends
              rw [start_of_heading heading, ite_self, ite_self]
            · rw [moved]
          obtain ⟨read, closed⟩ := ih (next scanner text) later
          rw [same]
          by_cases here : place = later
          · rw [if_pos here] at read closed
            rw [if_pos here, if_pos here.symm, texts_cons]
            exact ⟨congrArg (readLine scanner text :: ·) read, closed⟩
          · rw [if_neg here] at read closed
            rw [if_neg here, if_neg (Ne.symm here)]
            exact ⟨read, closed⟩

/-! ## Content -/

/-- The line begins no section. -/
def belongs (line : Line) : Bool := line.heading.all (2 < ·)

theorem placed_belongs {current : Option Nat} {document : List Line} :
    ∀ line ∈ placed headings current document, line.1 ≠ none → belongs line.2 = true := by
  induction document generalizing current with
  | nil => exact fun line member => absurd member List.not_mem_nil
  | cons line rest ih =>
      cases found : recognize headings line with
      | some index =>
          rw [placed_recognized current found]
          exact ih
      | none =>
          rw [placed_other current found]
          intro other member some
          rcases List.mem_cons.mp member with rfl | later
          · dsimp only at some ⊢
            split_ifs at some with ends
            · exact absurd rfl some
            · rw [belongs]
              cases heading : line.heading with
              | none => rfl
              | some level =>
                  rw [heading] at ends
                  have deep : ¬level ≤ 2 := fun low => ends (decide_eq_true low)
                  exact decide_eq_true (Nat.lt_of_not_le deep)
          · exact ih other later some

theorem sectionLines_belong {index : Nat} :
    ∀ line ∈ sectionLines headings (some index) document, belongs line = true := by
  intro line member
  obtain ⟨pair, inside, rfl⟩ := List.mem_map.mp member
  obtain ⟨placedThere, place⟩ := List.mem_filter.mp inside
  exact placed_belongs pair placedThere (by rw [of_decide_eq_true place]; exact nofun)

theorem sectionHasContent_behind {heading : Line} (level : heading.heading = some 2)
    (belong : ∀ line ∈ document, belongs line = true) :
    sectionHasContent (heading :: document) 0 = document.any Line.isContent := by
  have whole : document.takeWhile belongs = document :=
    List.takeWhile_eq_self_iff.mpr belong
  have levelAt : (((heading :: document)[0]?).bind (·.heading)).getD 2 = 2 := by
    rw [List.getElem?_cons_zero, Option.bind_some, level, Option.getD_some]
  rw [sectionHasContent, levelAt]
  exact congrArg (List.any · Line.isContent) whole

/-- The text can be read back from lines. -/
def Plain (text : List Char) : Prop := '\n' ∉ text ∧ text.getLast? ≠ some '\r'

instance (text : List Char) : Decidable (Plain text) := instDecidableAnd

theorem heading_read (kind : DocumentKind) : ∀ heading ∈ kind.requiredSections,
    Plain heading ∧ heading ≠ [] ∧ (readLine .start heading).heading = some 2 ∧
      fenceStart heading = none ∧ '<' ∉ heading := by
  cases kind <;> rw [DocumentKind.requiredSections] <;> repeat rw [String.toList_ofList]
  all_goals decide

def shape (line : Line) : Option Nat × Bool := (line.heading, line.isContent)

theorem shape_unreturned (line : Line) : shape line.unreturned = shape line :=
  Prod.ext rfl (isContent_unreturned line)

theorem sectionHasContent_congr {other : List Line}
    (same : document.map shape = other.map shape) (index : Nat) :
    sectionHasContent document index = sectionHasContent other index := by
  have shapes : ∀ lines : List Line, sectionHasContent lines index =
      (((lines.map shape).drop (index + 1)).takeWhile fun line => line.1.all fun heading =>
        (((lines.map shape)[index]?).bind (·.1)).getD 2 < heading).any (·.2) := by
    intro lines
    have level : ((lines.map shape)[index]?).bind (·.1) =
        (lines[index]?).bind (·.heading) := by
      rw [List.getElem?_map]
      cases lines[index]? with
      | none => rfl
      | some line => rfl
    rw [sectionHasContent, level, ← List.map_drop, List.takeWhile_map, List.any_map]
    rfl
  rw [shapes, shapes, same]

theorem sectionHasContent_read {kind : DocumentKind} {heading last : List Char}
    {lines front : List (List Char)} (required : heading ∈ kind.requiredSections)
    (parts : heading :: lines = front ++ [last]) (read : readLines .start lines = document)
    (belong : ∀ line ∈ document, belongs line = true) :
    sectionHasContent (readLines .start
      (front.map dropCarriageReturn ++ if last = [] then [] else [last])) 0 =
        document.any Line.isContent := by
  obtain ⟨_, nonempty, level, unfenced, unmarked⟩ := heading_read kind heading required
  have closed := next_start unfenced (commentAfter_plain unmarked)
  have same : (readLines .start
      (front.map dropCarriageReturn ++ if last = [] then [] else [last])).map shape =
        (readLines .start (front ++ if last = [] then [] else [last])).map shape := by
    obtain ⟨unreturned, behind⟩ := readLines_dropCarriageReturn .start front
    rw [readLines_append, unreturned, behind, readLines_append, List.map_append, List.map_append,
      List.map_map, funext (f := shape ∘ Line.unreturned) shape_unreturned]
  rw [sectionHasContent_congr same]
  split_ifs with ended
  · rw [ended] at parts
    cases front with
    | nil => exact absurd (List.cons.inj parts).1 nonempty
    | cons first front =>
        obtain ⟨rfl, rfl⟩ := List.cons.inj parts
        rw [List.append_eq, readLines_append] at read
        rw [List.append_nil, readLines, closed, sectionHasContent_behind level, ← read,
          List.any_append]
        · exact (Bool.or_false _).symm
        · exact fun line member => belong line (read ▸ List.mem_append_left _ member)
  · rw [← parts, readLines, closed, read, sectionHasContent_behind level belong]

theorem any_unreturned (document : List Line) :
    (document.map Line.unreturned).any Line.isContent = document.any Line.isContent := by
  rw [List.any_map]
  exact congrArg (List.any document) (funext isContent_unreturned)

theorem bodyHasContent_eq {kind : DocumentKind} {heading : List Char} {index : Nat}
    {lines : List (List Char)} (required : heading ∈ kind.requiredSections)
    (unbroken : ∀ text ∈ lines, '\n' ∉ text) :
    bodyHasContent heading (written (texts
        (sectionLines kind.requiredSections (some index) (readLines .start lines)))) =
      (sectionLines kind.requiredSections (some index) (readLines .start lines)).any
        Line.isContent := by
  have read := (readLines_inSection kind lines .start none (some index)).1
  rw [if_neg nofun, ← sectionLines] at read
  have belong := @sectionLines_belong kind.requiredSections (readLines .start lines) index
  have inner : ∀ text ∈ texts (sectionLines kind.requiredSections (some index)
      (readLines .start lines)), '\n' ∉ text := by
    intro text member
    have inside := (sectionLines_sublist _ _ _).subset member
    rw [texts, readLines_texts] at inside
    exact unbroken text inside
  generalize sectionLines kind.requiredSections (some index) (readLines .start lines) = body
    at read belong inner
  have all : ∀ text ∈ heading :: (texts body).map dropCarriageReturn, '\n' ∉ text := by
    refine List.forall_mem_cons.mpr ⟨(heading_read kind heading required).1.1, fun text member => ?_⟩
    obtain ⟨whole, inside, rfl⟩ := List.mem_map.mp member
    exact fun feed => inner whole inside (( dropCarriageReturn_prefix whole).subset feed)
  have unreturned : readLines .start ((texts body).map dropCarriageReturn) =
      body.map Line.unreturned := by
    rw [(readLines_dropCarriageReturn .start _).1, read]
  have belongToo : ∀ line ∈ body.map Line.unreturned, belongs line = true := by
    intro line member
    obtain ⟨whole, inside, rfl⟩ := List.mem_map.mp member
    exact belong whole inside
  obtain none | ⟨front, last, parts⟩ :=
    List.eq_nil_or_concat (heading :: (texts body).map dropCarriageReturn)
  · cases none
  · rw [List.concat_eq_append] at parts
    rw [parts] at all
    rw [bodyHasContent, written, lines_unbroken inner, scan, parts, lines_joinLines all,
      sectionHasContent_read required parts unreturned belongToo, any_unreturned]

/-! ## Valid documents -/

def Present (document : List Line) (heading : List Char) : Prop :=
  ∃ index, occurrences document heading = [index] ∧ sectionHasContent document index = true

theorem checkSection_clean {state : Nat × List Diagnostic} {heading : List Char}
    (clean : (checkSection document state heading).2 = []) :
    state.2 = [] ∧ Present document heading := by
  rw [checkSection] at clean
  split at clean
  · exact absurd (List.append_eq_nil_iff.mp clean).2 (List.cons_ne_nil _ _)
  · next index found =>
      rw [List.append_eq_nil_iff, List.append_eq_nil_iff] at clean
      obtain ⟨⟨before, _⟩, full⟩ := clean
      split_ifs at full with content
      exact ⟨before, index, found, content⟩
  · exact absurd (List.append_eq_nil_iff.mp clean).2 (List.cons_ne_nil _ _)

theorem foldl_checkSection_clean {state : Nat × List Diagnostic}
    (clean : (headings.foldl (checkSection document) state).2 = []) :
    state.2 = [] ∧ ∀ heading ∈ headings, Present document heading := by
  induction headings generalizing state with
  | nil => exact ⟨clean, fun heading member => absurd member List.not_mem_nil⟩
  | cons heading rest ih =>
      obtain ⟨before, later⟩ := ih clean
      obtain ⟨start, present⟩ := checkSection_clean before
      exact ⟨start, List.forall_mem_cons.mpr ⟨present, later⟩⟩

def isClean (kind : DocumentKind) (contents : List Char) : Bool :=
  (kind.requiredSections.foldl (checkSection (scan contents))
    (0, (validateTemplateVersion kind (lines contents)).2)).2.isEmpty

theorem isValid_eq (kind : DocumentKind) (contents : List Char) :
    (validate kind contents).isValid = isClean kind contents := by
  have same := List.mergeSort_perm (kind.requiredSections.foldl (checkSection (scan contents))
    (0, (validateTemplateVersion kind (lines contents)).2)).2 diagnosticOrder
  exact same.isEmpty_eq

theorem present_of_valid {kind : DocumentKind} {contents : List Char}
    (valid : (validate kind contents).isValid = true) :
    ∀ heading ∈ kind.requiredSections, Present (scan contents) heading := by
  rw [isValid_eq, isClean, List.isEmpty_iff] at valid
  exact (foldl_checkSection_clean valid).2

theorem recognize_heading (kind : DocumentKind) :
    ∀ pair ∈ kind.requiredSections.zipIdx, ∀ code comment,
      recognize kind.requiredSections ⟨pair.1, some 2, code, comment⟩ = some pair.2 := by
  cases kind <;> rw [DocumentKind.requiredSections] <;> repeat rw [String.toList_ofList]
  all_goals decide

/-- Behind some lines, the rest is placed from where they have led to. -/
theorem placed_append (current : Option Nat) (front back : List Line) :
    ∃ before later, placed headings current (front ++ back) = before ++ placed headings later back := by
  induction front generalizing current with
  | nil => exact ⟨[], current, rfl⟩
  | cons line rest ih =>
      rw [List.cons_append]
      cases found : recognize headings line with
      | some index =>
          rw [placed_recognized current found]
          exact ih (some index)
      | none =>
          obtain ⟨before, later, same⟩ := ih (if line.heading.any (· ≤ 2) then none else current)
          rw [placed_other current found, same]
          exact ⟨_ :: before, later, rfl⟩

theorem recognize_belongs (belong : belongs line = true) : recognize headings line = none := by
  rw [recognize, List.findIdx?_eq_none_iff]
  intro heading _
  rw [Bool.and_eq_false_iff, decide_eq_false_iff_not]
  refine .inl fun level => ?_
  rw [belongs, level] at belong
  exact absurd belong (by decide)

/-- The lines behind a heading stand in its section up to the next one. -/
theorem mem_placed_behind {index : Nat} (member : line ∈ document.takeWhile belongs) :
    (some index, line) ∈ placed headings (some index) document := by
  induction document with
  | nil => exact absurd member List.not_mem_nil
  | cons first rest ih =>
      rw [List.takeWhile_cons] at member
      split_ifs at member with belong
      · have stays : first.heading.any (· ≤ 2) = false := by
          rw [belongs] at belong
          cases heading : first.heading with
          | none => rfl
          | some level =>
              rw [heading] at belong
              have deep : 2 < level := of_decide_eq_true belong
              exact decide_eq_false (Nat.not_le.mpr deep)
        rw [placed_other _ (recognize_belongs belong), stays, if_neg Bool.false_ne_true]
        rcases List.mem_cons.mp member with rfl | later
        · exact List.mem_cons_self
        · exact List.mem_cons_of_mem _ (ih later)
      · exact absurd member List.not_mem_nil

theorem content_of_present {kind : DocumentKind} {heading : List Char} {index : Nat}
    (required : (heading, index) ∈ kind.requiredSections.zipIdx)
    (present : Present document heading) :
    (sectionLines kind.requiredSections (some index) document).any Line.isContent = true := by
  obtain ⟨place, found, content⟩ := present
  have standing : place ∈ occurrences document heading := found ▸ List.mem_singleton_self _
  obtain ⟨pair, inside, rfl⟩ := List.mem_map.mp standing
  obtain ⟨member, matched⟩ := List.mem_filter.mp inside
  rw [Bool.and_eq_true, decide_eq_true_iff, decide_eq_true_iff] at matched
  have line := List.mem_zipIdx_iff_getElem?.mp member
  obtain ⟨bound, line⟩ := List.getElem?_eq_some_iff.mp line
  have parts : document = document.take pair.2 ++ pair.1 :: document.drop (pair.2 + 1) := by
    rw [← line, ← List.drop_eq_getElem_cons bound, List.take_append_drop]
  have known : recognize kind.requiredSections pair.1 = some index := by
    have same := recognize_heading kind _ required pair.1.code pair.1.comment
    rw [← same]
    exact congrArg₂ (fun text heading => recognize kind.requiredSections
      ⟨text, heading, pair.1.code, pair.1.comment⟩) matched.1 matched.2
  obtain ⟨before, later, split⟩ := @placed_append kind.requiredSections none
    (document.take pair.2) (pair.1 :: document.drop (pair.2 + 1))
  rw [← parts, placed_recognized later known] at split
  have level : ((document[pair.2]?).bind (·.heading)).getD 2 = 2 := by
    rw [List.getElem?_eq_some_iff.mpr ⟨bound, line⟩, Option.bind_some, matched.2, Option.getD_some]
  rw [sectionHasContent, level] at content
  obtain ⟨found, inside, spoken⟩ := List.any_eq_true.mp content
  refine List.any_eq_true.mpr ⟨found, ?_, spoken⟩
  rw [sectionLines, inSection, split]
  refine List.mem_map.mpr ⟨(some index, found), List.mem_filter.mpr ⟨?_, decide_eq_true rfl⟩, rfl⟩
  exact List.mem_append_right _ (mem_placed_behind inside)

/-! ## The marker -/

theorem marker_read (kind : DocumentKind) :
    Plain kind.templateMarker ∧ (trimList kind.templateMarker).isEmpty = false ∧
      fenceStart kind.templateMarker = none ∧ commentAfter false kind.templateMarker = false ∧
      (readLine .start kind.templateMarker).heading = none ∧
      ((splitOnce ':' (trimStartMatches commentStart kind.templateMarker)).map
        fun parts => trimList parts.1) = some kind.marker ∧
      declaresOtherVersion kind.marker kind.templateMarker = false := by
  cases kind with
  | requirements => decide
  | contract => decide
  | design => decide

theorem marker_nonempty (kind : DocumentKind) : kind.templateMarker ≠ [] := by
  cases kind with
  | requirements => decide
  | contract => decide
  | design => decide

theorem next_marker (kind : DocumentKind) : next .start kind.templateMarker = .start := by
  obtain ⟨_, _, unfenced, closed, _⟩ := marker_read kind
  exact next_start unfenced closed

theorem recognize_marker (kind : DocumentKind) :
    recognize headings (readLine .start kind.templateMarker) = none := by
  obtain ⟨_, _, _, _, heading, _⟩ := marker_read kind
  refine recognize_belongs ?_
  rw [belongs, heading]
  rfl

def Marked (kind : DocumentKind) (contents : List Char) : Prop :=
  ∃ rest, lines contents = kind.templateMarker :: rest

/-- The marker is there already, or it is put in front of all lines. -/
theorem lines_withMarker (kind : DocumentKind) (contents : List Char) :
    ((withMarker kind contents).1 = contents ∧ Marked kind contents) ∨
      lines (withMarker kind contents).1 = kind.templateMarker :: lines contents := by
  rw [withMarker]
  split_ifs with first
  · refine .inl ⟨rfl, ?_⟩
    cases shown : lines contents with
    | nil =>
        rw [shown] at first
        exact absurd first.symm (marker_nonempty kind)
    | cons line rest =>
        rw [shown] at first
        exact ⟨rest, shown.trans (congrArg (· :: rest) first)⟩
  · obtain ⟨plain, _⟩ := marker_read kind
    exact .inr (lines_cons plain.1 plain.2 contents)

theorem marked_withMarker (kind : DocumentKind) (contents : List Char) :
    Marked kind (withMarker kind contents).1 := by
  rcases lines_withMarker kind contents with ⟨same, marked⟩ | added
  · rw [same]
    exact marked
  · exact ⟨_, added⟩

theorem scan_marker {kind : DocumentKind} {contents : List Char} {rest : List (List Char)}
    (marked : lines contents = kind.templateMarker :: rest) :
    scan contents = readLine .start kind.templateMarker :: readLines .start rest := by
  rw [scan, marked, readLines, next_marker]

theorem placed_marker (kind : DocumentKind) (document : List Line) :
    placed headings none (readLine .start kind.templateMarker :: document) =
      (none, readLine .start kind.templateMarker) :: placed headings none document := by
  rw [placed_other none (recognize_marker kind), ite_self]

theorem sectionLines_marker {kind : DocumentKind} (index : Nat) (document : List Line) :
    sectionLines headings (some index) (readLine .start kind.templateMarker :: document) =
      sectionLines headings (some index) document := by
  rw [sectionLines, placed_marker, inSection_cons, if_neg nofun]
  rfl

theorem sectionLines_marker_none {kind : DocumentKind} (document : List Line) :
    sectionLines headings none (readLine .start kind.templateMarker :: document) =
      readLine .start kind.templateMarker :: sectionLines headings none document := by
  rw [sectionLines, placed_marker, inSection_cons, if_pos rfl]
  rfl

/-- What is kept with the marker in front is kept. -/
theorem KeepsLines.unmarked {kind : DocumentKind} {repaired : List (List Char)}
    (keeps : KeepsLines kind (readLine .start kind.templateMarker :: document) repaired) :
    KeepsLines kind document repaired where
  multiplicity := by
    obtain ⟨added, same, known⟩ := keeps.multiplicity
    have first : unrecognized kind.requiredSections
        (readLine .start kind.templateMarker :: document) =
        kind.templateMarker :: unrecognized kind.requiredSections document := by
      rw [unrecognized, List.filter_cons_of_pos (by rw [recognize_marker]; rfl), List.map_cons]
      rfl
    rw [first] at same
    exact ⟨kind.templateMarker :: added, same.trans List.perm_middle.symm,
      List.forall_mem_cons.mpr ⟨.inl rfl, known⟩⟩
  order := by
    intro place
    have order := keeps.order place
    cases place with
    | none =>
        rw [sectionLines_marker_none, texts_cons] at order
        exact (List.sublist_cons_self _ _).trans order
    | some index =>
        rw [sectionLines_marker] at order
        exact order
  behind := by
    rcases keeps.behind with whole | together
    · rw [texts_cons] at whole
      exact .inl ((List.suffix_cons _ _).trans whole)
    · refine .inr fun heading index required => ?_
      obtain ⟨between, blank, stands⟩ := together heading index required
      rw [sectionLines_marker] at stands
      exact ⟨between, blank, stands⟩

/-! ## Repairs -/

theorem candidate_ok {kind : DocumentKind} {contents : List Char} {result : Candidate}
    (accepted : candidate kind contents = .ok result) :
    (validate kind result.contents).isValid = true ∧
      ByteText.byteLength result.contents ≤ maxComponentDocumentBytes ∧
      (((validate kind (withMarker kind contents).1).isValid = true ∧
          result.contents = (withMarker kind contents).1) ∨
        result.contents =
          written (arranged kind.requiredSections (scan (withMarker kind contents).1))) := by
  rw [candidate, bind_ok_iff] at accepted
  obtain ⟨markerName, _, accepted⟩ := accepted
  rw [bind_unit_ok_iff, bind_unit_ok_iff, bind_unit_ok_iff, ensure_ok_iff, ensure_ok_iff,
    ensure_ok_iff] at accepted
  obtain ⟨_, valid, small, same⟩ := accepted
  rw [pure_eq_ok, Except.ok.injEq] at same
  rw [← same]
  refine ⟨valid, of_decide_eq_true small, ?_⟩
  split_ifs with already
  · exact .inl ⟨already, rfl⟩
  · exact .inr (sections_contents kind _ _)

theorem candidate_valid {kind : DocumentKind} {contents : List Char}
    (marked : Marked kind contents) (valid : (validate kind contents).isValid = true)
    (small : ByteText.byteLength contents ≤ maxComponentDocumentBytes) :
    candidate kind contents = .ok ⟨contents, [.recoveryDraft]⟩ := by
  obtain ⟨rest, shown⟩ := marked
  obtain ⟨_, visible, _, _, _, name, current⟩ := marker_read kind
  have declared : ((lines contents).find? fun line => !(trimList line).isEmpty).getD [] =
      kind.templateMarker := by
    rw [shown, List.find?_cons_of_pos (by rw [visible]; rfl), Option.getD_some]
  have same : withMarker kind contents = (contents, []) := by
    rw [withMarker, shown, List.head?_cons, Option.getD_some, if_pos rfl]
  rw [candidate, name, okOr_some, ok_bind, declared]
  dsimp only
  rw [current, same]
  dsimp only
  rw [valid, if_pos rfl, valid, decide_eq_true small]
  rfl

theorem marked_arranged {kind : DocumentKind} {contents : List Char}
    (marked : Marked kind contents) :
    Marked kind (written (arranged kind.requiredSections (scan contents))) := by
  obtain ⟨rest, shown⟩ := marked
  obtain ⟨plain, _⟩ := marker_read kind
  rw [Marked, scan_marker shown, arranged, sectionLines_marker_none, texts_cons, List.cons_append,
    written_cons]
  exact ⟨_, lines_cons plain.1 plain.2 _⟩

/-! ## Lines of the result -/

theorem draft_read (kind : DocumentKind) : ∀ heading ∈ kind.requiredSections,
    (∀ text ∈ draftLines (placeholderReason heading),
      Plain text ∧ fenceStart text = none ∧ commentAfter false text = false) ∧
    ∀ text ∈ (draftLines (placeholderReason heading)).head?,
      blockerReason (readLine .start text) = some (placeholderReason heading) := by
  delta draftLines placeholderReason blockerReason blockerPrefix commentEnd
  repeat rw [String.toList_ofList]
  cases kind <;> rw [DocumentKind.requiredSections] <;> repeat rw [String.toList_ofList]
  all_goals decide

theorem mem_filled {heading text : List Char} {body : List (List Char)}
    (member : text ∈ filled heading body) :
    text = [] ∨ text = heading ∨ text ∈ draftLines (placeholderReason heading) ∨ text ∈ body := by
  rw [filled, List.mem_append, List.mem_append] at member
  rcases member with fixed | drafted | inside
  · simp only [List.mem_cons, List.not_mem_nil, or_false] at fixed
    rcases fixed with blank | same | blank
    · exact .inl blank
    · exact .inr (.inl same)
    · exact .inl blank
  · split_ifs at drafted
    · exact absurd drafted List.not_mem_nil
    · exact .inr (.inr (.inl drafted))
  · exact .inr (.inr (.inr inside))

theorem arranged_unbroken {kind : DocumentKind} {document : List Line}
    (unbroken : ∀ text ∈ texts document, '\n' ∉ text) :
    ∀ text ∈ arranged kind.requiredSections document, '\n' ∉ text := by
  have body : ∀ place, ∀ text ∈ texts (sectionLines kind.requiredSections place document),
      '\n' ∉ text :=
    fun place text member => unbroken text ((sectionLines_sublist _ _ _).subset member)
  intro text member
  rcases List.mem_append.mp member with extra | inside
  · exact body none text extra
  · obtain ⟨pair, required, inside⟩ := List.mem_flatMap.mp inside
    have heading := List.fst_mem_of_mem_zipIdx required
    rcases mem_filled inside with rfl | rfl | drafted | kept
    · exact List.not_mem_nil
    · exact (heading_read kind _ heading).1.1
    · exact ((draft_read kind _ heading).1 text drafted).1.1
    · exact body (some pair.2) text kept

theorem behind_flatMap {α : Type} {pieces : List α} {texts : α → List (List Char)}
    (closed : ∀ piece ∈ pieces, behind .start (texts piece) = .start) :
    behind .start (pieces.flatMap texts) = .start := by
  induction pieces with
  | nil => rfl
  | cons piece rest ih =>
      rw [List.flatMap_cons, behind_append, closed piece List.mem_cons_self]
      exact ih fun other member => closed other (List.mem_cons_of_mem _ member)

theorem behind_single {text : List Char} (closed : next .start text = .start)
    (rest : List (List Char)) : behind .start (text :: rest) = behind .start rest :=
  congrArg (behind · rest) closed

/-- A heading between blank lines leaves nothing open. -/
theorem behind_heading {kind : DocumentKind} {heading : List Char}
    (required : heading ∈ kind.requiredSections) (rest : List (List Char)) :
    behind .start ([[], heading, []] ++ rest) = behind .start rest := by
  obtain ⟨_, _, _, unfenced, unmarked⟩ := heading_read kind heading required
  have blank : next .start [] = .start := rfl
  rw [List.cons_append, List.cons_append, List.cons_append, behind_single blank,
    behind_single (next_start unfenced (commentAfter_plain unmarked)), behind_single blank]
  rfl

theorem behind_filled {kind : DocumentKind} {heading : List Char} {body : List (List Char)}
    (required : heading ∈ kind.requiredSections) (closed : behind .start body = .start) :
    behind .start (filled heading body) = .start := by
  obtain ⟨drafted, _⟩ := draft_read kind heading required
  rw [filled, behind_heading required, behind_append]
  split_ifs
  · exact closed
  · have both : ∀ text ∈ draftLines (placeholderReason heading), next .start text = .start :=
      fun text member => next_start (drafted text member).2.1 (drafted text member).2.2
    rw [draftLines, behind_single (both _ List.mem_cons_self),
      behind_single (both _ (List.mem_cons_of_mem _ List.mem_cons_self))]
    exact closed

/-! ## What repairs keep -/

/-- A line but for carriage returns at its end. -/
def bare (text : List Char) : List Char := text.rdropWhile (· = '\r')

theorem bare_dropCarriageReturn (text : List Char) : bare (dropCarriageReturn text) = bare text := by
  rcases dropCarriageReturn_cases text with same | ⟨base, rfl, same⟩
  · rw [same]
  · rw [same, bare, bare, List.rdropWhile_concat_pos _ _ _ (by decide)]

/-- Neither a fence nor a comment is open at the end. -/
def ClosedAtEnd (contents : List Char) : Prop := behind .start (lines contents) = .start

/-- The section without content has a placeholder behind its heading, and it is a blocker. -/
def HasPlaceholder (heading : List Char) (repaired : List Char) : Prop :=
  (∃ text ∈ (draftLines (placeholderReason heading)).head?,
    [heading, [], text] <:+: lines repaired) ∧ placeholderReason heading ∈ blockers repaired

theorem texts_scan (contents : List Char) : texts (scan contents) = lines contents :=
  readLines_texts .start (lines contents)

theorem lines_arranged (kind : DocumentKind) (contents : List Char) :
    lines (written (arranged kind.requiredSections (scan contents))) =
      (arranged kind.requiredSections (scan contents)).map dropCarriageReturn := by
  refine lines_unbroken (arranged_unbroken ?_)
  rw [texts_scan]
  exact fun text member => newline_notMem_lines member

theorem keepsLines_withMarker {kind : DocumentKind} {contents : List Char}
    {repaired : List (List Char)}
    (keeps : KeepsLines kind (scan (withMarker kind contents).1) repaired) :
    KeepsLines kind (scan contents) repaired := by
  rcases lines_withMarker kind contents with ⟨same, _⟩ | added
  · rw [same] at keeps
    exact keeps
  · rw [scan_marker added] at keeps
    exact keeps.unmarked

theorem sectionLines_withMarker (kind : DocumentKind) (contents : List Char) (index : Nat) :
    sectionLines headings (some index) (scan (withMarker kind contents).1) =
      sectionLines headings (some index) (scan contents) := by
  rcases lines_withMarker kind contents with ⟨same, _⟩ | added
  · rw [same]
  · rw [scan_marker added, sectionLines_marker]
    rfl

theorem closed_withMarker {contents : List Char} (kind : DocumentKind)
    (closed : ClosedAtEnd contents) : ClosedAtEnd (withMarker kind contents).1 := by
  rcases lines_withMarker kind contents with ⟨same, _⟩ | added
  · rw [same]
    exact closed
  · rw [ClosedAtEnd, added, behind_single (next_marker kind)]
    exact closed

theorem arranged_parts {kind : DocumentKind} {contents heading : List Char} {index : Nat}
    (closed : ClosedAtEnd contents)
    (required : (heading, index) ∈ kind.requiredSections.zipIdx) :
    ∃ earlier later, behind .start earlier = .start ∧
      arranged kind.requiredSections (scan contents) = earlier ++
        (filled heading (texts (sectionLines kind.requiredSections (some index) (scan contents))) ++
          later) := by
  have sectionClosed : ∀ place, behind .start
      (texts (sectionLines kind.requiredSections place (scan contents))) = .start := by
    intro place
    have inside := (readLines_inSection kind (lines contents) .start none place).2 closed
    rw [ite_self] at inside
    exact inside
  obtain ⟨before, after, parts⟩ := List.append_of_mem required
  have beforeClosed : behind .start (before.flatMap fun pair => filled pair.1
      (texts (sectionLines kind.requiredSections (some pair.2) (scan contents)))) = .start := by
    refine behind_flatMap fun pair inside => ?_
    have member : pair ∈ kind.requiredSections.zipIdx := parts ▸ List.mem_append_left _ inside
    exact behind_filled (List.fst_mem_of_mem_zipIdx member) (sectionClosed (some pair.2))
  refine ⟨_, _, ?_, by
    rw [arranged, parts, List.flatMap_append, List.flatMap_cons, ← List.append_assoc]⟩
  rw [behind_append, sectionClosed none, beforeClosed]

theorem filled_empty {kind : DocumentKind} {contents heading : List Char} {index : Nat}
    (required : heading ∈ kind.requiredSections)
    (empty : (sectionLines kind.requiredSections (some index) (scan contents)).any
      Line.isContent = false) :
    ∃ text ∈ (draftLines (placeholderReason heading)).head?, ∃ rest,
      filled heading (texts (sectionLines kind.requiredSections (some index) (scan contents))) =
        [[], heading, []] ++ text :: rest := by
  have unbroken : ∀ text ∈ lines contents, '\n' ∉ text := fun text member =>
    newline_notMem_lines member
  have content := @bodyHasContent_eq kind heading index (lines contents) required unbroken
  rw [← scan, empty] at content
  rw [filled, content, if_neg Bool.false_ne_true]
  exact ⟨_, rfl, _, rfl⟩

/-- In native order, the placeholder of a section without content is read outside fences. -/
theorem hasPlaceholder_arranged {kind : DocumentKind} {contents heading : List Char} {index : Nat}
    (closed : ClosedAtEnd contents)
    (required : (heading, index) ∈ kind.requiredSections.zipIdx)
    (empty : (sectionLines kind.requiredSections (some index) (scan contents)).any
      Line.isContent = false) :
    HasPlaceholder heading (written (arranged kind.requiredSections (scan contents))) := by
  have member : heading ∈ kind.requiredSections := List.fst_mem_of_mem_zipIdx required
  obtain ⟨earlier, later, before, whole⟩ := arranged_parts closed required
  obtain ⟨text, drafted, rest, parts⟩ := filled_empty member empty
  have headingKept := dropCarriageReturn_of_last (heading_read kind heading member).1.2
  have textKept := dropCarriageReturn_of_last
    ((draft_read kind heading member).1 text (List.mem_of_mem_head? drafted)).1.2
  have blankKept : dropCarriageReturn [] = [] := rfl
  have shown : lines (written (arranged kind.requiredSections (scan contents))) =
      earlier.map dropCarriageReturn ++ ([[], heading, []] ++ text ::
        rest.map dropCarriageReturn ++ later.map dropCarriageReturn) := by
    rw [lines_arranged, whole, parts]
    simp only [List.map_append, List.map_cons, List.map_nil, blankKept, headingKept, textKept]
  have headingClosed := behind_heading member []
  rw [List.append_nil] at headingClosed
  constructor
  · refine ⟨text, drafted, earlier.map dropCarriageReturn ++ [[]],
      rest.map dropCarriageReturn ++ later.map dropCarriageReturn, ?_⟩
    rw [shown]
    simp only [List.append_assoc, List.cons_append, List.nil_append]
  · rw [blockers, scan, shown, readLines_append, (readLines_dropCarriageReturn _ _).2, before,
      List.append_assoc, readLines_append, headingClosed]
    refine List.mem_filterMap.mpr
      ⟨readLine .start text, ?_, (draft_read kind heading member).2 text drafted⟩
    exact List.mem_append_right _ (List.mem_append_right _ List.mem_cons_self)

/-- A repaired document is valid and keeps its lines, its empty sections are blockers, and it is
repaired to itself. -/
theorem repair_preserves {kind : DocumentKind} {contents : List Char} {result : Candidate}
    (accepted : candidate kind contents = .ok result) :
    (validate kind result.contents).isValid = true ∧
      (∃ kept, KeepsLines kind (scan contents) kept ∧
        (lines result.contents).map bare = kept.map bare) ∧
      (ClosedAtEnd contents →
        ∀ heading index, (heading, index) ∈ kind.requiredSections.zipIdx →
          (sectionLines kind.requiredSections (some index) (scan contents)).any Line.isContent =
            false → HasPlaceholder heading result.contents) ∧
      ∃ again, candidate kind result.contents = .ok again ∧ again.contents = result.contents := by
  obtain ⟨valid, small, origin⟩ := candidate_ok accepted
  refine ⟨valid, ?_, fun closed heading index required empty => ?_, ?_⟩
  · rcases origin with ⟨_, same⟩ | same
    · refine ⟨_, keepsLines_withMarker (keepsLines_self kind _), ?_⟩
      rw [same, texts_scan]
    · refine ⟨_, keepsLines_withMarker (keepsLines_arranged kind _), ?_⟩
      rw [same, lines_arranged, List.map_map]
      exact List.map_congr_left fun text _ => bare_dropCarriageReturn text
  · rw [← sectionLines_withMarker kind] at empty
    rcases origin with ⟨already, _⟩ | same
    · have content := content_of_present required
        (present_of_valid already heading (List.fst_mem_of_mem_zipIdx required))
      rw [content] at empty
      cases empty
    · rw [same]
      exact hasPlaceholder_arranged (closed_withMarker kind closed) required empty
  · have marked : Marked kind result.contents := by
      rcases origin with ⟨_, same⟩ | same
      · rw [same]
        exact marked_withMarker kind contents
      · rw [same]
        exact marked_arranged (marked_withMarker kind contents)
    exact ⟨_, candidate_valid marked valid small, rfl⟩

/-! ## What repairs do not keep -/

theorem candidate_sections {kind : DocumentKind} {contents : List Char}
    (disordered : declaresOtherVersion kind.marker
        (((lines contents).find? fun line => !(trimList line).isEmpty).getD []) = false ∧
      isClean kind (withMarker kind contents).1 = false ∧
      isClean kind (sections kind (withMarker kind contents).1
        (withMarker kind contents).2).1 = true ∧
      ByteText.byteLength (sections kind (withMarker kind contents).1
        (withMarker kind contents).2).1 ≤ maxComponentDocumentBytes) :
    ∃ reasons, candidate kind contents = .ok
      ⟨(sections kind (withMarker kind contents).1 (withMarker kind contents).2).1, reasons⟩ := by
  obtain ⟨declared, broken, repaired, small⟩ := disordered
  obtain ⟨_, _, _, _, _, name, _⟩ := marker_read kind
  rw [← isValid_eq] at broken repaired
  rw [candidate, name, okOr_some, ok_bind]
  dsimp only
  rw [declared, broken, if_neg Bool.false_ne_true, repaired, decide_eq_true small]
  exact ⟨_, rfl⟩

/-- A document with a blank line, a line that ends with a carriage return, a section that consists of
a comment, and a fence that is left open in the section that belongs in front of it. -/
def disordered : List Char :=
  written [DocumentKind.requirements.templateMarker, [], ['a', '\r', '\r'],
    "## Stakeholders and concerns".toList, "<!--".toList, "~~~".toList,
    "## Stakeholders and concerns".toList, "-->".toList,
    "## Functional requirements".toList, ['f'],
    "## Quality requirements and constraints".toList, ['q'],
    "## Acceptance and traceability".toList, ['a'],
    "## Purpose and scope".toList, ['p'], "~~~".toList]

/-- Blank lines are added, the carriage return is lost, and the open fence hides the placeholder. -/
theorem disordered_repaired : ∃ result, candidate .requirements disordered = .ok result ∧
    (lines disordered).count [] = 1 ∧ (lines result.contents).count [] = 11 ∧
    (lines disordered).contains ['a', '\r'] = true ∧
    (lines result.contents).contains ['a', '\r'] = false ∧
    (sectionLines DocumentKind.requirements.requiredSections (some 1) (scan disordered)).any
      Line.isContent = false ∧
    blockers result.contents = [] := by
  obtain ⟨reasons, accepted⟩ := @candidate_sections .requirements disordered (by decide +kernel)
  refine ⟨_, accepted, ?_⟩
  dsimp only
  decide +kernel

/-- A document with prose in front, its sections in another order, one of them twice, one with its
heading in other letters, and one without content. -/
def mixed : List Char :=
  written [DocumentKind.requirements.templateMarker, "Notes.".toList,
    "## Functional requirements".toList, ['f'],
    "## purpose and scope".toList, ['p'],
    "## Stakeholders and concerns".toList, [],
    "## Functional requirements".toList, ['g'],
    "## Acceptance and traceability".toList, ['a'],
    "## Quality requirements and constraints".toList, ['q']]

theorem repair_preserves_mixed : ∃ result, candidate .requirements mixed = .ok result ∧
    (∃ kept, KeepsLines .requirements (scan mixed) kept ∧
      (lines result.contents).map bare = kept.map bare) ∧
    HasPlaceholder "## Stakeholders and concerns".toList result.contents := by
  obtain ⟨reasons, accepted⟩ := @candidate_sections .requirements mixed (by decide +kernel)
  obtain ⟨_, keeps, placeholders, _⟩ := repair_preserves accepted
  have closed : ClosedAtEnd mixed := rfl
  exact ⟨_, accepted, keeps, placeholders closed _ 1 (by decide) (by decide +kernel)⟩

end Kvist.Markdown
