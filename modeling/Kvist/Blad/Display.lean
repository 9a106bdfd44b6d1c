import Kvist.Assignments
import Kvist.Blad.TerminalText
import Kvist.Text

/-!
# What a terminal shows

A terminal shows the characters of a text with the attributes that the control sequences in front of
them set. The attributes that a reader of the sequences keeps are those of the terminal.
-/

set_option autoImplicit false

namespace Kvist.Blad

open Assignments

/-! ## Attributes -/

/-- For each attribute the parameters that set it, or nothing. -/
abbrev Attributes := Nat → List Char

def defaultAttributes : Attributes := fun _ => []

/-- What a parameter does: it takes attributes back or sets its own. -/
def groupChanges (group : Nat × List Char) (key : Nat) : Option (List Char) :=
  if group.1 = 0 then some []
  else
    match cleared group.1 with
    | some keys => if keys.contains key then some [] else none
    | none =>
        if key = attributeKey group.1 then
          some (if group.1 = 39 ∨ group.1 = 49 then [] else group.2)
        else none

def applyGroups (attributes : Attributes) (groups : List (Nat × List Char)) : Attributes :=
  groups.foldl (fun attributes group => assign (groupChanges group) attributes) attributes

def applySgr (attributes : Attributes) (sequence : List Char) : Attributes :=
  applyGroups attributes (sequenceGroups sequence)

def applyAll (attributes : Attributes) (sequences : List (List Char)) : Attributes :=
  sequences.foldl applySgr attributes

theorem isAssignment_applySgr (sequence : List Char) :
    IsAssignment fun attributes => applySgr attributes sequence :=
  isAssignment_foldl _ fun _ _ => isAssignment_assign _

theorem isAssignment_applyAll (sequences : List (List Char)) :
    IsAssignment fun attributes => applyAll attributes sequences :=
  isAssignment_foldl _ fun sequence _ => isAssignment_applySgr sequence

/-! ## The display -/

/-- A character with the attributes it is shown with. -/
abbrev Cell := Char × Attributes

def showPieces : Attributes → List Piece → List Cell × Attributes
  | attributes, [] => ([], attributes)
  | attributes, .style sequence :: rest => showPieces (applySgr attributes sequence) rest
  | attributes, .character character :: rest =>
      let shown := showPieces attributes rest
      ((character, attributes) :: shown.1, shown.2)

/-- The cells that a text is shown as, and the attributes behind it. -/
def display (text : List Char) (attributes : Attributes) : List Cell × Attributes :=
  showPieces attributes (pieces text)

/-- A complete sequence for attributes. -/
def IsSgr (sequence : List Char) : Prop :=
  ∃ parameters, sequence = sgrText parameters ∧ parameters.all isSgrCharacter = true

theorem stripSgr_sgrText {parameters : List Char} (formed : parameters.all isSgrCharacter = true)
    (rest : List Char) :
    stripSgr (sgrText parameters ++ rest) = some (sgrText parameters, rest) := by
  have each := List.all_eq_true.mp formed
  have final : isSgrCharacter 'm' = false := by decide
  have written : sgrText parameters ++ rest = '\x1b' :: '[' :: (parameters ++ 'm' :: rest) := by
    simp [sgrText]
  have dropped : (parameters ++ 'm' :: rest).dropWhile isSgrCharacter = 'm' :: rest := by
    rw [List.dropWhile_append_of_pos each, List.dropWhile_cons_of_neg (by simp [final])]
  have taken : (parameters ++ 'm' :: rest).takeWhile isSgrCharacter = parameters := by
    rw [List.takeWhile_append_of_pos each, List.takeWhile_cons_of_neg (by simp [final]),
      List.append_nil]
  rw [written]
  simp only [stripSgr, dropped, taken]
  rfl

theorem stripSgr_shorter {text sequence remaining : List Char}
    (stripped : stripSgr text = some (sequence, remaining)) :
    remaining.length < text.length := by
  unfold stripSgr at stripped
  split at stripped
  · rename_i rest
    split at stripped
    · rename_i tail dropped
      obtain ⟨-, rfl⟩ := Prod.mk.inj (Option.some.inj stripped)
      have shorter := (@List.dropWhile_suffix _ rest isSgrCharacter).length_le
      rw [dropped] at shorter
      simp only [List.length_cons] at shorter ⊢
      omega
    · exact absurd stripped nofun
  · exact absurd stripped nofun

theorem piecesFrom_fuel {fuel : Nat} {text : List Char} (enough : text.length ≤ fuel) :
    piecesFrom fuel text = pieces text := by
  rw [pieces]
  generalize bound : text.length = small at enough
  have covered : text.length ≤ small := bound.le
  clear bound
  induction small generalizing fuel text with
  | zero =>
      rw [List.length_eq_zero_iff.mp (Nat.le_zero.mp covered), piecesFrom, piecesFrom]
  | succ small ih =>
      cases text with
      | nil => rw [piecesFrom, piecesFrom]
      | cons character rest =>
          obtain ⟨fuel, rfl⟩ := Nat.exists_eq_succ_of_ne_zero
            (Nat.ne_of_gt (Nat.lt_of_lt_of_le (Nat.succ_pos small) enough))
          have shorter : rest.length ≤ small := Nat.le_of_succ_le_succ covered
          rw [piecesFrom, piecesFrom]
          split
          · rename_i stripped
            have less := stripSgr_shorter stripped
            rw [List.length_cons] at less
            rw [ih (Nat.le_of_succ_le_succ enough)
              ((Nat.le_of_lt_succ less).trans shorter)]
          · rw [ih (Nat.le_of_succ_le_succ enough) shorter]

theorem pieces_plain {character : Char} (plain : character ≠ '\x1b') (rest : List Char) :
    pieces (character :: rest) = .character character :: pieces rest := by
  have none : stripSgr (character :: rest) = none := by
    rw [stripSgr]
    exact fun rest same => absurd (List.cons.inj same).1 plain
  rw [pieces, List.length_cons, piecesFrom, none]
  rfl

theorem pieces_sgr {sequence : List Char} (formed : IsSgr sequence) (rest : List Char) :
    pieces (sequence ++ rest) = .style sequence :: pieces rest := by
  obtain ⟨parameters, rfl, each⟩ := formed
  have stripped := stripSgr_sgrText each rest
  have start : sgrText parameters ++ rest = '\x1b' :: '[' :: (parameters ++ ['m'] ++ rest) := rfl
  rw [pieces, start, List.length_cons, piecesFrom, ← start, stripped]
  dsimp only
  rw [piecesFrom_fuel]
  simp only [List.length_cons, List.length_append]
  omega

/-! ## Drawing -/

/-- The text is shown as these cells, whatever follows, and changes the attributes to the others. -/
def Draws (text : List Char) (before : Attributes) (cells : List Cell) (after : Attributes) :
    Prop :=
  ∀ rest, display (text ++ rest) before =
    (cells ++ (display rest after).1, (display rest after).2)

theorem Draws.display {text : List Char} {before after : Attributes} {cells : List Cell}
    (draws : Draws text before cells after) : display text before = (cells, after) := by
  have whole := draws []
  have empty : Blad.display [] after = ([], after) := rfl
  rwa [List.append_nil, empty, List.append_nil] at whole

theorem draws_nil (attributes : Attributes) : Draws [] attributes [] attributes := fun _ => rfl

theorem Draws.append {front back : List Char} {before middle after : Attributes}
    {first second : List Cell} (early : Draws front before first middle)
    (late : Draws back middle second after) :
    Draws (front ++ back) before (first ++ second) after := by
  intro rest
  rw [List.append_assoc, early, late, List.append_assoc]

theorem draws_plain {text : List Char} (plain : '\x1b' ∉ text) (attributes : Attributes) :
    Draws text attributes (text.map fun character => (character, attributes)) attributes := by
  induction text with
  | nil => exact draws_nil attributes
  | cons character rest ih =>
      rw [List.mem_cons, not_or] at plain
      intro behind
      have later := ih plain.2 behind
      rw [List.cons_append, Blad.display, pieces_plain (Ne.symm plain.1)]
      rw [Blad.display] at later
      rw [showPieces, later]
      rfl

theorem draws_sgr {sequence : List Char} (formed : IsSgr sequence) (attributes : Attributes) :
    Draws sequence attributes [] (applySgr attributes sequence) := by
  intro rest
  rw [Blad.display, pieces_sgr formed]
  rfl

theorem draws_sgrs {sequences : List (List Char)} (formed : ∀ sequence ∈ sequences, IsSgr sequence)
    (attributes : Attributes) :
    Draws sequences.flatten attributes [] (applyAll attributes sequences) := by
  induction sequences generalizing attributes with
  | nil => exact draws_nil attributes
  | cons sequence rest ih =>
      rw [List.forall_mem_cons] at formed
      exact (draws_sgr formed.1 attributes).append (ih formed.2 _)

/-! ## The sequence of one attribute -/

/-- The sequence sets this attribute and no other one. -/
structure SetsOnly (key : Nat) (sequence : List Char) : Prop where
  formed : IsSgr sequence
  alone : ∃ value, ∀ attributes other, applySgr attributes sequence other =
    if other = key then value else attributes other

/-- A parameter as it is cut out of a sequence. -/
structure ProperGroup (group : Nat × List Char) : Prop where
  formed : IsSgr (sgrText group.2)
  alone : sequenceGroups (sgrText group.2) = [group]

theorem setsOnly_group {group : Nat × List Char} (proper : ProperGroup group)
    (some : group.1 ≠ 0) (sets : cleared group.1 = none) :
    SetsOnly (attributeKey group.1) (sgrText group.2) := by
  refine ⟨proper.formed, if group.1 = 39 ∨ group.1 = 49 then [] else group.2, ?_⟩
  intro attributes other
  rw [applySgr, proper.alone, applyGroups, List.foldl_cons, List.foldl_nil, assign, groupChanges,
    if_neg some, sets]
  dsimp only
  by_cases same : other = attributeKey group.1
  · rw [if_pos same, if_pos same]
    rfl
  · rw [if_neg same, if_neg same]
    rfl

theorem sgrParts_sgrText (parameters : List Char) :
    sgrParts (sgrText parameters) = parameters.splitOn ';' := by
  change ((parameters ++ ['m']).dropLast).splitOn ';' = _
  rw [List.dropLast_concat]

/-- A part of a sequence between two separators. -/
def IsPart (part : List Char) : Prop := part.all isSgrCharacter = true ∧ ';' ∉ part

theorem sequenceGroups_join {parts : List (List Char)} (some : parts ≠ [])
    (each : ∀ part ∈ parts, IsPart part) :
    IsSgr (sgrText ([';'].intercalate parts)) ∧
      sequenceGroups (sgrText ([';'].intercalate parts)) = sgrGroups parts.length parts := by
  constructor
  · refine ⟨_, rfl, List.all_eq_true.mpr fun character member => ?_⟩
    rcases Text.mem_intercalate member with rfl | ⟨part, present, inside⟩
    · rfl
    · exact List.all_eq_true.mp (each part present).1 character inside
  · rw [sequenceGroups, sgrParts_sgrText,
      List.splitOn_intercalate _ (fun part member => (each part member).2) some]

theorem properGroup_one {code : Nat} {part : List Char} (isPart : IsPart part)
    (parsed : partCode part = some code) : ProperGroup (code, part) := by
  have whole := @sequenceGroups_join [part] (List.cons_ne_nil _ _) (by simpa using isPart)
  rw [List.intercalate_singleton] at whole
  refine ⟨whole.1, whole.2.trans ?_⟩
  rw [List.length_singleton, sgrGroups, parsed]
  dsimp only
  split
  · rfl
  · rw [sgrGroups]

theorem properGroup_color {code : Nat} {part mode : List Char} {channels : List (List Char)}
    (parts : ∀ other ∈ part :: mode :: channels, IsPart other)
    (parsed : partCode part = some code) (color : code = 38 ∨ code = 48)
    (few : channels.length ≤ if mode = ['2'] then 3 else 1) :
    ProperGroup (code, [';'].intercalate (part :: mode :: channels)) := by
  have whole := sequenceGroups_join (List.cons_ne_nil _ _) parts
  refine ⟨whole.1, whole.2.trans ?_⟩
  rw [List.length_cons, sgrGroups, parsed]
  dsimp only
  rw [if_pos color, List.take_of_length_le few, List.drop_of_length_le few, sgrGroups]

theorem sgrGroups_proper {fuel : Nat} {parts : List (List Char)}
    (each : ∀ part ∈ parts, IsPart part) : ∀ group ∈ sgrGroups fuel parts, ProperGroup group := by
  induction fuel generalizing parts with
  | zero =>
      cases parts with
      | nil => exact nofun
      | cons part rest => exact nofun
  | succ fuel ih =>
      cases parts with
      | nil => exact nofun
      | cons part rest =>
          have first := each part List.mem_cons_self
          have others : ∀ other ∈ rest, IsPart other := fun other member =>
            each other (List.mem_cons_of_mem _ member)
          intro group member
          rw [sgrGroups] at member
          split at member
          · exact ih others group member
          · rename_i code parsed
            split at member
            · rename_i color
              cases rest with
              | nil =>
                  rw [List.mem_singleton.mp member]
                  exact properGroup_one first parsed
              | cons mode channels =>
                  rcases List.mem_cons.mp member with rfl | later
                  · refine properGroup_color ?_ parsed color (List.length_take_le _ _)
                    intro other present
                    rcases List.mem_cons.mp present with rfl | present
                    · exact first
                    · rcases List.mem_cons.mp present with rfl | taken
                      · exact others _ List.mem_cons_self
                      · exact others _ (List.mem_cons_of_mem _ (List.mem_of_mem_take taken))
                  · refine ih (fun other present => ?_) group later
                    exact others _ (List.mem_cons_of_mem _ (List.mem_of_mem_drop present))
            · rcases List.mem_cons.mp member with rfl | later
              · exact properGroup_one first parsed
              · exact ih others group later

theorem sequenceGroups_proper {sequence : List Char} (formed : IsSgr sequence) :
    ∀ group ∈ sequenceGroups sequence, ProperGroup group := by
  obtain ⟨parameters, rfl, each⟩ := formed
  refine sgrGroups_proper fun part member => ?_
  rw [sgrParts_sgrText] at member
  refine ⟨List.all_eq_true.mpr fun character inside => ?_, Text.not_mem_of_mem_splitOn member⟩
  exact List.all_eq_true.mp each character (Text.mem_of_mem_splitOn member inside)

/-! ## The attributes that are kept -/

/-- The sequences that are kept for the attributes give the attributes of the terminal. -/
structure Represents (state : SgrState) (attributes : Attributes) : Prop where
  each : ∀ entry ∈ state.entries, SetsOnly entry.1 entry.2
  same : ∀ key, attributes key =
    ((state.get key).map fun sequence => applySgr defaultAttributes sequence key).getD []

theorem represents_empty : Represents OrderedMap.empty defaultAttributes :=
  ⟨nofun, fun _ => rfl⟩

theorem represents_remove {state : SgrState} {attributes : Attributes}
    (represents : Represents state attributes) (keys : List Nat) :
    Represents (state.remove keys)
      (assign (fun key => if keys.contains key then some [] else none) attributes) := by
  refine ⟨fun entry member => represents.each entry (List.mem_of_mem_filter member), fun key => ?_⟩
  rw [SgrState.remove, OrderedMap.get_retain, assign]
  by_cases gone : keys.contains key = true
  · have filtered : (state.get key).filter (fun _ => !keys.contains key) = none := by
      rw [gone]
      cases state.get key <;> rfl
    rw [filtered, if_pos gone]
    rfl
  · have filtered : (state.get key).filter (fun _ => !keys.contains key) = state.get key := by
      rw [Bool.not_eq_true] at gone
      rw [gone]
      cases state.get key <;> rfl
    rw [filtered, if_neg gone]
    exact represents.same key

theorem represents_insert {state : SgrState} {attributes : Attributes}
    (represents : Represents state attributes) {key : Nat} {sequence : List Char}
    (sets : SetsOnly key sequence) :
    Represents (state.insert key sequence) (applySgr attributes sequence) := by
  obtain ⟨value, alone⟩ := sets.alone
  refine ⟨fun entry member => ?_, fun other => ?_⟩
  · rcases OrderedMap.mem_put member with rfl | earlier
    · exact sets
    · exact represents.each entry earlier
  · rw [alone]
    by_cases same : other = key
    · subst same
      rw [if_pos rfl, OrderedMap.get_insert_same, Option.map_some, Option.getD_some, alone,
        if_pos rfl]
    · rw [if_neg same, OrderedMap.get_insert_other same]
      exact represents.same other

theorem represents_group {state : SgrState} {attributes : Attributes}
    (represents : Represents state attributes) {group : Nat × List Char}
    (proper : ProperGroup group) :
    Represents (state.applyGroup group) (assign (groupChanges group) attributes) := by
  rw [SgrState.applyGroup]
  by_cases reset : group.1 = 0
  · have all : assign (groupChanges group) attributes = defaultAttributes := by
      funext key
      rw [assign, groupChanges, if_pos reset]
      rfl
    rw [if_pos reset, all]
    exact represents_empty
  · rw [if_neg reset]
    cases sets : cleared group.1 with
    | some keys =>
        have changes : groupChanges group =
            fun key => if keys.contains key then some [] else none := by
          funext key
          rw [groupChanges, if_neg reset, sets]
        rw [changes]
        exact represents_remove represents keys
    | none =>
        have applied : assign (groupChanges group) attributes =
            applySgr attributes (sgrText group.2) := by
          rw [applySgr, proper.alone]
          rfl
        rw [applied]
        exact represents_insert represents (setsOnly_group proper reset sets)

theorem represents_apply {state : SgrState} {attributes : Attributes} {sequence : List Char}
    (represents : Represents state attributes) (formed : IsSgr sequence) :
    Represents (SgrState.apply state sequence) (applySgr attributes sequence) := by
  have each := sequenceGroups_proper formed
  rw [SgrState.apply, applySgr, applyGroups]
  generalize sequenceGroups sequence = groups at each
  induction groups generalizing state attributes with
  | nil => exact represents
  | cons group rest ih =>
      rw [List.forall_mem_cons] at each
      exact ih (represents_group represents each.1) each.2

theorem applyAll_entries {entries : List (Nat × List Char)}
    (ascending : OrderedMap.Ascending entries) (each : ∀ entry ∈ entries, SetsOnly entry.1 entry.2)
    (attributes : Attributes) (key : Nat) :
    applyAll attributes (entries.map (·.2)) key =
      ((OrderedMap.lookup key entries).map fun sequence =>
        applySgr defaultAttributes sequence key).getD (attributes key) := by
  induction entries generalizing attributes with
  | nil => rfl
  | cons entry rest ih =>
      obtain ⟨above, remaining⟩ := List.pairwise_cons.mp ascending
      rw [List.forall_mem_cons] at each
      obtain ⟨value, alone⟩ := each.1.alone
      change applyAll (applySgr attributes entry.2) (rest.map (·.2)) key = _
      rw [ih remaining each.2, OrderedMap.lookup_cons, alone]
      by_cases same : entry.1 = key
      · have absent : OrderedMap.lookup key rest = none := by
          rw [← Option.not_isSome_iff_eq_none, OrderedMap.lookup_isSome_iff, List.mem_map]
          rintro ⟨other, member, rfl⟩
          exact absurd same (ne_of_lt (above other member))
        rw [absent, if_pos same, if_pos same.symm, Option.map_some, Option.getD_some, alone,
          if_pos same.symm]
        rfl
      · rw [if_neg same, if_neg (Ne.symm same)]

theorem applySgr_reset (attributes : Attributes) :
    applySgr attributes resetText = defaultAttributes := by
  have groups : sequenceGroups resetText = [(0, ['0'])] := by decide
  rw [applySgr, groups]
  rfl

theorem draws_restored {state : SgrState} {attributes : Attributes}
    (represents : Represents state attributes) (before : Attributes) :
    Draws state.restored before [] attributes := by
  have reset : IsSgr resetText := ⟨['0'], rfl, rfl⟩
  have formed : ∀ sequence ∈ state.values, IsSgr sequence := by
    intro sequence member
    obtain ⟨entry, inside, rfl⟩ := List.mem_map.mp member
    exact (represents.each entry inside).formed
  have last : applyAll defaultAttributes state.values = attributes := by
    funext key
    rw [represents.same key]
    exact applyAll_entries state.ascending represents.each defaultAttributes key
  have draws := (draws_sgr reset before).append (draws_sgrs formed _)
  rwa [applySgr_reset, last] at draws

end Kvist.Blad
