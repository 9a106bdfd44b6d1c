import Mathlib.Algebra.Order.BigOperators.Group.List
import Mathlib.Algebra.Order.Group.Nat
import Kvist.Apportionment
import Kvist.Blad.Table
import Kvist.LineFilling

/-!
# The widths of a table

Wider columns never make a cell higher, so the least width of a column for a height and the least
height for a budget are found by halving. The widths that are returned are the best ones: no widths
within the budget give a lower highest row.
-/

set_option autoImplicit false

namespace Kvist.Blad.Tables

/-! ## Heights -/

theorem length_fragmentsFrom (width : Nat) (fragment : List Word) (used : Nat)
    (words : List Word) :
    (fragmentsFrom width fragment used words).length =
      LineFilling.breaks width used (words.map (·.width)) + 1 := by
  induction words generalizing fragment used with
  | nil => rfl
  | cons word rest ih =>
      rw [fragmentsFrom, List.map_cons, LineFilling.breaks]
      split
      · rw [List.length_cons, ih]
      · rw [ih]

theorem length_lineFragments_wider {narrow wide : Nat} (order : narrow ≤ wide)
    (words : List Word) :
    (lineFragments wide words).length ≤ (lineFragments narrow words).length := by
  cases words with
  | nil => exact le_rfl
  | cons word rest =>
      rw [lineFragments, lineFragments, length_fragmentsFrom, length_fragmentsFrom]
      exact Nat.succ_le_succ (LineFilling.breaks_antitone order _ _)

theorem length_lineFragments_pos (width : Nat) (words : List Word) :
    1 ≤ (lineFragments width words).length := by
  cases words with
  | nil => exact le_rfl
  | cons word rest =>
      rw [lineFragments, length_fragmentsFrom]
      exact Nat.le_add_left _ _

theorem length_lineFragments_natural {width : Nat} {words : List Word}
    (fits : lineWidth words ≤ width) : (lineFragments width words).length = 1 := by
  cases words with
  | nil => rfl
  | cons word rest =>
      have spaced : LineFilling.spaced (rest.map (·.width)) =
          (rest.map (·.width)).sum + rest.length := by
        rw [LineFilling.spaced]
        clear fits
        induction rest with
        | nil => rfl
        | cons other others ih =>
            simp only [List.map_cons, List.sum_cons, List.length_cons] at ih ⊢
            omega
      rw [lineFragments, length_fragmentsFrom, LineFilling.breaks_eq_zero]
      rw [lineWidth, List.map_cons, List.sum_cons, List.length_cons] at fits
      omega

namespace Cell

variable {cell : Cell} {narrow wide width cap : Nat}

theorem height_eq (cell : Cell) (width : Nat) :
    cell.height width = (cell.lines.map fun words => (lineFragments width words).length).sum := by
  rw [height, fragments, List.length_flatMap]

theorem height_wider (order : narrow ≤ wide) : cell.height wide ≤ cell.height narrow := by
  rw [height_eq, height_eq]
  exact List.sum_le_sum fun words _ => length_lineFragments_wider order words

theorem explicitHeight_le_height (cell : Cell) (width : Nat) :
    cell.explicitHeight ≤ cell.height width := by
  have ones : cell.explicitHeight = (cell.lines.map fun _ => 1).sum := by simp [explicitHeight]
  rw [ones, height_eq]
  exact List.sum_le_sum fun words _ => length_lineFragments_pos width words

theorem height_natural (wideEnough : ∀ words ∈ cell.lines, lineWidth words ≤ width) :
    cell.height width = cell.explicitHeight := by
  have ones : cell.explicitHeight = (cell.lines.map fun _ => 1).sum := by simp [explicitHeight]
  rw [ones, height_eq]
  congr 1
  exact List.map_congr_left fun words member =>
    length_lineFragments_natural (wideEnough words member)

theorem take_le_iff {Item : Type} {items : List Item} :
    (items.take (cap + 1)).length ≤ cap ↔ items.length ≤ cap := by
  rw [List.length_take]
  omega

theorem fitsHeight_iff : cell.fitsHeight width cap = true ↔ cell.height width ≤ cap := by
  rw [fitsHeight, decide_eq_true_eq, take_le_iff, height]

/-! ## The aspect of a cell -/

/-- How many lines of the cell have words. -/
def occupied (cell : Cell) (width : Nat) : Nat :=
  ((cell.fragments width).filter fun words => !words.isEmpty).length

theorem filter_lineFragments (width : Nat) (words : List Word) :
    (lineFragments width words).filter (fun fragment => !fragment.isEmpty) =
      if words.isEmpty then [] else lineFragments width words := by
  cases words with
  | nil => rfl
  | cons word rest =>
      rw [List.isEmpty_cons, if_neg Bool.false_ne_true, List.filter_eq_self, lineFragments]
      suffices every : ∀ fragment used, fragment ≠ [] →
          ∀ part ∈ fragmentsFrom width fragment used rest, part ≠ [] by
        intro part member
        have some := every [word] word.width (List.cons_ne_nil _ _) part member
        simpa using some
      induction rest with
      | nil =>
          intro fragment used some part member
          rwa [List.mem_singleton.mp member]
      | cons other others ih =>
          intro fragment used some part member
          rw [fragmentsFrom] at member
          split at member
          · rcases List.mem_cons.mp member with rfl | later
            · exact some
            · exact ih _ _ (List.cons_ne_nil _ _) part later
          · exact ih _ _ (by simp) part member

theorem occupied_wider (order : narrow ≤ wide) : cell.occupied wide ≤ cell.occupied narrow := by
  rw [occupied, occupied, fragments, fragments, List.filter_flatMap, List.filter_flatMap,
    List.length_flatMap, List.length_flatMap]
  refine List.sum_le_sum fun words _ => ?_
  rw [filter_lineFragments, filter_lineFragments]
  split
  · exact le_rfl
  · exact length_lineFragments_wider order words

/-- A width that a cell may have: each word fits, and it has four columns for each line with words,
or all that its longest line takes. -/
structure Admissible (cell : Cell) (width : Nat) : Prop where
  words : ∀ words ∈ cell.lines, ∀ word ∈ words, word.width ≤ width
  aspect : cell.natural ≤ width ∨ columnsPerLine * cell.occupied width ≤ width

theorem fitsAspect_iff :
    cell.fitsAspect width = true ↔ columnsPerLine * cell.occupied width ≤ width := by
  rw [fitsAspect, decide_eq_true_eq, take_le_iff, Nat.le_div_iff_mul_le (by decide), Nat.mul_comm]
  rfl

theorem fitsAspect_rising (cell : Cell) : Bisection.Rising cell.fitsAspect := by
  intro near far order fits
  rw [fitsAspect_iff] at fits ⊢
  exact ((Nat.mul_le_mul_left _ (occupied_wider order)).trans fits).trans order

end Cell

theorem foldl_max_le_iff {items : List Nat} {first bound : Nat} :
    items.foldl max first ≤ bound ↔ first ≤ bound ∧ ∀ item ∈ items, item ≤ bound := by
  induction items generalizing first with
  | nil => simp
  | cons item rest ih =>
      rw [List.foldl_cons, ih, List.forall_mem_cons, max_le_iff, and_assoc]

theorem width_le_lineWidth {words : List Word} {word : Word} (member : word ∈ words) :
    word.width ≤ lineWidth words := by
  rw [lineWidth]
  exact (List.single_le_sum (fun _ _ => Nat.zero_le _) _
    (List.mem_map_of_mem member)).trans (Nat.le_add_right _ _)

variable {rules : TextRules}

/-- A cell knows its widths: no line is wider than the natural one, and the minimum is the least
width that it may have. -/
structure Cell.Measured (cell : Cell) : Prop where
  explicitHeight_pos : 1 ≤ cell.explicitHeight
  minimum_le_natural : cell.minimum ≤ cell.natural
  natural : ∀ words ∈ cell.lines, lineWidth words ≤ cell.natural
  minimum_le_iff : ∀ width, cell.minimum ≤ width ↔ cell.Admissible width

theorem measured_new (text : List Char) : (Cell.new rules text).Measured := by
  rw [Cell.new]
  dsimp only
  have nonempty : 1 ≤ ((text.splitOn '\n').map (lineWords rules)).length := by
    rw [List.length_map]
    exact List.length_pos_iff.mpr (List.splitOn_ne_nil _ _)
  generalize (text.splitOn '\n').map (lineWords rules) = lines at nonempty
  have widest := @foldl_max_le_iff (lines.map lineWidth) 0
  have longest := @foldl_max_le_iff (lines.flatten.map (·.width)) 0
  have naturalLines : ∀ words ∈ lines, lineWidth words ≤ (lines.map lineWidth).foldl max 0 :=
    fun words member => (widest.mp le_rfl).2 _ (List.mem_map_of_mem member)
  have ordered : (lines.flatten.map (·.width)).foldl max 0 ≤ (lines.map lineWidth).foldl max 0 := by
    refine longest.mpr ⟨Nat.zero_le _, fun width member => ?_⟩
    obtain ⟨word, inside, rfl⟩ := List.mem_map.mp member
    obtain ⟨words, present, inside⟩ := List.mem_flatten.mp inside
    exact (width_le_lineWidth inside).trans (naturalLines words present)
  have enough : (lines.map lineWidth).foldl max 0 ≤ (lines.flatten.map (·.width)).foldl max 0 +
      ((lines.map lineWidth).foldl max 0 - (lines.flatten.map (·.width)).foldl max 0) := by omega
  refine ⟨nonempty, ?_, naturalLines, fun width => ?_⟩
  · exact (Bisection.least_spec (Cell.fitsAspect_rising _) ordered enough).2.1
  · refine (Bisection.least_le_iff (Cell.fitsAspect_rising _) ordered enough).trans ?_
    rw [Cell.fitsAspect_iff, longest, and_iff_right (Nat.zero_le _)]
    constructor
    · rintro ⟨fits, aspect⟩
      refine ⟨fun words present word inside => fits _ ?_, aspect⟩
      exact List.mem_map_of_mem (List.mem_flatten.mpr ⟨words, present, inside⟩)
    · rintro ⟨fits, aspect⟩
      refine ⟨fun other member => ?_, aspect⟩
      obtain ⟨word, inside, rfl⟩ := List.mem_map.mp member
      obtain ⟨words, present, inside⟩ := List.mem_flatten.mp inside
      exact fits words present word inside

/-! ## Tables -/

/-- What a table knows of its cells. -/
structure Table.Measured (table : Table) : Prop where
  rows : ∀ row ∈ table.rows, row.length = table.columns.length
  cells : ∀ row ∈ table.rows, ∀ cell ∈ row, cell.Measured ∧
    cell.explicitHeight ≤ table.explicitHeight
  minimum_le_iff : ∀ (index : Nat) (column : Column), table.columns[index]? = some column → ∀ width,
    column.minimum ≤ width ↔ ∀ row ∈ table.rows, ∀ cell : Cell, row[index]? = some cell →
      cell.minimum ≤ width
  natural_le_iff : ∀ (index : Nat) (column : Column), table.columns[index]? = some column → ∀ width,
    column.natural ≤ width ↔ ∀ row ∈ table.rows, ∀ cell : Cell, row[index]? = some cell →
      cell.natural ≤ width
  explicitHeight_le_iff : ∀ height, table.explicitHeight ≤ height ↔ 1 ≤ height ∧
    ∀ row ∈ table.rows, ∀ cell ∈ row, cell.explicitHeight ≤ height
  inhabited : table.columns ≠ [] → ∃ row ∈ table.rows, row ≠ []

theorem foldl_add_le_iff {cells : List Cell} {column : Column} {bound : Nat} :
    ((cells.foldl Column.add column).minimum ≤ bound ↔ column.minimum ≤ bound ∧
        ∀ cell ∈ cells, cell.minimum ≤ bound) ∧
      ((cells.foldl Column.add column).natural ≤ bound ↔ column.natural ≤ bound ∧
        ∀ cell ∈ cells, cell.natural ≤ bound) := by
  induction cells generalizing column with
  | nil => simp
  | cons cell rest ih =>
      obtain ⟨minimum, natural⟩ := @ih (column.add cell)
      rw [List.foldl_cons, minimum, natural, Column.add, max_le_iff, max_le_iff,
        List.forall_mem_cons, List.forall_mem_cons, and_assoc, and_assoc]
      exact ⟨Iff.rfl, Iff.rfl⟩

theorem table_measured (rows : List (List (List Char))) : (Table.new rules rows).Measured := by
  rw [Table.new]
  generalize counted : (rows.map List.length).foldl max 0 = count
  have cellsOf : ∀ row ∈ (rows.map fun row =>
      (List.range count).map fun index => Cell.new rules (row[index]?.getD [])),
      row.length = count ∧ ∀ cell ∈ row, cell.Measured := by
    intro row member
    obtain ⟨texts, -, rfl⟩ := List.mem_map.mp member
    refine ⟨by rw [List.length_map, List.length_range], fun cell inside => ?_⟩
    obtain ⟨index, -, rfl⟩ := List.mem_map.mp inside
    exact measured_new _
  have inhabited : count ≠ 0 → ∃ row ∈ (rows.map fun row =>
      (List.range count).map fun index => Cell.new rules (row[index]?.getD [])), row ≠ [] := by
    intro some
    cases rows with
    | nil => exact absurd counted.symm some
    | cons first rest =>
        refine ⟨_, List.mem_cons_self, fun empty => some ?_⟩
        have length := (cellsOf _ List.mem_cons_self).1
        rw [← length]
        exact List.length_eq_zero_iff.mpr empty
  generalize (rows.map fun row =>
      (List.range count).map fun index => Cell.new rules (row[index]?.getD [])) = cells
    at cellsOf inhabited
  have columnsOf : ∀ (index : Nat) (column : Column), ((List.range count).map fun index =>
      (cells.filterMap (·[index]?)).foldl Column.add ⟨0, 0⟩)[index]? = some column →
      column = (cells.filterMap (·[index]?)).foldl Column.add ⟨0, 0⟩ := by
    intro index column found
    rw [List.getElem?_map, Option.map_eq_some_iff] at found
    obtain ⟨place, present, rfl⟩ := found
    obtain ⟨inside, same⟩ := List.getElem?_eq_some_iff.mp present
    rw [List.getElem_range] at same
    rw [same]
  have every : ∀ (index : Nat) (property : Cell → Prop),
      (∀ cell ∈ cells.filterMap (·[index]?), property cell) ↔
        ∀ row ∈ cells, ∀ cell : Cell, row[index]? = some cell → property cell := by
    intro index property
    constructor
    · exact fun holds row member cell found =>
        holds cell (List.mem_filterMap.mpr ⟨row, member, found⟩)
    · intro holds cell member
      obtain ⟨row, present, found⟩ := List.mem_filterMap.mp member
      exact holds row present cell found
  constructor
  · intro row member
    rw [(cellsOf row member).1, List.length_map, List.length_range]
  · intro row member cell inside
    refine ⟨(cellsOf row member).2 cell inside, ?_⟩
    refine (foldl_max_le_iff.mp le_rfl).2 _ (List.mem_map_of_mem ?_)
    exact List.mem_flatten.mpr ⟨row, member, inside⟩
  · intro index column found width
    rw [columnsOf index column found, foldl_add_le_iff.1, and_iff_right (Nat.zero_le _), every]
  · intro index column found width
    rw [columnsOf index column found, foldl_add_le_iff.2, and_iff_right (Nat.zero_le _), every]
  · intro height
    rw [foldl_max_le_iff]
    refine and_congr_right fun _ => ?_
    rw [List.forall_mem_map, List.forall_mem_flatten]
  · intro some
    exact inhabited fun none => some (by rw [none]; rfl)

/-! ## Lists of widths -/

theorem forall₂_getElem? {Left Right : Type} {relation : Left → Right → Prop} {lefts : List Left}
    {rights : List Right} (related : List.Forall₂ relation lefts rights) {index : Nat} {left : Left}
    {right : Right} (first : lefts[index]? = some left) (second : rights[index]? = some right) :
    relation left right := by
  obtain ⟨inside, rfl⟩ := List.getElem?_eq_some_iff.mp first
  obtain ⟨within, rfl⟩ := List.getElem?_eq_some_iff.mp second
  exact (List.forall₂_iff_get.mp related).2 index inside within

theorem forall₂_of_getElem? {Left Right : Type} {relation : Left → Right → Prop}
    {lefts : List Left} {rights : List Right} (length : lefts.length = rights.length)
    (related : ∀ (index : Nat) left right, lefts[index]? = some left →
      rights[index]? = some right → relation left right) :
    List.Forall₂ relation lefts rights :=
  List.forall₂_iff_get.mpr ⟨length, fun index inside within =>
    related index _ _ (List.getElem?_eq_getElem inside) (List.getElem?_eq_getElem within)⟩

/-- Numbers that are no less and do not sum to more are the same. -/
theorem eq_of_le_of_sum_le {front back : List Nat} (below : List.Forall₂ (· ≤ ·) front back)
    (sum : back.sum ≤ front.sum) : front = back := by
  induction below with
  | nil => rfl
  | @cons first second front back least rest ih =>
      rw [List.sum_cons, List.sum_cons] at sum
      have later := rest.sum_le_sum
      rw [ih (by omega), Nat.le_antisymm least (by omega)]

theorem getElem?_range_map {count index value : Nat} {item : Nat → Nat}
    (found : ((List.range count).map item)[index]? = some value) :
    index < count ∧ value = item index := by
  rw [List.getElem?_map, Option.map_eq_some_iff] at found
  obtain ⟨place, present, rfl⟩ := found
  obtain ⟨inside, same⟩ := List.getElem?_eq_some_iff.mp present
  rw [List.getElem_range] at same
  rw [List.length_range] at inside
  exact ⟨inside, by rw [same]⟩

/-! ## The width of a column for a height -/

namespace Table

variable {table : Table} {cap budget : Nat}

theorem fits_rising (cells : List Cell) (cap : Nat) :
    Bisection.Rising fun width => cells.all fun cell => cell.fitsHeight width cap := by
  intro near far order fits
  rw [List.all_eq_true] at fits ⊢
  intro cell member
  exact Cell.fitsHeight_iff.mpr
    ((Cell.height_wider order).trans (Cell.fitsHeight_iff.mp (fits cell member)))

theorem Measured.minimum_le_natural (measured : table.Measured) {index : Nat} {column : Column}
    (found : table.columns[index]? = some column) : column.minimum ≤ column.natural := by
  rw [measured.minimum_le_iff index column found]
  intro row member cell present
  have cellMeasured := (measured.cells row member cell (List.mem_of_getElem? present)).1
  exact cellMeasured.minimum_le_natural.trans
    ((measured.natural_le_iff index column found _).mp le_rfl row member cell present)

theorem requiredWidth_eq {index : Nat} {column : Column}
    (found : table.columns[index]? = some column) :
    table.requiredWidth index cap = Bisection.least
      (fun width => (table.rows.filterMap (·[index]?)).all fun cell => cell.fitsHeight width cap)
      (column.natural - column.minimum) column.minimum column.natural := by
  rw [requiredWidth, found]
  rfl

theorem requiredWidth_le_iff (measured : table.Measured) {index : Nat} {column : Column}
    (found : table.columns[index]? = some column) (explicit : table.explicitHeight ≤ cap)
    {width : Nat} :
    table.requiredWidth index cap ≤ width ↔ column.minimum ≤ width ∧
      ∀ row ∈ table.rows, ∀ cell, row[index]? = some cell → cell.height width ≤ cap := by
  have ordered := measured.minimum_le_natural found
  rw [requiredWidth_eq found, Bisection.least_le_iff (fits_rising _ _) ordered (by omega)]
  refine and_congr_right fun _ => ?_
  have every : ((table.rows.filterMap (·[index]?)).all fun cell => cell.fitsHeight width cap) =
      true ↔ ∀ row ∈ table.rows, ∀ cell, row[index]? = some cell → cell.height width ≤ cap := by
    rw [List.all_eq_true]
    constructor
    · exact fun fits row member cell present => Cell.fitsHeight_iff.mp
        (fits cell (List.mem_filterMap.mpr ⟨row, member, present⟩))
    · intro fits cell member
      obtain ⟨row, inside, present⟩ := List.mem_filterMap.mp member
      exact Cell.fitsHeight_iff.mpr (fits row inside cell present)
  rw [every]
  refine or_iff_right_of_imp fun natural row member cell present => ?_
  obtain ⟨cellMeasured, low⟩ := measured.cells row member cell (List.mem_of_getElem? present)
  rw [Cell.height_natural fun words inside => ((cellMeasured.natural words inside).trans
    ((measured.natural_le_iff index column found _).mp le_rfl row member cell present)).trans
    natural]
  exact low.trans explicit

/-- A greater height never needs a wider column. -/
theorem requiredWidth_antitone (measured : table.Measured) {index : Nat} {column : Column}
    (found : table.columns[index]? = some column) {low high : Nat} (order : low ≤ high) :
    table.requiredWidth index high ≤ table.requiredWidth index low := by
  have ordered := measured.minimum_le_natural found
  obtain ⟨above, below, -, passes⟩ := @Bisection.least_spec _
    (fits_rising (table.rows.filterMap (·[index]?)) low)
    (column.natural - column.minimum) _ _ ordered (by omega)
  rw [requiredWidth_eq found, requiredWidth_eq found,
    Bisection.least_le_iff (fits_rising _ _) ordered (by omega)]
  refine ⟨above, ?_⟩
  rcases Nat.lt_or_eq_of_le below with inside | last
  · have fits := passes inside
    rw [List.all_eq_true] at fits
    refine .inr (List.all_eq_true.mpr fun cell member => ?_)
    exact Cell.fitsHeight_iff.mpr ((Cell.fitsHeight_iff.mp (fits cell member)).trans order)
  · exact .inl last.symm.le

theorem requiredWidth_le_natural (measured : table.Measured) {index : Nat} {column : Column}
    (found : table.columns[index]? = some column) :
    table.requiredWidth index cap ≤ column.natural := by
  rw [requiredWidth_eq found]
  have ordered := measured.minimum_le_natural found
  exact (Bisection.least_spec (fits_rising _ _) ordered (by omega)).2.1

/-! ## Budgets -/

theorem fitsBudgetFrom_iff (used : Nat) (columns : List Nat) :
    table.fitsBudgetFrom cap budget used columns = true ↔
      (columns = [] ∨ used + (columns.map (table.requiredWidth · cap)).sum ≤ budget) := by
  induction columns generalizing used with
  | nil => simp [fitsBudgetFrom]
  | cons column rest ih =>
      rw [fitsBudgetFrom, List.map_cons, List.sum_cons, or_iff_right (List.cons_ne_nil _ _)]
      split
      · rename_i beyond
        refine iff_of_false Bool.false_ne_true fun inside => ?_
        omega
      · rename_i inside
        rw [ih, Nat.add_assoc]
        refine ⟨fun holds => ?_, .inr⟩
        rcases holds with rfl | holds
        · rw [List.map_nil, List.sum_nil]
          omega
        · exact holds

theorem fitsBudget_iff : table.fitsBudget cap budget = true ↔
    ((List.range table.columns.length).map (table.requiredWidth · cap)).sum ≤ budget := by
  rw [fitsBudget, fitsBudgetFrom_iff, Nat.zero_add]
  refine or_iff_right_of_imp fun empty => ?_
  rw [empty]
  exact Nat.zero_le _

theorem column_of_lt {index : Nat} (inside : index < table.columns.length) :
    ∃ column, table.columns[index]? = some column :=
  ⟨_, List.getElem?_eq_getElem inside⟩

theorem fitsBudget_rising (measured : table.Measured) (budget : Nat) :
    Bisection.Rising fun cap => table.fitsBudget cap budget := by
  intro near far order fits
  rw [fitsBudget_iff] at fits ⊢
  refine (List.sum_le_sum fun index member => ?_).trans fits
  obtain ⟨column, found⟩ := column_of_lt (List.mem_range.mp member)
  exact requiredWidth_antitone measured found order

theorem height_le_iff (measured : table.Measured) {widths : List Nat} :
    table.height widths ≤ cap ↔ 1 ≤ cap ∧ ∀ row ∈ table.rows, ∀ (index : Nat) cell width,
      row[index]? = some cell → widths[index]? = some width → cell.height width ≤ cap := by
  have members : ∀ property : Nat → Prop,
      (∀ height ∈ table.rows.flatMap fun row => List.zipWith Cell.height row widths,
        property height) ↔ ∀ row ∈ table.rows, ∀ (index : Nat) cell width,
          row[index]? = some cell → widths[index]? = some width → property (cell.height width) := by
    intro property
    rw [List.forall_mem_flatMap]
    refine forall₂_congr fun row _ => ?_
    constructor
    · intro holds index cell width present given
      refine holds _ (@List.mem_of_getElem? _ _ index _ ?_)
      exact List.getElem?_zipWith_eq_some.mpr ⟨cell, width, present, given, rfl⟩
    · intro holds height member
      obtain ⟨index, found⟩ := List.getElem?_of_mem member
      obtain ⟨cell, width, present, given, rfl⟩ := List.getElem?_zipWith_eq_some.mp found
      exact holds index cell width present given
  rw [height, ← members (· ≤ cap)]
  cases highest : (table.rows.flatMap fun row => List.zipWith Cell.height row widths).max? with
  | none =>
      rw [List.max?_eq_none_iff] at highest
      rw [highest, Option.getD_none]
      exact ⟨fun one => ⟨one, nofun⟩, fun both => both.1⟩
  | some greatest =>
      rw [Option.getD_some, List.max?_le_iff highest]
      refine ⟨fun each => ⟨?_, each⟩, fun both => both.2⟩
      have member := List.max?_mem highest
      refine le_trans ?_ (each greatest member)
      refine (members (1 ≤ ·)).mpr (fun row inside index cell width present _ => ?_) greatest member
      have cellMeasured := (measured.cells row inside cell (List.mem_of_getElem? present)).1
      exact cellMeasured.explicitHeight_pos.trans (Cell.explicitHeight_le_height cell width)

theorem explicitHeight_le_height (measured : table.Measured) {widths : List Nat}
    (length : widths.length = table.columns.length) :
    table.explicitHeight ≤ table.height widths := by
  obtain ⟨one, heights⟩ := (height_le_iff measured).mp le_rfl
  refine (measured.explicitHeight_le_iff _).mpr ⟨one, fun row member cell inside => ?_⟩
  obtain ⟨index, found⟩ := List.getElem?_of_mem inside
  have present : index < widths.length := by
    rw [length, ← measured.rows row member]
    exact (List.getElem?_eq_some_iff.mp found).1
  exact (Cell.explicitHeight_le_height cell _).trans
    (heights row member index cell _ found (List.getElem?_eq_getElem present))

theorem minimums_getElem? {index : Nat} {column : Column}
    (found : table.columns[index]? = some column) :
    table.minimums[index]? = some column.minimum := by
  rw [minimums, List.getElem?_map, found]
  rfl

theorem naturals_getElem? {index : Nat} {column : Column}
    (found : table.columns[index]? = some column) :
    table.naturals[index]? = some column.natural := by
  rw [naturals, List.getElem?_map, found]
  rfl

theorem requiredWidths_le (measured : table.Measured) {widths : List Nat}
    (least : List.Forall₂ (· ≤ ·) table.minimums widths) :
    List.Forall₂ (· ≤ ·) ((List.range table.columns.length).map
      (table.requiredWidth · (table.height widths))) widths := by
  have length : widths.length = table.columns.length := by
    rw [← least.length_eq, minimums, List.length_map]
  refine forall₂_of_getElem? (by rw [List.length_map, List.length_range, length]) ?_
  intro index required width found given
  obtain ⟨inside, rfl⟩ := getElem?_range_map found
  obtain ⟨column, present⟩ := column_of_lt inside
  rw [requiredWidth_le_iff measured present (explicitHeight_le_height measured length)]
  refine ⟨forall₂_getElem? least (minimums_getElem? present) given, ?_⟩
  exact fun row member cell cellFound =>
    ((height_le_iff measured).mp le_rfl).2 row member index cell width cellFound given

theorem fitsBudget_height (measured : table.Measured) {widths : List Nat}
    (least : List.Forall₂ (· ≤ ·) table.minimums widths) (within : widths.sum ≤ budget) :
    table.fitsBudget (table.height widths) budget = true :=
  fitsBudget_iff.mpr ((requiredWidths_le measured least).sum_le_sum.trans within)

theorem leastHeight_spec (measured : table.Measured) (fits : table.minimums.sum ≤ budget) :
    table.explicitHeight ≤ table.leastHeight budget ∧
      table.fitsBudget (table.leastHeight budget) budget = true ∧
      ∀ height, table.explicitHeight ≤ height → table.fitsBudget height budget = true →
        table.leastHeight budget ≤ height := by
  have least : List.Forall₂ (· ≤ ·) table.minimums table.minimums := List.forall₂_refl _
  have length : table.minimums.length = table.columns.length := List.length_map _
  have ordered := explicitHeight_le_height measured length
  have rising := fitsBudget_rising measured budget
  have enough : table.height table.minimums ≤ table.explicitHeight +
      (table.height table.minimums - table.explicitHeight) := by omega
  obtain ⟨above, below, -, found⟩ := Bisection.least_spec rising ordered enough
  refine ⟨above, ?_, fun height explicit holds => ?_⟩
  · rcases Nat.lt_or_eq_of_le below with inside | last
    · exact found inside
    · rw [leastHeight, last]
      exact fitsBudget_height measured least fits
  · exact (Bisection.least_le_iff rising ordered enough).mpr ⟨explicit, .inr holds⟩

/-! ## Sharing out -/

theorem foldlM_checkedSub {items : List Nat} {amount : Nat} (enough : items.sum ≤ amount) :
    items.foldlM checkedSub amount = some (amount - items.sum) := by
  induction items generalizing amount with
  | nil => rfl
  | cons item rest ih =>
      rw [List.sum_cons] at enough
      rw [List.foldlM_cons, checkedSub, if_pos (by omega), Option.bind_eq_bind, Option.bind_some,
        ih (by omega), List.sum_cons, Nat.sub_sub]

theorem sum_modify_succ {widths : List Nat} {place : Nat} (inside : place < widths.length) :
    (widths.modify place (· + 1)).sum = widths.sum + 1 := by
  induction widths generalizing place with
  | nil => exact absurd inside (Nat.not_lt_zero _)
  | cons width rest ih =>
      cases place with
      | zero =>
          rw [List.modify_zero_cons, List.sum_cons, List.sum_cons]
          omega
      | succ place =>
          rw [List.modify_succ_cons, List.sum_cons, List.sum_cons,
            ih (Nat.lt_of_succ_lt_succ inside)]
          omega

theorem bumpAll_spec {widths places : List Nat} (once : places.Nodup)
    (inside : ∀ place ∈ places, place < widths.length) :
    (bumpAll widths places).sum = widths.sum + places.length ∧
      ∀ index : Nat, (bumpAll widths places)[index]? =
        (widths[index]?).map fun width => if index ∈ places then width + 1 else width := by
  induction places generalizing widths with
  | nil => exact ⟨rfl, fun index => by simp [bumpAll]⟩
  | cons place rest ih =>
      obtain ⟨absent, others⟩ := List.nodup_cons.mp once
      rw [List.forall_mem_cons] at inside
      have later : ∀ other ∈ rest, other < (widths.modify place (· + 1)).length := by
        rw [List.length_modify]
        exact inside.2
      obtain ⟨sum, each⟩ := ih others later
      refine ⟨?_, fun index => ?_⟩
      · refine sum.trans ?_
        rw [sum_modify_succ inside.1, List.length_cons]
        omega
      · refine (each index).trans ?_
        rw [List.getElem?_modify]
        cases widths[index]? with
        | none => rfl
        | some width =>
            by_cases here : place = index
            · subst here
              simp [absent]
            · simp [here, Ne.symm here]

theorem length_bumpAll (widths places : List Nat) :
    (bumpAll widths places).length = widths.length := by
  induction places generalizing widths with
  | nil => rfl
  | cons place rest ih => exact (ih _).trans (List.length_modify _ _ _)

/-! ## Sharing out in order -/

theorem remainderOrder_trans (first second third : Nat × Nat)
    (left : remainderOrder first second = true) (right : remainderOrder second third = true) :
    remainderOrder first third = true := by
  simp only [remainderOrder, Bool.or_eq_true, Bool.and_eq_true, decide_eq_true_eq] at left right ⊢
  omega

theorem remainderOrder_total (first second : Nat × Nat) :
    (remainderOrder first second || remainderOrder second first) = true := by
  simp only [remainderOrder, Bool.or_eq_true, Bool.and_eq_true, decide_eq_true_eq]
  omega

theorem sum_zipWith_sub {naturals widths : List Nat}
    (below : List.Forall₂ (· ≤ ·) widths naturals) :
    (List.zipWith (· - ·) naturals widths).sum + widths.sum = naturals.sum := by
  induction below with
  | nil => rfl
  | cons less _ ih =>
      rw [List.zipWith_cons_cons, List.sum_cons, List.sum_cons, List.sum_cons]
      omega

def largest (remainders : List Nat) (count : Nat) : List Nat :=
  ((remainders.zipIdx.mergeSort remainderOrder).take count).map (·.2)

theorem nodup_largest (remainders : List Nat) (count : Nat) : (largest remainders count).Nodup := by
  rw [largest, List.map_take]
  have places : ((remainders.zipIdx.mergeSort remainderOrder).map (·.2)).Perm
      (remainders.zipIdx.map (·.2)) := (List.mergeSort_perm _ _).map _
  refine List.Nodup.sublist (List.take_sublist _ _) (places.nodup_iff.mpr ?_)
  rw [List.zipIdx_map_snd]
  exact List.nodup_range'

theorem lt_of_mem_largest {remainders : List Nat} {count index : Nat}
    (member : index ∈ largest remainders count) : index < remainders.length := by
  obtain ⟨⟨remainder, place⟩, inside, rfl⟩ := List.mem_map.mp member
  have present := List.mem_mergeSort.mp (List.mem_of_mem_take inside)
  exact List.snd_lt_of_mem_zipIdx present

theorem length_largest {remainders : List Nat} {count : Nat} (few : count ≤ remainders.length) :
    (largest remainders count).length = count := by
  rw [largest, List.length_map, List.length_take, List.length_mergeSort, List.length_zipIdx]
  omega

/-- Each of them is rounded off. -/
theorem positive_of_mem_largest {remainders : List Nat} {count total index remainder : Nat}
    (positive : 0 < total) (small : ∀ item ∈ remainders, item ≤ total)
    (enough : total * count ≤ remainders.sum) (member : index ∈ largest remainders count)
    (found : remainders[index]? = some remainder) : 0 < remainder := by
  obtain ⟨⟨other, place⟩, inside, rfl⟩ := List.mem_map.mp member
  have present := List.mem_mergeSort.mp (List.mem_of_mem_take inside)
  obtain rfl := Option.some.inj (found.symm.trans (List.mem_zipIdx_iff_getElem?.mp present))
  have items : ((remainders.zipIdx.mergeSort remainderOrder).map (·.1)).Perm remainders := by
    have all := (List.mergeSort_perm remainders.zipIdx remainderOrder).map (·.1)
    rwa [List.zipIdx_map_fst] at all
  have descending : ((remainders.zipIdx.mergeSort remainderOrder).map (·.1)).Pairwise (· ≥ ·) := by
    rw [List.pairwise_map]
    refine (List.pairwise_mergeSort remainderOrder_trans remainderOrder_total _).imp ?_
    intro left right ordered
    simp only [remainderOrder, Bool.or_eq_true, Bool.and_eq_true, decide_eq_true_eq] at ordered
    omega
  have whole : total * count ≤
      ((remainders.zipIdx.mergeSort remainderOrder).map (·.1)).sum := by rwa [items.sum_eq]
  have first : remainder ∈
      ((remainders.zipIdx.mergeSort remainderOrder).map (·.1)).take count := by
    rw [← List.map_take]
    exact List.mem_map_of_mem inside
  exact Apportionment.positive_of_mem_take positive descending
    (fun item member => small item (items.mem_iff.mp member)) whole remainder first

theorem getElem?_zipWith_add {widths shares : List Nat} {index : Nat} {width share : Nat}
    (first : widths[index]? = some width) (second : shares[index]? = some share) :
    (List.zipWith (· + ·) widths shares)[index]? = some (width + share) :=
  List.getElem?_zipWith_eq_some.mpr ⟨width, share, first, second, rfl⟩

theorem sum_zipWith_add {widths shares : List Nat} (length : widths.length = shares.length) :
    (List.zipWith (· + ·) widths shares).sum = widths.sum + shares.sum := by
  induction widths generalizing shares with
  | nil =>
      rw [List.length_eq_zero_iff.mp length.symm]
      rfl
  | cons width rest ih =>
      cases shares with
      | nil => exact nomatch length
      | cons share others =>
          rw [List.zipWith_cons_cons, List.sum_cons, List.sum_cons, List.sum_cons,
            ih (Nat.succ.inj length)]
          omega

/-- The spare columns are shared out, as far as the columns lack some, and no column gets more than
it lacks. -/
theorem distribute_spec {naturals widths : List Nat} (spare : Nat)
    (below : List.Forall₂ (· ≤ ·) widths naturals) :
    ∃ result, distribute naturals widths spare = some result ∧
      List.Forall₂ (· ≤ ·) widths result ∧ List.Forall₂ (· ≤ ·) result naturals ∧
      result.sum = widths.sum + min spare (naturals.sum - widths.sum) := by
  have lacking := sum_zipWith_sub below
  have lackLength : (List.zipWith (· - ·) naturals widths).length = widths.length := by
    rw [List.length_zipWith, below.length_eq, Nat.min_self]
  have lackOf : ∀ (index natural width : Nat), naturals[index]? = some natural →
      widths[index]? = some width →
      (List.zipWith (· - ·) naturals widths)[index]? = some (natural - width) :=
    fun index natural width first second =>
      List.getElem?_zipWith_eq_some.mpr ⟨natural, width, first, second, rfl⟩
  rw [distribute]
  generalize List.zipWith (· - ·) naturals widths = flexibility at lacking lackLength lackOf ⊢
  obtain lackSum : naturals.sum - widths.sum = flexibility.sum := by omega
  rw [lackSum]
  by_cases none : flexibility.sum = 0
  · refine ⟨widths, if_pos none, List.forall₂_refl _, below, ?_⟩
    rw [none, Nat.min_zero, Nat.add_zero]
  · rw [if_neg none]
    have positive : 0 < flexibility.sum := Nat.pos_of_ne_zero none
    have bounded : min spare flexibility.sum ≤ flexibility.sum := Nat.min_le_right _ _
    generalize min spare flexibility.sum = amount at bounded ⊢
    have beyond := Apportionment.sum_shares_le flexibility positive amount
    have left := Apportionment.left_over flexibility amount
    have small : ∀ item ∈ flexibility.map fun flex => flex * amount % flexibility.sum,
        item ≤ flexibility.sum := by
      intro item member
      obtain ⟨flex, -, rfl⟩ := List.mem_map.mp member
      exact (Nat.mod_lt _ positive).le
    dsimp only
    rw [foldlM_checkedSub beyond, Option.bind_eq_bind, Option.bind_some]
    have sharesOf : ∀ (index natural width : Nat), naturals[index]? = some natural →
        widths[index]? = some width →
        (flexibility.map fun flex => flex * amount / flexibility.sum)[index]? =
            some ((natural - width) * amount / flexibility.sum) ∧
          (flexibility.map fun flex => flex * amount % flexibility.sum)[index]? =
            some ((natural - width) * amount % flexibility.sum) := by
      intro index natural width first second
      rw [List.getElem?_map, List.getElem?_map, lackOf index natural width first second]
      exact ⟨rfl, rfl⟩
    have few := Apportionment.count_le_length positive small left.le
    generalize remainderEq : amount - (flexibility.map fun flex =>
      flex * amount / flexibility.sum).sum = remaining at left few ⊢
    have places : ∀ place ∈ largest (flexibility.map fun flex => flex * amount % flexibility.sum)
        remaining, place < (List.zipWith (· + ·) widths (flexibility.map fun flex =>
          flex * amount / flexibility.sum)).length := by
      intro place member
      have inside := lt_of_mem_largest member
      rw [List.length_map, lackLength] at inside
      rwa [List.length_zipWith, List.length_map, lackLength, Nat.min_self]
    obtain ⟨sum, each⟩ := bumpAll_spec (nodup_largest _ _) places
    have resultOf : ∀ (index natural width result : Nat), naturals[index]? = some natural →
        widths[index]? = some width → (bumpAll (List.zipWith (· + ·) widths (flexibility.map
          fun flex => flex * amount / flexibility.sum)) (largest (flexibility.map
          fun flex => flex * amount % flexibility.sum) remaining))[index]? = some result →
        width ≤ result ∧ result ≤ natural := by
      intro index natural width result first second third
      obtain ⟨share, remainder⟩ := sharesOf index natural width first second
      rw [each, getElem?_zipWith_add second share, Option.map_some, Option.some.injEq] at third
      have least := forall₂_getElem? below second first
      subst third
      split
      · rename_i member
        have rounded := positive_of_mem_largest positive small left.le member remainder
        have less := Apportionment.share_lt bounded rounded
        generalize (natural - width) * amount / flexibility.sum = given at less ⊢
        omega
      · have less := @Apportionment.share_le _ _ (natural - width) bounded
        generalize (natural - width) * amount / flexibility.sum = given at less ⊢
        omega
    have length : (bumpAll (List.zipWith (· + ·) widths (flexibility.map
        fun flex => flex * amount / flexibility.sum)) (largest (flexibility.map
        fun flex => flex * amount % flexibility.sum) remaining)).length = widths.length := by
      rw [length_bumpAll, List.length_zipWith, List.length_map, lackLength, Nat.min_self]
    refine ⟨_, rfl, ?_, ?_, ?_⟩
    · refine forall₂_of_getElem? length.symm fun index width result second third => ?_
      have inside := (List.getElem?_eq_some_iff.mp second).1
      rw [below.length_eq] at inside
      exact (resultOf index _ width result (List.getElem?_eq_getElem inside) second third).1
    · refine forall₂_of_getElem? (length.trans below.length_eq)
        fun index result natural third first => ?_
      have inside := (List.getElem?_eq_some_iff.mp first).1
      rw [← below.length_eq] at inside
      exact (resultOf index natural _ result first (List.getElem?_eq_getElem inside) third).2
    · refine sum.trans ?_
      rw [length_largest few, sum_zipWith_add (by rw [List.length_map, lackLength])]
      omega

/-! ## The best widths -/

/-- Widths that every cell of the table may have. -/
structure Admissible (table : Table) (widths : List Nat) : Prop where
  length : table.columns.length = widths.length
  cells : ∀ row ∈ table.rows, ∀ (index : Nat) cell width, row[index]? = some cell →
    widths[index]? = some width → cell.Admissible width

/-- The widths that all cells may have are those that are no less than the minimums. -/
theorem admissible_iff (measured : table.Measured) {widths : List Nat} :
    table.Admissible widths ↔ List.Forall₂ (· ≤ ·) table.minimums widths := by
  have cellOf : ∀ row ∈ table.rows, ∀ (index : Nat) cell, row[index]? = some cell →
      cell.Measured :=
    fun row member index cell found =>
      (measured.cells row member cell (List.mem_of_getElem? found)).1
  constructor
  · rintro ⟨length, cells⟩
    refine forall₂_of_getElem? (by rw [minimums, List.length_map, length]) ?_
    intro index minimum width first second
    rw [minimums, List.getElem?_map, Option.map_eq_some_iff] at first
    obtain ⟨column, found, rfl⟩ := first
    rw [measured.minimum_le_iff index column found]
    intro row member cell present
    rw [(cellOf row member index cell present).minimum_le_iff]
    exact cells row member index cell width present second
  · intro least
    refine ⟨by rw [← least.length_eq, minimums, List.length_map], ?_⟩
    intro row member index cell width present given
    obtain ⟨inside, -⟩ := List.getElem?_eq_some_iff.mp present
    rw [measured.rows row member] at inside
    obtain ⟨column, found⟩ := column_of_lt inside
    rw [← (cellOf row member index cell present).minimum_le_iff]
    exact (measured.minimum_le_iff index column found width).mp
      (forall₂_getElem? least (minimums_getElem? found) given) row member cell present

theorem minimums_le_naturals (measured : table.Measured) :
    List.Forall₂ (· ≤ ·) table.minimums table.naturals := by
  refine forall₂_of_getElem? (by rw [minimums, naturals, List.length_map, List.length_map]) ?_
  intro index minimum natural first second
  rw [minimums, List.getElem?_map, Option.map_eq_some_iff] at first
  obtain ⟨column, found, rfl⟩ := first
  obtain rfl := Option.some.inj (second.symm.trans (naturals_getElem? found))
  exact measured.minimum_le_natural found

theorem requiredWidths_between (measured : table.Measured) (explicit : table.explicitHeight ≤ cap) :
    List.Forall₂ (· ≤ ·) table.minimums
        ((List.range table.columns.length).map (table.requiredWidth · cap)) ∧
      List.Forall₂ (· ≤ ·) ((List.range table.columns.length).map (table.requiredWidth · cap))
        table.naturals := by
  constructor
  · refine forall₂_of_getElem? (by rw [minimums, List.length_map, List.length_map,
      List.length_range]) ?_
    intro index minimum width first second
    obtain ⟨inside, rfl⟩ := getElem?_range_map second
    obtain ⟨column, found⟩ := column_of_lt inside
    obtain rfl := Option.some.inj (first.symm.trans (minimums_getElem? found))
    exact ((requiredWidth_le_iff measured found explicit).mp le_rfl).1
  · refine forall₂_of_getElem? (by rw [naturals, List.length_map, List.length_map,
      List.length_range]) ?_
    intro index width natural first second
    obtain ⟨inside, rfl⟩ := getElem?_range_map first
    obtain ⟨column, found⟩ := column_of_lt inside
    obtain rfl := Option.some.inj (second.symm.trans (naturals_getElem? found))
    exact requiredWidth_le_natural measured found

/-- At widths that are no less than the required ones no row is higher. -/
theorem height_le_of_required (measured : table.Measured) {widths : List Nat}
    (explicit : table.explicitHeight ≤ cap)
    (enough : List.Forall₂ (· ≤ ·)
      ((List.range table.columns.length).map (table.requiredWidth · cap)) widths) :
    table.height widths ≤ cap := by
  obtain ⟨one, -⟩ := (measured.explicitHeight_le_iff _).mp explicit
  refine (height_le_iff measured).mpr ⟨one, fun row member index cell width present given => ?_⟩
  obtain ⟨inside, -⟩ := List.getElem?_eq_some_iff.mp present
  rw [measured.rows row member] at inside
  obtain ⟨column, found⟩ := column_of_lt inside
  have required : ((List.range table.columns.length).map (table.requiredWidth · cap))[index]? =
      some (table.requiredWidth index cap) := by
    rw [List.getElem?_map, List.getElem?_range inside]
    rfl
  exact ((requiredWidth_le_iff measured found explicit).mp
    (forall₂_getElem? enough required given)).2 row member cell present

theorem widths_natural {viewport : Option Nat}
    (fits : ∀ columns, viewport = some columns → table.naturals.sum ≤ table.budget columns) :
    table.widths viewport = some table.naturals := by
  rw [widths.eq_def]
  split
  · rename_i empty
    rw [naturals, List.isEmpty_iff.mp empty, List.map_nil]
  · cases viewport with
    | none => rfl
    | some columns => exact if_pos (fits columns rfl)

theorem columns_nonempty {viewport : Nat} (wide : table.budget viewport < table.naturals.sum) :
    table.columns.isEmpty = false := by
  rw [Bool.eq_false_iff]
  intro empty
  rw [naturals, List.isEmpty_iff.mp empty, List.map_nil, List.sum_nil] at wide
  exact absurd wide (Nat.not_lt_zero _)

/-- Where they leave nothing over, the minimums are returned. -/
theorem widths_minimum {viewport : Nat} (wide : table.budget viewport < table.naturals.sum)
    (tight : table.budget viewport ≤ table.minimums.sum) :
    table.widths (some viewport) = some table.minimums := by
  rw [widths, columns_nonempty wide, if_neg Bool.false_ne_true]
  dsimp only
  rw [if_neg (Nat.not_le_of_gt wide), if_pos tight]

/-- Where the natural widths do not fit and the minimums leave columns over, the whole budget is
given and no widths within it have a lower highest row. -/
theorem widths_within (measured : table.Measured) {viewport : Nat}
    (wide : table.budget viewport < table.naturals.sum)
    (fits : table.minimums.sum < table.budget viewport) :
    ∃ widths, table.widths (some viewport) = some widths ∧
      List.Forall₂ (· ≤ ·) table.minimums widths ∧ List.Forall₂ (· ≤ ·) widths table.naturals ∧
      widths.sum = table.budget viewport ∧
      ∀ other, List.Forall₂ (· ≤ ·) table.minimums other → other.sum ≤ table.budget viewport →
        table.height widths ≤ table.height other := by
  obtain ⟨explicit, within, lowest⟩ := leastHeight_spec measured fits.le
  obtain ⟨above, below⟩ := requiredWidths_between measured explicit
  have room := fitsBudget_iff.mp within
  have spare : checkedSub (table.budget viewport) ((List.range table.columns.length).map
      (table.requiredWidth · (table.leastHeight (table.budget viewport)))).sum =
      some (table.budget viewport - ((List.range table.columns.length).map
        (table.requiredWidth · (table.leastHeight (table.budget viewport)))).sum) := if_pos room
  obtain ⟨result, shared, more, natural, sum⟩ := distribute_spec (table.budget viewport -
    ((List.range table.columns.length).map
      (table.requiredWidth · (table.leastHeight (table.budget viewport)))).sum) below
  refine ⟨result, ?_, ?_, natural, ?_, fun other least inside => ?_⟩
  · rw [widths, columns_nonempty wide, if_neg Bool.false_ne_true]
    dsimp only
    rw [if_neg (by omega), if_neg (by omega), spare, Option.bind_eq_bind, Option.bind_some, shared]
  · refine forall₂_of_getElem? (above.length_eq.trans more.length_eq) ?_
    intro index minimum width first second
    obtain ⟨inside, -⟩ := List.getElem?_eq_some_iff.mp first
    rw [above.length_eq] at inside
    have middle := List.getElem?_eq_getElem inside
    exact (forall₂_getElem? above first middle).trans (forall₂_getElem? more middle second)
  · omega
  · have length : other.length = table.columns.length := by
      rw [← least.length_eq, minimums, List.length_map]
    exact (height_le_of_required measured explicit more).trans (lowest _
      (explicitHeight_le_height measured length) (fitsBudget_height measured least inside))

/-- The widths of a table are between the minimums and the natural widths, no subtraction on the way
to them fails, and they are the best ones for the viewport: the natural widths where these fit,
widths that fill the viewport and have the lowest highest row of all that fit where some do, and the
least total where none do. -/
theorem widths_optimal (rules : TextRules) (rows : List (List (List Char)))
    (viewport : Option Nat) :
    let table := Table.new rules rows
    ∃ widths, table.widths viewport = some widths ∧
      List.Forall₂ (· ≤ ·) table.minimums widths ∧ List.Forall₂ (· ≤ ·) widths table.naturals ∧
      (viewport = none → widths = table.naturals) ∧
      ∀ columns, viewport = some columns →
        (table.naturals.sum ≤ table.budget columns → widths = table.naturals) ∧
          (table.budget columns < table.naturals.sum →
            (table.minimums.sum ≤ table.budget columns → widths.sum = table.budget columns ∧
              ∀ other, table.Admissible other → other.sum ≤ table.budget columns →
                table.height widths ≤ table.height other) ∧
            (table.budget columns < table.minimums.sum →
              ∀ other, table.Admissible other → widths.sum ≤ other.sum)) := by
  intro table
  have measured : table.Measured := table_measured rows
  have between := minimums_le_naturals measured
  clear_value table
  cases viewport with
  | none =>
      refine ⟨table.naturals, widths_natural nofun, between, List.forall₂_refl _, ?_, nofun⟩
      exact fun _ => rfl
  | some columns =>
      rcases Nat.lt_or_ge (table.budget columns) table.naturals.sum with wide | fits
      · rcases Nat.lt_or_ge table.minimums.sum (table.budget columns) with room | tight
        · obtain ⟨widths, found, above, below, sum, best⟩ := widths_within measured wide room
          refine ⟨widths, found, above, below, nofun, fun given same => ?_⟩
          obtain rfl := Option.some.inj same
          refine ⟨fun fits => absurd wide (Nat.not_lt_of_ge fits), fun _ => ⟨fun _ => ?_, ?_⟩⟩
          · exact ⟨sum, fun other may => best other ((admissible_iff measured).mp may)⟩
          · exact fun beyond => absurd beyond (Nat.not_lt_of_gt room)
        · refine ⟨table.minimums, widths_minimum wide tight, List.forall₂_refl _, between, ?_⟩
          refine ⟨nofun, fun given same => ?_⟩
          obtain rfl := Option.some.inj same
          refine ⟨fun fits => absurd wide (Nat.not_lt_of_ge fits), fun _ => ⟨fun exact => ?_, ?_⟩⟩
          · refine ⟨Nat.le_antisymm exact tight, fun other may inside => ?_⟩
            have least := (admissible_iff measured).mp may
            rw [eq_of_le_of_sum_le least (inside.trans tight)]
          · exact fun _ other may => ((admissible_iff measured).mp may).sum_le_sum
      · refine ⟨table.naturals, widths_natural ?_, between, List.forall₂_refl _, nofun, ?_⟩
        · rintro given ⟨⟩
          exact fits
        · rintro given ⟨⟩
          exact ⟨fun _ => rfl, fun wide => absurd wide (Nat.not_lt_of_ge fits)⟩

end Table

end Kvist.Blad.Tables
