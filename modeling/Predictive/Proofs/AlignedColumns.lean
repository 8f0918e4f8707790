import Mathlib.Data.List.Forall2
import Predictive.Proofs.Words
import Predictive.Text.Columns

/-!
Columns are aligned. In a table whose rows all have as many cells as the first one, no cell and no width is looked up
that is not there (`alignColumns?_eq_some`), and if no cell has a line break, each line shows a row
(`Tabular.aligned`): a column begins and ends behind the same number of characters in all lines, holds its cell behind
nothing but spaces, and is separated from the next one by a bar. No column is wider than its widest cell.
-/
namespace Predictive.Text

/-! ### Lookups -/

/-- The widths of the columns that the first row has, if all rows have them. -/
def columnWidths? : List (List String) → Option (List Nat)
  | [] => some []
  | header :: rows =>
    (List.range header.length).mapM fun column =>
      ((header :: rows).mapM fun row => row[column]?.map String.length).map widest

/-- The line of a row, if there is a width for each of its cells. -/
def alignRow? (widths : List Nat) (row : List String) : Option String := do
  let cells ← row.zipIdx.mapM fun item => widths[item.2]?.map fun width => alignRight width item.1
  return " | ".intercalate cells

/-- The lines of a table, if every lookup finds a cell or a width. -/
def alignColumns? (rows : List (List String)) : Option String := do
  let widths ← columnWidths? rows
  let lines ← rows.mapM (alignRow? widths)
  return "\n".intercalate lines

/-- A text without a line break. -/
def OneLine (text : String) : Prop := '\n' ∉ text.toList

instance (text : String) : Decidable (OneLine text) := inferInstanceAs (Decidable (¬ _))

/-- Rows with as many cells as the first one has, and no line break in a cell. -/
structure Tabular (rows : List (List String)) : Prop where
  rectangular : ∀ header ∈ rows.head?, ∀ row ∈ rows, row.length = header.length
  unbroken : ∀ row ∈ rows, ∀ cell ∈ row, OneLine cell

theorem mapM_eq_some {α β : Type} {f : α → Option β} {g : α → β} {list : List α}
    (found : ∀ item ∈ list, f item = some (g item)) : list.mapM f = some (list.map g) := by
  induction list with
  | nil => rfl
  | cons item rest ih =>
    have later := ih fun other member => found other (List.mem_cons_of_mem item member)
    rw [List.mapM_cons, found item List.mem_cons_self, later]
    rfl

theorem columnWidths?_eq_some {rows : List (List String)} (tabular : Tabular rows) :
    columnWidths? rows = some (columnWidths rows) := by
  cases rows with
  | nil => rfl
  | cons header rows =>
    refine mapM_eq_some fun column inside => ?_
    have found : ∀ row ∈ header :: rows, row[column]?.map String.length = some (cellWidth row column) := by
      intro row member
      have width : column < row.length := by
        rw [tabular.rectangular header rfl row member]
        exact List.mem_range.mp inside
      simp [cellWidth, width]
    rw [mapM_eq_some found]
    rfl

theorem alignRow?_eq_some {widths : List Nat} {row : List String} (enough : row.length ≤ widths.length) :
    alignRow? widths row = some (alignRow widths row) := by
  have found : ∀ item ∈ row.zipIdx, (widths[item.2]?.map fun width => alignRight width item.1) =
      some (alignRight (widths[item.2]?.getD 0) item.1) := by
    intro item member
    have inside : item.2 < widths.length := Nat.lt_of_lt_of_le (List.mem_zipIdx' member).1 enough
    simp [inside]
  have cells : (row.zipIdx.map fun item => alignRight (widths[item.2]?.getD 0) item.1) =
      List.zipWith alignRight widths row := by
    apply List.ext_getElem
    · simp [enough]
    · intro column inRow inBoth
      have inside : column < widths.length := by simp at inRow; omega
      simp [inside]
  rw [alignRow?, mapM_eq_some found, cells]
  rfl

theorem length_columnWidths {header : List String} {rows : List (List String)} :
    (columnWidths (header :: rows)).length = header.length := by
  simp [columnWidths]

theorem Tabular.length_eq {rows : List (List String)} (tabular : Tabular rows) {row : List String}
    (member : row ∈ rows) : row.length = (columnWidths rows).length := by
  cases rows with
  | nil => contradiction
  | cons header rows => rw [length_columnWidths, tabular.rectangular header rfl row member]

/-- No lookup fails. -/
theorem alignColumns?_eq_some {rows : List (List String)} (tabular : Tabular rows) :
    alignColumns? rows = some (alignColumns rows) := by
  have lines : rows.mapM (alignRow? (columnWidths rows)) = some (rows.map (alignRow (columnWidths rows))) :=
    mapM_eq_some fun row member => alignRow?_eq_some (Nat.le_of_eq (tabular.length_eq member))
  simp only [alignColumns?, columnWidths?_eq_some tabular, lines, Option.bind_eq_bind, Option.bind_some]
  rfl

/-! ### Lines -/

/-- So many characters of a text, behind so many others. -/
def slice (start count : Nat) (text : List Char) : List Char := (text.drop start).take count

/-- The number of characters before a column: the columns before it, and a bar behind each of them. -/
def columnStart : (widths : List Nat) → (column : Nat) → Nat
  | width :: widths, column + 1 => width + 3 + columnStart widths column
  | _, _ => 0

/-- A line shows the cells of a row in columns of the given widths. -/
structure ShowsRow (widths : List Nat) (row : List String) (line : List Char) : Prop where
  columns : row.length = widths.length
  /-- The line ends where the last column does. -/
  length_eq : line.length = columnStart widths widths.length - 3
  /-- A column holds its cell behind nothing but spaces. -/
  cell_eq : ∀ (column : Nat) (cell : String) (width : Nat), row[column]? = some cell → widths[column]? = some width →
    ∃ spaces, slice (columnStart widths column) width line = List.replicate spaces ' ' ++ cell.toList
  /-- Behind a column that has a next one there is a bar. -/
  bar_eq : ∀ column width, column + 1 < widths.length → widths[column]? = some width →
    slice (columnStart widths column + width) 3 line = " | ".toList

section
variable {start count : Nat} {front back : List Char}

theorem slice_length_add : slice (front.length + start) count (front ++ back) = slice start count back := by
  rw [slice, List.drop_length_add_append]
  rfl

theorem slice_length : slice 0 front.length (front ++ back) = front := by
  rw [slice, List.drop_zero, List.take_left]

theorem columnStart_zero {widths : List Nat} : columnStart widths 0 = 0 := by
  cases widths <;> rfl

theorem three_le_columnStart {widths : List Nat} (more : widths ≠ []) : 3 ≤ columnStart widths widths.length := by
  obtain ⟨width, widths, rfl⟩ := List.exists_cons_of_ne_nil more
  rw [List.length_cons, columnStart]
  omega

end

section
variable {width : Nat} {cell : String}

theorem toList_alignRight_eq : (alignRight width cell).toList =
    List.replicate (width - cell.length) ' ' ++ cell.toList := by
  rw [toList_alignRight, List.leftpad, String.length_toList]

theorem length_toList_alignRight (fits : cell.length ≤ width) : (alignRight width cell).toList.length = width := by
  rw [String.length_toList, length_alignRight, Nat.max_eq_left fits]

/-- The first column of a line is the cell with spaces before it. -/
theorem slice_alignRight (fits : cell.length ≤ width) (rest : List Char) :
    slice 0 width ((alignRight width cell).toList ++ rest) =
      List.replicate (width - cell.length) ' ' ++ cell.toList := by
  have first : slice 0 (alignRight width cell).toList.length ((alignRight width cell).toList ++ rest) =
      (alignRight width cell).toList := slice_length
  rw [length_toList_alignRight fits] at first
  rw [first, toList_alignRight_eq]

/-- Behind the first column and its bar, a line is the rest of it. -/
theorem slice_behind (fits : cell.length ≤ width) (line : List Char) (start count : Nat) :
    slice (width + 3 + start) count ((alignRight width cell).toList ++ " | ".toList ++ line) =
      slice start count line := by
  have length : ((alignRight width cell).toList ++ " | ".toList).length = width + 3 := by
    rw [List.length_append, length_toList_alignRight fits]
    rfl
  rw [← length, slice_length_add]

/-- A line of one column shows its cell. -/
theorem showsRow_singleton (fits : cell.length ≤ width) : ShowsRow [width] [cell] (alignRight width cell).toList where
  columns := rfl
  length_eq := length_toList_alignRight fits
  cell_eq := by
    intro column own ownWidth inRow inWidths
    cases column with
    | zero =>
      obtain rfl : cell = own := by simpa using inRow
      obtain rfl : width = ownWidth := by simpa using inWidths
      have first := slice_alignRight fits []
      rw [List.append_nil] at first
      exact ⟨_, first⟩
    | succ column => simp at inRow
  bar_eq := by
    intro column _ inside
    simp at inside

/-- A line shows its row if it begins with a column and a bar, and shows the rest of the row behind them. -/
theorem ShowsRow.cons {widths : List Nat} {row : List String} {line : List Char} (fits : cell.length ≤ width)
    (more : widths ≠ []) (shows : ShowsRow widths row line) :
    ShowsRow (width :: widths) (cell :: row) ((alignRight width cell).toList ++ " | ".toList ++ line) where
  columns := congrArg Nat.succ shows.columns
  length_eq := by
    have bar : " | ".toList.length = 3 := rfl
    have room := three_le_columnStart more
    simp only [List.length_append, length_toList_alignRight fits, bar, shows.length_eq, List.length_cons, columnStart]
    omega
  cell_eq := by
    intro column own ownWidth inRow inWidths
    cases column with
    | zero =>
      obtain rfl : cell = own := by simpa using inRow
      obtain rfl : width = ownWidth := by simpa using inWidths
      rw [columnStart_zero, List.append_assoc]
      exact ⟨_, slice_alignRight fits _⟩
    | succ column =>
      rw [columnStart, slice_behind fits]
      exact shows.cell_eq column own ownWidth (by simpa using inRow) (by simpa using inWidths)
  bar_eq := by
    intro column ownWidth inside inWidths
    cases column with
    | zero =>
      obtain rfl : width = ownWidth := by simpa using inWidths
      have bar : slice 0 " | ".toList.length (" | ".toList ++ line) = " | ".toList := slice_length
      have behind : slice ((alignRight width cell).toList.length + 0) 3
          ((alignRight width cell).toList ++ (" | ".toList ++ line)) = " | ".toList := slice_length_add.trans bar
      rwa [length_toList_alignRight fits, Nat.add_comm, ← List.append_assoc] at behind
    | succ column =>
      rw [columnStart, Nat.add_assoc, slice_behind fits]
      exact shows.bar_eq column ownWidth (by simpa using inside) (by simpa using inWidths)

end

/-- A line shows its row in columns that are wide enough. -/
theorem showsRow_alignRow {widths : List Nat} {row : List String}
    (fits : List.Forall₂ (fun width cell => cell.length ≤ width) widths row) :
    ShowsRow widths row (alignRow widths row).toList := by
  induction fits with
  | nil => exact ⟨rfl, rfl, by simp, by simp⟩
  | @cons width cell widths row fit fits ih =>
    cases fits with
    | nil =>
      rw [alignRow, List.zipWith_cons_cons, List.zipWith_nil_left, String.intercalate_singleton]
      exact showsRow_singleton fit
    | cons second rest =>
      rw [alignRow, List.zipWith_cons_cons, List.zipWith_cons_cons, String.intercalate_cons_cons,
        String.toList_append, String.toList_append, ← List.zipWith_cons_cons]
      exact ih.cons fit (List.cons_ne_nil _ _)

/-! ### Columns -/

theorem le_widest {lengths : List Nat} {length : Nat} (member : length ∈ lengths) : length ≤ widest lengths := by
  induction lengths with
  | nil => contradiction
  | cons first rest ih =>
    rw [widest, List.foldr_cons, ← widest]
    rcases List.mem_cons.mp member with rfl | later
    · exact Nat.le_max_left _ _
    · exact Nat.le_trans (ih later) (Nat.le_max_right _ _)

theorem widest_mem {lengths : List Nat} (nonempty : lengths ≠ []) : widest lengths ∈ lengths := by
  induction lengths with
  | nil => contradiction
  | cons first rest ih =>
    rw [widest, List.foldr_cons, ← widest]
    by_cases last : rest = []
    · simp [last, widest]
    · rcases Nat.le_total first (widest rest) with below | above
      · rw [Nat.max_eq_right below]
        exact List.mem_cons_of_mem first (ih last)
      · rw [Nat.max_eq_left above]
        exact List.mem_cons_self

/-- The lines show the rows in columns, none of them wider than one of its cells. -/
structure Aligned (rows : List (List String)) (lines : List (List Char)) : Prop where
  shows : List.Forall₂ (ShowsRow (columnWidths rows)) rows lines
  narrow : ∀ column width : Nat, (columnWidths rows)[column]? = some width →
    ∃ row ∈ rows, ∃ cell : String, row[column]? = some cell ∧ cell.length = width

section
variable {rows : List (List String)} (tabular : Tabular rows)
include tabular

/-- The width of a column is the largest number of characters that a row has in it. -/
theorem Tabular.getElem?_columnWidths {column width : Nat} (listed : (columnWidths rows)[column]? = some width) :
    width = widest (rows.map (cellWidth · column)) ∧
      ∀ row ∈ rows, ∃ cell, row[column]? = some cell ∧ cellWidth row column = cell.length := by
  cases rows with
  | nil => simp [columnWidths] at listed
  | cons header rows =>
    obtain ⟨inside, rfl⟩ := List.getElem?_eq_some_iff.mp listed
    refine ⟨by simp [columnWidths], fun row member => ?_⟩
    have within : column < row.length := tabular.length_eq member ▸ inside
    exact ⟨row[column], List.getElem?_eq_getElem within, by simp [cellWidth, within]⟩

theorem Tabular.fits {row : List String} (member : row ∈ rows) :
    List.Forall₂ (fun (width : Nat) (cell : String) => cell.length ≤ width) (columnWidths rows) row := by
  refine List.forall₂_iff_get.mpr ⟨(tabular.length_eq member).symm, fun column inWidths inRow => ?_⟩
  obtain ⟨widestCell, cells⟩ := tabular.getElem?_columnWidths (List.getElem?_eq_getElem inWidths)
  obtain ⟨cell, found, same⟩ := cells row member
  obtain rfl : row[column] = cell := by simpa [inRow] using found
  rw [List.get_eq_getElem, List.get_eq_getElem, widestCell, ← same]
  exact le_widest (List.mem_map_of_mem member)

theorem Tabular.narrow {column width : Nat} (listed : (columnWidths rows)[column]? = some width) :
    ∃ row ∈ rows, ∃ cell : String, row[column]? = some cell ∧ cell.length = width := by
  obtain ⟨rfl, cells⟩ := tabular.getElem?_columnWidths listed
  have nonempty : rows.map (cellWidth · column) ≠ [] := by
    rintro none
    rw [List.map_eq_nil_iff.mp none] at listed
    simp [columnWidths] at listed
  obtain ⟨row, member, same⟩ := List.mem_map.mp (widest_mem nonempty)
  obtain ⟨cell, found, width⟩ := cells row member
  exact ⟨row, member, cell, found, width.symm.trans same⟩

end

/-! ### Texts of one line -/

theorem OneLine.append {front back : String} (one : OneLine front) (other : OneLine back) :
    OneLine (front ++ back) := by
  rw [OneLine, String.toList_append, List.mem_append, not_or]
  exact ⟨one, other⟩

theorem OneLine.intercalate {mark : String} (one : OneLine mark) {parts : List String}
    (each : ∀ part ∈ parts, OneLine part) : OneLine (mark.intercalate parts) := by
  intro feed
  rw [String.toList_intercalate] at feed
  rcases mem_intercalate feed with inMark | ⟨part, member, inPart⟩
  · exact one inMark
  · obtain ⟨text, listed, rfl⟩ := List.mem_map.mp member
    exact each text listed inPart

theorem OneLine.intercalate_map {mark : String} (one : OneLine mark) {α : Type} {written : α → String} {items : List α}
    (each : ∀ item ∈ items, OneLine (written item)) : OneLine (mark.intercalate (items.map written)) := by
  refine .intercalate one fun part member => ?_
  obtain ⟨item, listed, rfl⟩ := List.mem_map.mp member
  exact each item listed

theorem oneLine_toString (value : Nat) : OneLine (toString value) := by
  intro feed
  have digits : '\n' ∈ Nat.toDigits 10 value := by simpa using feed
  exact absurd (isDigit_of_mem_toDigits _ digits) (by decide)

theorem oneLine_alignRight {width : Nat} {cell : String} (one : OneLine cell) : OneLine (alignRight width cell) := by
  intro feed
  rw [toList_alignRight_eq] at feed
  rcases List.mem_append.mp feed with space | inCell
  · exact absurd (List.eq_of_mem_replicate space) (by decide)
  · exact one inCell

theorem oneLine_alignRow {widths : List Nat} {row : List String} (each : ∀ cell ∈ row, OneLine cell) :
    OneLine (alignRow widths row) := by
  refine .intercalate (by decide) fun part member => ?_
  obtain ⟨column, inside, rfl⟩ := List.mem_iff_getElem.mp member
  rw [List.getElem_zipWith]
  exact oneLine_alignRight (each _ (List.getElem_mem _))

/-- The lines of a table show its rows. -/
theorem Tabular.aligned {rows : List (List String)} (tabular : Tabular rows) (nonempty : rows ≠ []) :
    Aligned rows ((alignColumns rows).toList.splitOn '\n') := by
  have lines : (alignColumns rows).toList.splitOn '\n' =
      rows.map fun row => (alignRow (columnWidths rows) row).toList := by
    rw [alignColumns, String.toList_intercalate, List.map_map]
    refine List.splitOn_intercalate '\n' ?_ (List.map_eq_nil_iff.not.mpr nonempty)
    intro line member
    obtain ⟨row, listed, rfl⟩ := List.mem_map.mp member
    exact oneLine_alignRow (tabular.unbroken row listed)
  rw [lines]
  refine ⟨?_, fun column width => tabular.narrow⟩
  rw [List.forall₂_map_right_iff, List.forall₂_same]
  exact fun row member => showsRow_alignRow (tabular.fits member)

/-- A bar in a cell is no column. -/
example : alignColumns [["a", "b | c"], ["de", ""]] = " a | b | c\nde |      " := by decide

end Predictive.Text
