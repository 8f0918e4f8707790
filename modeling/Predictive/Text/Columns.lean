/-!
Aligned columns of text. Every cell is moved to the right edge of its column, which is as wide as its
widest cell, and neighbouring cells are separated by a bar between two spaces. Widths count characters.
-/
namespace Predictive.Text

/-- A text with spaces before it, so that it has at least the given number of characters. -/
def alignRight (width : Nat) (text : String) : String := String.ofList (text.toList.leftpad width ' ')

@[simp] theorem toList_alignRight {width : Nat} {text : String} :
    (alignRight width text).toList = text.toList.leftpad width ' ' := by
  simp only [alignRight, String.toList_ofList]

theorem length_alignRight {width : Nat} {text : String} :
    (alignRight width text).length = max width text.length := by
  simp only [alignRight, String.length_ofList, List.length_leftpad, String.length_toList]

/-- The largest of some lengths, or zero. -/
def widest (lengths : List Nat) : Nat := lengths.foldr max 0

/-- The number of characters of a row's cell in a column, counted from 0. -/
def cellWidth (row : List String) (column : Nat) : Nat := (row[column]?.getD "").length

/-- The widths of the columns that the first row has. -/
def columnWidths : List (List String) → List Nat
  | [] => []
  | header :: rows =>
    (List.range header.length).map fun column => widest ((header :: rows).map (cellWidth · column))

/-- The line of a row, for columns of the given widths. -/
def alignRow (widths : List Nat) (row : List String) : String :=
  " | ".intercalate (List.zipWith alignRight widths row)

/-- The lines of a table whose rows all have as many cells as the first one. -/
def alignColumns (rows : List (List String)) : String :=
  "\n".intercalate (rows.map (alignRow (columnWidths rows)))

end Predictive.Text
