import Predictive.Report.Format
import Predictive.Table
import Predictive.Text.Columns
import Predictive.Text.Json
import Predictive.Text.Latex

/-!
The predictive table as a table of texts: a row for every stack symbol, a column for every lookahead,
and in each cell the written form of the action.
-/
namespace Predictive.Report.Actions

/-- The cells of a row. -/
def cells (table : Table) (top : Symbol) : List String :=
  table.lookaheads.map fun lookahead => (table.entry top lookahead).text

/-- The names of the columns. -/
def columns (table : Table) : List String := table.lookaheads.map Symbol.name

/-- The rows, each begun by the name of its symbol. -/
def rows (table : Table) : List (List String) := table.rows.map fun top => top.name :: cells table top

theorem length_rows {table : Table} : (rows table).length = table.rows.length := List.length_map _

theorem length_of_mem_rows {table : Table} {row : List String} (member : row ∈ rows table) :
    row.length = table.lookaheads.length + 1 := by
  obtain ⟨top, _, rfl⟩ := List.mem_map.mp member
  rw [List.length_cons, cells, List.length_map]

/-- The table as plain text, in aligned columns. -/
def plain (table : Table) : String := Text.alignColumns (("" :: columns table) :: rows table)

/-- The first line of the LaTeX array: its columns, and their names. -/
def latexHeader (table : Table) : String :=
  let shape := "c" ++ String.join (table.lookaheads.map fun _ => "|l")
  " & ".intercalate
    (("\\[" ++ Text.Latex.opening "array" ++ Text.Latex.braced shape ++ "\n") ::
      (columns table).map fun name => "\\text" ++ Text.Latex.braced (Text.Latex.escape name))

/-- The table as a LaTeX array. -/
def latex (table : Table) : String :=
  latexHeader table ++ "\\\\\\hline\n" ++ Text.Latex.rows (rows table) ++ "\n" ++
    Text.Latex.closing "array" ++ "\\]"

/-- The table as JSON. -/
def json (table : Table) : Text.Json :=
  .object [("lookaheads", .texts (columns table)),
    ("rows", .list (table.rows.map fun top => .list [.text top.name, .texts (cells table top)]))]

/-- The table in a format. -/
def render (format : Format) (table : Table) : String :=
  match format with
  | .plain => plain table
  | .latex => latex table
  | .json => (json table).render

end Predictive.Report.Actions
