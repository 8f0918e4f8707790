import Predictive.Report.Format
import Predictive.Table
import Predictive.Text.Json
import Predictive.Text.Latex

/-!
The FIRST sets of a table's grammar, a line for each non-terminal in the order of declaration. The
members of a set are listed by name, and the empty word last.
-/
namespace Predictive.Report.First

/-- The names of the members of a non-terminal's set. -/
def members (table : Table) (name : String) : List String :=
  ((table.first.get? name).getD ∅).toList.map Symbol.name

/-- The FIRST sets as plain text. -/
def plain (table : Table) : String :=
  "\n".intercalate <| table.grammar.nonTerminals.map fun name =>
    name ++ " | " ++ ", ".intercalate (members table name)

/-- A non-terminal and its set as the cells of a table. -/
def latexRow (table : Table) (name : String) : String :=
  Text.Latex.escape name ++ " & " ++ "\\ ".intercalate ((members table name).map Text.Latex.escape)

/-- The FIRST sets as a LaTeX table. -/
def latex (table : Table) : String :=
  Text.Latex.opening "tabular" ++ Text.Latex.braced "c|c" ++ "\nSymbol & First\\\\\\hline\n" ++
    (Text.Latex.rowEnd ++ " ").intercalate (table.grammar.nonTerminals.map (latexRow table)) ++
    Text.Latex.rowEnd ++ Text.Latex.closing "tabular"

/-- A non-terminal with its set. -/
def jsonEntry (table : Table) (name : String) : Text.Json :=
  .object [("name", .text name), ("first", .texts (members table name))]

/-- The FIRST sets as JSON. -/
def json (table : Table) : Text.Json :=
  .object [("data", .list (table.grammar.nonTerminals.map (jsonEntry table)))]

/-- The FIRST sets in a format. -/
def render (format : Format) (table : Table) : String :=
  match format with
  | .plain => plain table
  | .latex => latex table
  | .json => (json table).render

end Predictive.Report.First
