import Predictive.Grammar.Basic
import Predictive.Report.Format
import Predictive.Text.Columns
import Predictive.Text.Json
import Predictive.Text.Latex

/-!
The productions of a grammar, grouped by non-terminal. In plain text the left side is written once for
each group and a bar stands for the arrow of every further alternative.
-/
namespace Predictive.Report.Productions

/-- The width of the column of left sides. -/
def leftWidth (g : Grammar) : Nat := Text.widest (g.nonTerminals.map String.length)

/-- One production as a line, with the given left side and arrow. -/
def plainLine (width : Nat) (left arrow : String) (production : Production) : String :=
  "(" ++ Text.alignRight 2 (toString production.id) ++ ") " ++ Text.alignRight width left ++ " " ++
    arrow ++ " " ++ production.rightText

/-- The lines of a non-terminal's productions. -/
def plainGroup (width : Nat) (name : String) : List Production → String
  | [] => ""
  | first :: rest =>
    "\n".intercalate (plainLine width name "->" first :: rest.map (plainLine width "" " |"))

/-- The productions as plain text. -/
def plain (g : Grammar) : String :=
  "\n".intercalate (g.nonTerminals.map fun name => plainGroup (leftWidth g) name (g.productionsOf name))

/-- One production as the cells of an array. -/
def latexRow (production : Production) : String :=
  "(" ++ toString production.id ++ ") & " ++ Text.Latex.escape production.left ++ " & \\rightarrow & " ++
    " \\ ".intercalate (production.right.map fun symbol => Text.Latex.escape symbol.name)

/-- The rows of a non-terminal's productions. -/
def latexGroup (productions : List Production) : String :=
  Text.Latex.rowEnd.intercalate (productions.map latexRow)

/-- The productions as a LaTeX array. -/
def latex (g : Grammar) : String :=
  Text.Latex.rowEnd.intercalate
    (["\\[" ++ Text.Latex.opening "array" ++ Text.Latex.braced "rcll"] ++
      (g.nonTerminals.map fun name => latexGroup (g.productionsOf name)) ++
      [Text.Latex.closing "array" ++ "\\]"])

/-- A non-terminal with the numbers and right sides of its productions. -/
def jsonGroup (g : Grammar) (name : String) : Text.Json :=
  .object [("left", .text name),
    ("rights", .list ((g.productionsOf name).map fun production =>
      .list [.number production.id, .texts (production.right.map Symbol.name)]))]

/-- The productions as JSON. -/
def json (g : Grammar) : Text.Json := .object [("productions", .list (g.nonTerminals.map (jsonGroup g)))]

/-- The productions in a format. -/
def render (format : Format) (g : Grammar) : String :=
  match format with
  | .plain => plain g
  | .latex => latex g
  | .json => (json g).render

end Predictive.Report.Productions
