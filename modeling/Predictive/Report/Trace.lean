import Predictive.Report.Outcome
import Predictive.Text.Columns
import Predictive.Translator

/-!
The states of a run, a row for each: its number from 0, the stack from the top, the input from the
lookahead, and the rules applied so far. Plain text and JSON also tell how the run ended.
-/
namespace Predictive.Report.Trace

/-- The names of symbols, separated by spaces. -/
def names (symbols : List Symbol) : String := " ".intercalate (symbols.map Symbol.name)

/-- The cells of a state with its number. -/
def stateCells (state : State) (number : Nat) : List String :=
  [toString number, names state.stack, names state.input, ruleList "," state.rules]

/-- The rows of a trace, with a header. -/
def cells (trace : Predictive.Trace) : List (List String) :=
  ["step", "stack", "input", "rules"] ::
    trace.states.zipIdx.map fun (state, number) => stateCells state number

theorem length_cells {trace : Predictive.Trace} : (cells trace).length = trace.states.length + 1 := by
  simp [cells]

theorem length_of_mem_cells {trace : Predictive.Trace} {row : List String} (member : row ∈ cells trace) :
    row.length = 4 := by
  rcases List.mem_cons.mp member with rfl | state
  · rfl
  · obtain ⟨⟨state, number⟩, _, rfl⟩ := List.mem_map.mp state
    rfl

/-- A trace as plain text, in aligned columns. -/
def plain (trace : Predictive.Trace) : String :=
  Text.alignColumns (cells trace) ++ "\n" ++ Outcome.plain trace.outcome

/-- A trace as a LaTeX table. -/
def latex (trace : Predictive.Trace) : String :=
  Text.Latex.opening "tabular" ++ Text.Latex.braced "r|l|l|l" ++ "\n" ++ Text.Latex.rows (cells trace) ++
    Text.Latex.rowEnd ++ Text.Latex.closing "tabular"

/-- A state as JSON. -/
def jsonState (state : State) : Text.Json :=
  .object [
    ("stack", .texts (state.stack.map Symbol.name)),
    ("input", .texts (state.input.map Symbol.name)),
    ("rules", .numbers state.rules)]

/-- A trace as JSON. -/
def json (trace : Predictive.Trace) : Text.Json :=
  .object [("steps", .list (trace.states.map jsonState)), ("outcome", Outcome.json trace.outcome)]

/-- A trace in a format. -/
def render (format : Format) (trace : Predictive.Trace) : String :=
  match format with
  | .plain => plain trace
  | .latex => latex trace
  | .json => (json trace).render

end Predictive.Report.Trace
