import Predictive.Grammar.Reader
import Predictive.Lexer
import Predictive.Report.Actions
import Predictive.Report.First
import Predictive.Report.Outcome
import Predictive.Translator

/-!
From text to JSON in one call: the FIRST sets of a written grammar, its table, and how translating an
expression ends. An error of any stage is an object with the error's wording.
-/
namespace Predictive.Export

/-- The object for an error. -/
def jsonError (fault : Error) : Text.Json := .object [("error", .text fault.message)]

/-- The JSON of a result or of the error that took its place. -/
def jsonResult {α : Type} (json : α → Text.Json) : Except Error α → String
  | .ok value => (json value).render
  | .error fault => (jsonError fault).render

/-- The grammar that a text describes. -/
def grammarOf (text : String) : Except Error Grammar := (Grammar.ofText text).mapError .malformed

/-- The table of the grammar that a text describes. -/
def tableOf (text : String) : Except Error Table := (grammarOf text).bind Table.ofGrammar

/-- How translating an expression ends, by the grammar that a text describes. Errors of the grammar come
    before errors of the expression. -/
def outcomeOf (text expression : String) : Except Error Outcome :=
  (tableOf text).bind fun table =>
    ((Lexer.ofGrammar table.grammar).read expression).bind fun tokens =>
      Translator.translate { table } tokens

/-- The FIRST sets of a grammar as JSON. -/
def firstSets (grammar : String) : String := jsonResult Report.First.json (tableOf grammar)

/-- The predictive table of a grammar as JSON. -/
def table (grammar : String) : String := jsonResult Report.Actions.json (tableOf grammar)

/-- The outcome of translating an expression as JSON. -/
def outcome (grammar expression : String) : String :=
  jsonResult Report.Outcome.json (outcomeOf grammar expression)

end Predictive.Export
