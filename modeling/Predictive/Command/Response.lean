import Predictive.Command.Input
import Predictive.Command.Request
import Predictive.Export
import Predictive.Grammar.Samples
import Predictive.Report.Productions
import Predictive.Report.Trace
import Predictive.Text.Quoted

/-!
What the command line prints and how it ends. Outputs are answered in turn, and within an output that
reads the input, lines are. A line that is no expression is reported and skipped; any other failure
ends the command, and what was printed before stays. The first output that reads the input reads all of
it, so the ones behind it find no lines.
-/
namespace Predictive.Command

/-- Printed text, and the exit code, which is zero unless the command failed. -/
structure Response where
  stdout : String := ""
  stderr : String := ""
  code : Nat := 0
deriving DecidableEq, Repr

namespace Response

/-- A text as a line of its own. -/
def line (text : String) : Response := { stdout := text ++ "\n" }

/-- A text as a line among the errors. -/
def errorLine (text : String) : Response := { stderr := text ++ "\n" }

/-- The end of a command that cannot go on. -/
def failure (message : String) : Response := { stderr := "error: " ++ message ++ "\n", code := 1 }

/-- One response and, unless it is a failure, another one behind it. -/
def andThen (first second : Response) : Response :=
  if first.code = 0 then
    { stdout := first.stdout ++ second.stdout, stderr := first.stderr ++ second.stderr, code := second.code }
  else first

/-- The responses to some items in turn, up to the first failure. -/
def inTurn {α : Type} (respond : α → Response) : List α → Response
  | [] => {}
  | item :: rest =>
    let first := respond item
    if first.code = 0 then first.andThen (inTurn respond rest) else first

theorem inTurn_cons {α : Type} {respond : α → Response} {item : α} {rest : List α} :
    inTurn respond (item :: rest) = (respond item).andThen (inTurn respond rest) := by
  rw [inTurn]
  simp only [andThen]
  split <;> rfl

end Response

/-- The tokens of an expression and the sources of its placeholders, as plain text tells them. -/
def tokenReport (tokenization : Tokenization) : String :=
  "Found tokens: " ++ Text.quoteList (tokenization.tokens.map Token.text) ++ "\nMade substitutions: " ++
    Text.quoteMap tokenization.substitutions.toList

/-- What is printed of the run on some tokens. -/
def runReport (translator : Translator) (format : Report.Format) (steps : Bool) (tokens : List String) :
    Except Error String :=
  if steps then (translator.trace tokens).map (Report.Trace.render format)
  else (translator.translate tokens).map (Report.Outcome.render format)

/-- The response to an expression. -/
def expressionResponse (translator : Translator) (format : Report.Format) (steps : Bool)
    (expression : String) : Response :=
  let lexer := Lexer.ofGrammar translator.table.grammar
  match lexer.tokenize expression with
  | .error fault => .errorLine fault.message
  | .ok tokenization =>
    let found : Response := if format = .plain then .line (tokenReport tokenization) else {}
    found.andThen <| match runReport translator format steps (lexer.normalize tokenization.tokens) with
      | .error fault => .failure fault.message
      | .ok report => .line (report ++ "\n")

/-- The response to a line of the input. -/
def lineResponse (translator : Translator) (format : Report.Format) (steps : Bool) :
    Except ReadFault String → Response
  | .error fault => .failure fault.message
  | .ok expression => expressionResponse translator format steps expression

/-- The response to one output, for the lines that it finds in the input. -/
def outputResponse (translator : Translator) (format : Report.Format)
    (lines : List (Except ReadFault String)) : Output → Response
  | .productions => .line (Report.Productions.render format translator.table.grammar)
  | .firstSets => .line (Report.First.render format translator.table)
  | .table => .line (Report.Actions.render format translator.table)
  | .outcomes => .inTurn (lineResponse translator format false) lines
  | .traces => .inTurn (lineResponse translator format true) lines

/-- The outputs, each with the lines that it finds in the input. -/
def withLines (lines : List (Except ReadFault String)) :
    List Output → List (Output × List (Except ReadFault String))
  | [] => []
  | output :: rest => (output, lines) :: withLines (if output.ReadsInput then [] else lines) rest

/-- The table of a request's grammar, where the text of the file was read if the request names one. -/
def requestedTable (file : Option (Except ReadFault String)) : Except String Table :=
  match file with
  | none => (Table.ofGrammar Grammar.assignment).mapError Error.message
  | some (.error fault) => .error fault.message
  | some (.ok text) => (Export.tableOf text).mapError Error.message

/-- The response to a request, for the contents of its file and the lines of the input. -/
def Request.respond (request : Request) (file : Option (Except ReadFault String))
    (lines : List (Except ReadFault String)) : Response :=
  match requestedTable file with
  | .error message => .failure message
  | .ok table =>
    .inTurn (fun (output, found) => outputResponse { table } request.format found output)
      (withLines lines request.outputs)

/-- The response to a list of arguments, for what the named file and the input hold. -/
def respond (args : List String) (readFile : String → Except ReadFault (List UInt8)) (input : List UInt8) :
    Response :=
  match Request.ofArgs? args with
  | none => { stdout := helpText }
  | some request =>
    request.respond (request.grammarFile.map fun path => (readFile path).bind decode) (decodeLines input)

end Predictive.Command
