import Predictive.Machine
import Predictive.Report.Format
import Predictive.Text.Json
import Predictive.Text.Latex

/-!
How a run ended: the rules of an accepted expression, or the two symbols at which a rejected one
stopped. Only JSON tells the reason of a rejection, by a word for each.
-/
namespace Predictive.Report.Outcome

/-- An outcome as plain text. -/
def plain : Predictive.Outcome → String
  | .accepted rules => "Expression accepted\nFor translation used rules: " ++ ruleList ", " rules
  | .rejected rejection =>
    "Expression not accepted\nNo rule translates " ++ rejection.stackTop.name ++ " to " ++
      rejection.lookahead.name

/-- An outcome in LaTeX. -/
def latex : Predictive.Outcome → String
  | .accepted rules =>
    "Expression accepted" ++ Text.Latex.rowEnd ++ "Rules: $" ++ ruleList ", " rules ++ "$"
  | .rejected rejection =>
    "Expression not accepted" ++ Text.Latex.rowEnd ++ "No rule translates " ++
      Text.Latex.escape rejection.stackTop.name ++ " to " ++ Text.Latex.escape rejection.lookahead.name

/-- The word for a reason. -/
def reasonWord : Reason → String
  | .noAction => "no_action"
  | .unknownToken _ => "unknown_token"
  | .exhausted => "exhausted"

/-- An outcome as JSON. -/
def json : Predictive.Outcome → Text.Json
  | .accepted rules => .object [("status", .text "accepted"), ("rules", .numbers rules)]
  | .rejected rejection => .object [
      ("status", .text "rejected"),
      ("stack_top", .text rejection.stackTop.name),
      ("lookahead", .text rejection.lookahead.name),
      ("reason", .text (reasonWord rejection.reason))]

/-- An outcome in a format. -/
def render (format : Format) (outcome : Predictive.Outcome) : String :=
  match format with
  | .plain => plain outcome
  | .latex => latex outcome
  | .json => (json outcome).render

end Predictive.Report.Outcome
