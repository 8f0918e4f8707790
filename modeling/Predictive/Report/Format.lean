/-!
The formats of reports.
-/
namespace Predictive.Report

/-- How a report is written. -/
inductive Format where
  | plain
  | latex
  | json
deriving DecidableEq, Repr, Inhabited

/-- The numbers of rules as text, with a separator between them. -/
def ruleList (separator : String) (rules : List Nat) : String :=
  separator.intercalate (rules.map fun rule => toString rule)

end Predictive.Report
