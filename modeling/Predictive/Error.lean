import Predictive.Text.Quoted

/-!
What can go wrong, by cause, and the wording of each cause. A grammar can be malformed, its FIRST sets
can depend on themselves, a run of the parser can pass its step ceiling, and an expression can hold a
character that no token starts with. An input that the grammar does not generate is no error but an
outcome of its own.
-/
namespace Predictive

/-- Why one line of a grammar text cannot be read. -/
inductive LineFault where
  | tooManyArrows
  | emptyLeftSide
  | spacedLeftSide
  /-- The line continues a rule, but none stands before it. -/
  | noLeftSide
  | noArrow
  /-- The text has no line with a rule. -/
  | noProductions
deriving DecidableEq, Repr

/-- Why a grammar cannot be declared or used. -/
inductive Malformation where
  | line (number : Nat) (fault : LineFault)
  | reservedName (name : String)
  | vocabularyOverlap (name : String)
  | undeclaredNonTerminal (name : String)
  | undeclaredSymbol (name : String)
  | duplicateRule (rule : Nat)
  | emptyRule (rule : Nat)
  /-- The rule has the empty word next to other symbols. -/
  | misplacedEpsilon (rule : Nat)
  | noProductions (name : String)
deriving DecidableEq, Repr

/-- Why a table cannot be built, or an expression not be read or translated. -/
inductive Error where
  | malformed (fault : Malformation)
  /-- The FIRST set of the first name needs that of the next, and so on back to the first. -/
  | headCycle (path : List String)
  /-- The parser did not halt within so many steps. -/
  | runaway (steps : Nat)
  | unrecognized (character : Char) (position : Nat)
deriving DecidableEq, Repr

/-- The wording of a line fault. -/
def LineFault.message : LineFault → String
  | tooManyArrows => "too many \"->\""
  | emptyLeftSide => "empty left side"
  | spacedLeftSide => "left side contains whitespace"
  | noLeftSide => "cannot find left side"
  | noArrow => "missing \"->\""
  | noProductions => "grammar has no productions"

/-- The wording of a malformation. -/
def Malformation.message : Malformation → String
  | line number fault => "line " ++ toString number ++ ": " ++ fault.message
  | reservedName name => "`" ++ name ++ "` is a reserved symbol"
  | vocabularyOverlap name => "`" ++ name ++ "` is declared both as a terminal and as a non-terminal"
  | undeclaredNonTerminal name => "`" ++ name ++ "` is not a declared non-terminal"
  | undeclaredSymbol name =>
    "`" ++ name ++ "` is neither a declared terminal nor a declared non-terminal"
  | duplicateRule rule => "rule " ++ toString rule ++ " is declared more than once"
  | emptyRule rule => "rule " ++ toString rule ++ " has an empty right-hand side"
  | misplacedEpsilon rule => "rule " ++ toString rule ++ " uses epsilon next to other symbols"
  | noProductions name => "non-terminal `" ++ name ++ "` has no productions"

/-- The wording of an error. -/
def Error.message : Error → String
  | malformed fault => "malformed grammar: " ++ fault.message
  | headCycle path => "grammar cycle: FIRST set depends on itself: " ++ " -> ".intercalate path
  | runaway steps =>
    "grammar cycle: parse did not terminate within " ++ toString steps ++ " steps"
  | unrecognized character position =>
    "unrecognized character " ++ Text.quoteChar character ++ " at position " ++ toString position

end Predictive
