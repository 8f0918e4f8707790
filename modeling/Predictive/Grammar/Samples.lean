import Predictive.Grammar.Reader

/-!
Two grammars to try things out with: assignments of arithmetic expressions to variables, and plain
arithmetic expressions over one operand. The second one is also given as text, and reading that text
yields it.
-/
namespace Predictive.Grammar

/-- Assignments, each ended by a semicolon, such as `x=y + 7; y=2+2; w=x+y;`. No rule is numbered 4:
    an expression on its own cannot be told from an assignment by one token. -/
def assignment : Grammar where
  start := "P"
  terminals := ["+", "-", "*", "/", "(", ")", "=", ";", identifierTerminal, numberTerminal]
  nonTerminals := ["P", "O", "I", "E", "E'", "N", "A"]
  productions := [
    { id := 1, left := "P", right := [.nonTerminal "O", .terminal ";", .nonTerminal "P"] },
    { id := 2, left := "P", right := [.epsilon] },
    { id := 3, left := "O", right := [.nonTerminal "I", .terminal "=", .nonTerminal "E"] },
    { id := 5, left := "E", right := [.nonTerminal "N", .nonTerminal "E'"] },
    { id := 6, left := "E", right := [.nonTerminal "I", .nonTerminal "E'"] },
    { id := 7, left := "E",
      right := [.terminal "(", .nonTerminal "E", .terminal ")", .nonTerminal "E'"] },
    { id := 8, left := "E'", right := [.nonTerminal "A", .nonTerminal "E"] },
    { id := 9, left := "E'", right := [.epsilon] },
    { id := 10, left := "A", right := [.terminal "+"] },
    { id := 11, left := "A", right := [.terminal "-"] },
    { id := 12, left := "A", right := [.terminal "*"] },
    { id := 13, left := "A", right := [.terminal "/"] },
    { id := 14, left := "I", right := [.terminal identifierTerminal] },
    { id := 15, left := "N", right := [.terminal numberTerminal] }]

/-- Arithmetic expressions over the operand `a`, with the usual precedence of operators. -/
def expression : Grammar where
  start := "E"
  terminals := ["+", "-", "*", "/", "(", ")", "a"]
  nonTerminals := ["E", "E'", "T", "T'", "F"]
  productions := [
    { id := 1, left := "E", right := [.nonTerminal "T", .nonTerminal "E'"] },
    { id := 2, left := "E'", right := [.terminal "+", .nonTerminal "T", .nonTerminal "E'"] },
    { id := 3, left := "E'", right := [.terminal "-", .nonTerminal "T", .nonTerminal "E'"] },
    { id := 4, left := "E'", right := [.epsilon] },
    { id := 5, left := "T", right := [.nonTerminal "F", .nonTerminal "T'"] },
    { id := 6, left := "T'", right := [.terminal "*", .nonTerminal "F", .nonTerminal "T'"] },
    { id := 7, left := "T'", right := [.terminal "/", .nonTerminal "F", .nonTerminal "T'"] },
    { id := 8, left := "T'", right := [.epsilon] },
    { id := 9, left := "F", right := [.terminal "(", .nonTerminal "E", .terminal ")"] },
    { id := 10, left := "F", right := [.terminal "a"] }]

/-- The text of the grammar of expressions. -/
def expressionText : String := "
E  -> T E'
E' -> + T E' | - T E' | e
T  -> F T'
T' -> * F T' | / F T' | e
F  -> ( E ) | a
"

theorem ofText_expressionText : ofText expressionText = .ok expression := by
  rfl

end Predictive.Grammar
