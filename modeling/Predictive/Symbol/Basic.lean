/-!
The vocabulary of a context-free grammar. A symbol is a terminal or a non-terminal with a name, the
empty word, or the marker below the last symbol of a parser's stack. Symbols are ordered by kind and
then by name, in code point order. Three spellings are reserved: two for the empty word, one for the
marker, so no declared symbol can be mistaken for either.
-/
namespace Predictive

/-- The terminal that stands for every number of an expression. -/
def numberTerminal : String := "num"
/-- The terminal that stands for every free identifier of an expression. -/
def identifierTerminal : String := "id"

/-- A symbol of a grammar or of a parser's stack and input. -/
inductive Symbol where
  | terminal (name : String)
  | nonTerminal (name : String)
  /-- The empty word. -/
  | epsilon
  /-- The bottom of a parser's stack. -/
  | endMarker
deriving DecidableEq, Repr, Inhabited

namespace Symbol

/-- The written form of a symbol. -/
def name : Symbol → String
  | terminal name => name
  | nonTerminal name => name
  | epsilon => "ε"
  | endMarker => "$"

/-- The name of a non-terminal, and nothing for other symbols. -/
def nonTerminal? : Symbol → Option String
  | nonTerminal name => some name
  | _ => none

@[simp] theorem nonTerminal?_eq_some {symbol : Symbol} {name : String} :
    symbol.nonTerminal? = some name ↔ symbol = nonTerminal name := by
  cases symbol <;> simp [nonTerminal?, eq_comm]

/-- The position of a symbol's kind in the order of symbols. -/
def rank : Symbol → Nat
  | terminal _ => 0
  | nonTerminal _ => 1
  | epsilon => 2
  | endMarker => 3

theorem eq_of_rank_of_name {a b : Symbol} (rank : a.rank = b.rank) (name : a.name = b.name) : a = b := by
  cases a <;> cases b <;> simp_all [Symbol.rank, Symbol.name]

instance : Ord Symbol where
  compare := compareLex (compareOn rank) (compareOn name)

instance : Std.TransOrd Symbol :=
  inferInstanceAs (Std.TransCmp (compareLex (compareOn rank) (compareOn name)))

instance : Std.LawfulEqOrd Symbol where
  compare_self {a} := by
    show compareLex (compareOn rank) (compareOn name) a a = .eq
    exact Std.ReflCmp.compare_self
  eq_of_compare {a b} same := by
    have same : compareLex (compareOn rank) (compareOn name) a b = .eq := same
    rw [compareLex_eq_eq] at same
    exact eq_of_rank_of_name (Std.LawfulEqCmp.eq_of_compare same.1) (Std.LawfulEqCmp.eq_of_compare same.2)

end Symbol

/-- The spellings of the empty word in a written rule. -/
def SpellsEpsilon (name : String) : Prop := name = "e" ∨ name = "ε"

instance (name : String) : Decidable (SpellsEpsilon name) := inferInstanceAs (Decidable (_ ∨ _))

/-- The names that no declared symbol may have. -/
def Reserved (name : String) : Prop := SpellsEpsilon name ∨ name = "$"

instance (name : String) : Decidable (Reserved name) := inferInstanceAs (Decidable (_ ∨ _))

end Predictive
