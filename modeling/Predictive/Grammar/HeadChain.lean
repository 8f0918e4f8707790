import Predictive.Grammar.Basic

/-!
Head chains. The head of a production is the first symbol of its right side, and following heads from
one non-terminal to the next is how the predictive table decides which production can begin with a
given symbol. A head chain is such a path as a sequence of productions; a grammar in which some
non-terminal heads back to itself has chains of any length, and no FIRST sets.
-/
namespace Predictive.Grammar

/-- The second non-terminal is the head of some production of the first one. -/
def HeadEdge (g : Grammar) (name next : String) : Prop :=
  ∃ production ∈ g.productionsOf name, production.head? = some (.nonTerminal next)

/-- The productions lead from a non-terminal, from head to head, to a symbol. -/
inductive HeadChain (g : Grammar) : String → List Production → Symbol → Prop where
  | single {name : String} {production : Production} {symbol : Symbol} :
    production ∈ g.productionsOf name → production.head? = some symbol →
    HeadChain g name [production] symbol
  | cons {name next : String} {production : Production} {chain : List Production} {symbol : Symbol} :
    production ∈ g.productionsOf name → production.head? = some (.nonTerminal next) →
    HeadChain g next chain symbol → HeadChain g name (production :: chain) symbol

/-- The names form a path of head edges. -/
def HeadPath (g : Grammar) : List String → Prop
  | name :: next :: rest => g.HeadEdge name next ∧ g.HeadPath (next :: rest)
  | _ => True

/-- No path of head edges comes back to a name that it has left. -/
def HeadAcyclic (g : Grammar) : Prop :=
  ∀ path : List String, 1 < path.length → g.HeadPath path → path.head? ≠ path.getLast?

namespace HeadChain

theorem ne_nil {g : Grammar} {name : String} {chain : List Production} {symbol : Symbol}
    (leads : g.HeadChain name chain symbol) : chain ≠ [] := by
  cases leads <;> simp

/-- The first production of a chain belongs to the non-terminal that the chain leads from. -/
theorem left_of_head {g : Grammar} {name : String} {production : Production} {chain : List Production}
    {symbol : Symbol} (leads : g.HeadChain name (production :: chain) symbol) :
    production ∈ g.productionsOf name := by
  cases leads <;> assumption

end HeadChain

end Predictive.Grammar
