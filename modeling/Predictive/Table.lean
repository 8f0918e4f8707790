import Predictive.FirstSets

/-!
The predictive table. Its rows are the symbols that can be on top of a parser's stack, its columns the
terminals and the empty word, which stands for the end of the tokens. A non-terminal is expanded by
the first of its productions from which head productions lead to the lookahead; only symbols of its
FIRST set are looked for. Entries are functions of the grammar and its FIRST sets, so a table holds no
more than these two and the fact that they belong together.
-/
namespace Predictive

namespace Grammar

/-- The first head chain from a non-terminal to a symbol, in the order of declaration, among those whose
    non-terminals have the symbol in the given sets. A chain that meets no non-terminal twice has room
    in the number of non-terminals. -/
def chain? (g : Grammar) (first : FirstSets) (symbol : Symbol) :
    (room : Nat) → (name : String) → Option (List Production)
  | 0, _ => none
  | room + 1, name =>
    if first.Contains name symbol then
      (g.productionsOf name).findSome? fun production => match production.head? with
        | some (.nonTerminal next) => (g.chain? first symbol room next).map (production :: ·)
        | head => if head = some symbol then some [production] else none
    else none

/-- The first chain of productions that leads from a non-terminal to a symbol by heads, where the sets
    given tell which symbols a non-terminal leads to. -/
def findChain? (g : Grammar) (first : FirstSets) (name : String) (symbol : Symbol) : Option (List Production) :=
  g.chain? first symbol g.nonTerminals.length name

end Grammar

/-- What a parser does with the symbol on top of its stack. -/
inductive Action where
  /-- The top is the lookahead: both go. -/
  | consume
  | accept
  | reject
  /-- The right side of the production takes the place of the top. -/
  | apply (production : Production)
deriving DecidableEq, Repr

/-- The entry that is written for an action. -/
def Action.text : Action → String
  | consume => "pop"
  | accept => "acc"
  | reject => ""
  | apply production => "(" ++ toString production.id ++ ") " ++ production.text

/-- A grammar with its FIRST sets. -/
structure Table where
  grammar : Grammar
  first : FirstSets
  first_eq : grammar.firstSets = .ok first

namespace Table

/-- The table of a grammar that has FIRST sets. -/
def ofGrammar (g : Grammar) : Except Error Table :=
  match found : g.firstSets with
  | .error fault => .error fault
  | .ok first => .ok { grammar := g, first, first_eq := found }

/-- The columns: the symbols that can be in front of the input. -/
def lookaheads (table : Table) : List Symbol := table.grammar.terminals.map .terminal ++ [.epsilon]

/-- The rows: the symbols that can be on top of the stack. -/
def rows (table : Table) : List Symbol :=
  table.grammar.nonTerminals.map .nonTerminal ++ table.lookaheads ++ [.endMarker]

/-- The entry in a row and a column of the table. -/
def entry (table : Table) (top lookahead : Symbol) : Action :=
  match top with
  | .nonTerminal name => match table.grammar.findChain? table.first name lookahead with
    | some (production :: _) => .apply production
    | _ => .reject
  | .endMarker => if lookahead = .epsilon then .accept else .reject
  | symbol => if symbol = lookahead then .consume else .reject

/-- The action for a stack top and a lookahead, and nothing outside the table. -/
def action? (table : Table) (top lookahead : Symbol) : Option Action :=
  if top ∈ table.rows ∧ lookahead ∈ table.lookaheads then some (table.entry top lookahead) else none

@[simp] theorem mem_lookaheads {table : Table} {symbol : Symbol} :
    symbol ∈ table.lookaheads ↔ symbol ∈ table.grammar.terminals.map .terminal ∨ symbol = .epsilon := by
  simp [lookaheads]

@[simp] theorem mem_rows {table : Table} {symbol : Symbol} :
    symbol ∈ table.rows ↔ symbol ∈ table.grammar.nonTerminals.map .nonTerminal ∨
      symbol ∈ table.lookaheads ∨ symbol = .endMarker := by
  simp only [rows, List.mem_append, List.mem_singleton, or_assoc]

theorem action?_eq_some {table : Table} {top lookahead : Symbol} {action : Action} :
    table.action? top lookahead = some action ↔
      (top ∈ table.rows ∧ lookahead ∈ table.lookaheads) ∧ table.entry top lookahead = action := by
  unfold action?
  split
  · next inside => simp only [Option.some.injEq, inside, and_self, true_and]
  · next outside => simp only [reduceCtorEq, outside, false_and]

theorem ofGrammar_eq_ok {g : Grammar} {table : Table} (built : ofGrammar g = .ok table) : table.grammar = g := by
  unfold ofGrammar at built
  split at built
  · contradiction
  · cases built; rfl

theorem grammar_usable (table : Table) : table.grammar.Usable := by
  have built := table.first_eq
  unfold Grammar.firstSets at built
  split at built
  · contradiction
  · next none => exact Grammar.fault?_eq_none_iff.mp none

end Table

end Predictive
