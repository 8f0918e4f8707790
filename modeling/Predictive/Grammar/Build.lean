import Predictive.Grammar.Basic

/-!
Declarations. Names and productions are added one by one; each addition either succeeds or is refused
with its cause and changes nothing. An `Edit` is one such request as a value, also of several names at
once, which keeps the names before the first refused one. A grammar can be built from edits that must
all succeed (`Grammar.build`), or one can look at what remains of a list of edits with some refused
(`Grammar.afterEdits`).
-/
namespace Predictive

namespace Grammar

/-- Declares a terminal. A name that is one already is accepted as it is. -/
def addTerminal (g : Grammar) (name : String) : Except Malformation Grammar :=
  if Reserved name then .error (.reservedName name) else
  match g.symbol? name with
  | some (.terminal _) => .ok g
  | some _ => .error (.vocabularyOverlap name)
  | none => .ok { g with terminals := g.terminals ++ [name] }

/-- Declares a non-terminal. A name that is one already is accepted as it is. -/
def addNonTerminal (g : Grammar) (name : String) : Except Malformation Grammar :=
  if Reserved name then .error (.reservedName name) else
  match g.symbol? name with
  | some (.nonTerminal _) => .ok g
  | some _ => .error (.vocabularyOverlap name)
  | none => .ok { g with nonTerminals := g.nonTerminals ++ [name] }

/-- The symbol that a word of a right side stands for. -/
def rightSymbol? (g : Grammar) (word : String) : Option Symbol :=
  if SpellsEpsilon word then some .epsilon else g.symbol? word

/-- The symbols of a right side, or the first word that stands for none. -/
def rightSymbols (g : Grammar) : List String → Except Malformation (List Symbol)
  | [] => .ok []
  | word :: rest => match g.rightSymbol? word with
    | none => .error (.undeclaredSymbol word)
    | some symbol => (g.rightSymbols rest).map (symbol :: ·)

/-- Adds a production behind the ones that its non-terminal has. -/
def addProduction (g : Grammar) (left : String) (right : List String) (id : Nat) : Except Malformation Grammar :=
  if left ∉ g.nonTerminals then .error (.undeclaredNonTerminal left) else
  if right = [] then .error (.emptyRule id) else
  if id ∈ g.productions.map Production.id then .error (.duplicateRule id) else
  match g.rightSymbols right with
  | .error fault => .error fault
  | .ok symbols =>
    if symbols.length > 1 ∧ Symbol.epsilon ∈ symbols then .error (.misplacedEpsilon id) else
    .ok { g with productions := g.productions ++ [{ id, left, right := symbols }] }

/-- Adds one name after another until one is refused. -/
def addEach (add : Grammar → String → Except Malformation Grammar) (g : Grammar) :
    List String → Grammar × Option Malformation
  | [] => (g, none)
  | name :: rest => match add g name with
    | .ok next => addEach add next rest
    | .error fault => (g, some fault)

end Grammar

/-- A request to declare something. -/
inductive Edit where
  | terminal (name : String)
  | nonTerminal (name : String)
  | terminals (names : List String)
  | nonTerminals (names : List String)
  | production (left : String) (right : List String) (id : Nat)
deriving DecidableEq, Repr

namespace Grammar

/-- The grammar after an addition that may have been refused, and the refusal. -/
def settle (g : Grammar) : Except Malformation Grammar → Grammar × Option Malformation
  | .ok next => (next, none)
  | .error fault => (g, some fault)

/-- The grammar after one edit, and why the edit was refused, if it was. -/
def edit (g : Grammar) : Edit → Grammar × Option Malformation
  | .terminal name => g.settle (g.addTerminal name)
  | .nonTerminal name => g.settle (g.addNonTerminal name)
  | .terminals names => addEach addTerminal g names
  | .nonTerminals names => addEach addNonTerminal g names
  | .production left right id => g.settle (g.addProduction left right id)

/-- The grammar after edits that must all succeed, or the first refusal. -/
def editAll (g : Grammar) : List Edit → Except Malformation Grammar
  | [] => .ok g
  | first :: rest => match g.edit first with
    | (next, none) => next.editAll rest
    | (_, some fault) => .error fault

/-- What remains of a grammar after a list of edits of which some may have been refused. -/
def afterEdits (g : Grammar) (edits : List Edit) : Grammar :=
  edits.foldl (fun current request => (current.edit request).1) g

/-- The grammar that edits build from nothing but a start symbol. -/
def build (start : String) (edits : List Edit) : Except Malformation Grammar :=
  editAll { start } edits

theorem editAll_eq_ok {g result : Grammar} {edits : List Edit} (succeeds : g.editAll edits = .ok result) :
    g.afterEdits edits = result := by
  induction edits generalizing g with
  | nil => simpa [editAll, afterEdits] using succeeds
  | cons first rest ih =>
    unfold editAll at succeeds
    split at succeeds
    · next next done => simpa [afterEdits, done] using ih succeeds
    · contradiction

end Grammar

end Predictive
