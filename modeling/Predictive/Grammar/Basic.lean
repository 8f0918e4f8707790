import Predictive.Error
import Predictive.Symbol.Basic

/-!
Context-free grammars with numbered productions. A grammar keeps its terminals, its non-terminals and
its productions in the order in which they were declared, because that order decides which of several
alternatives the parser tries first. What must hold of every grammar built by declarations is
`Grammar.WellFormed`; what must also hold before it can be used is `Grammar.Usable`, and
`Grammar.fault?` finds the first violation of the latter.
-/
namespace Predictive

/-- A numbered rule by which a sequence of symbols takes the place of a non-terminal. -/
structure Production where
  /-- The number by which derivations name the rule. -/
  id : Nat
  left : String
  right : List Symbol
deriving DecidableEq, Repr

namespace Production

/-- The first symbol of the right side. -/
def head? (production : Production) : Option Symbol := production.right.head?

/-- The right side is the empty word alone. -/
def IsEpsilon (production : Production) : Prop := production.right = [.epsilon]

instance (production : Production) : Decidable production.IsEpsilon :=
  inferInstanceAs (Decidable (_ = _))

/-- The names of the right side, separated by spaces. -/
def rightText (production : Production) : String :=
  " ".intercalate (production.right.map Symbol.name)

/-- The written form of a rule. -/
def text (production : Production) : String := production.left ++ " -> " ++ production.rightText

end Production

/-- A context-free grammar over declared terminals and non-terminals. -/
structure Grammar where
  /-- The non-terminal that derivations begin with. -/
  start : String
  terminals : List String := []
  nonTerminals : List String := []
  /-- All productions, in the order in which they were added. -/
  productions : List Production := []
deriving DecidableEq, Repr

namespace Grammar

/-- The symbol that derivations begin with. -/
def startSymbol (g : Grammar) : Symbol := .nonTerminal g.start

/-- The symbol that a name was declared as. -/
def symbol? (g : Grammar) (name : String) : Option Symbol :=
  if name ∈ g.terminals then some (.terminal name) else
  if name ∈ g.nonTerminals then some (.nonTerminal name) else none

/-- The alternatives of a non-terminal, in the order in which they were added. -/
def productionsOf (g : Grammar) (name : String) : List Production :=
  g.productions.filter (·.left = name)

@[simp] theorem mem_productionsOf {g : Grammar} {name : String} {production : Production} :
    production ∈ g.productionsOf name ↔ production ∈ g.productions ∧ production.left = name := by
  simp [productionsOf]

/-- All productions, grouped by non-terminal in the order of declaration. -/
def groupedProductions (g : Grammar) : List Production := g.nonTerminals.flatMap g.productionsOf

/-- The non-terminals that a derivation may need: the start symbol, and those on right sides. -/
def neededNonTerminals (g : Grammar) : List String :=
  g.start :: g.groupedProductions.flatMap fun production => production.right.filterMap Symbol.nonTerminal?

/-- The start symbol is declared, and every needed non-terminal has a production. -/
def Usable (g : Grammar) : Prop :=
  g.start ∈ g.nonTerminals ∧ ∀ name ∈ g.neededNonTerminals, g.productionsOf name ≠ []

/-- The first reason why a grammar is not usable. -/
def fault? (g : Grammar) : Option Malformation :=
  if g.start ∈ g.nonTerminals then
    (g.neededNonTerminals.find? fun name => g.productionsOf name = []).map .noProductions
  else some (.undeclaredNonTerminal g.start)

theorem fault?_eq_none_iff {g : Grammar} : g.fault? = none ↔ g.Usable := by
  unfold fault? Usable
  split <;> simp_all

instance (g : Grammar) : Decidable g.Usable := decidable_of_iff _ fault?_eq_none_iff

/-- The symbol stands for a declared name of its kind. -/
def Declared (g : Grammar) : Symbol → Prop
  | .terminal name => name ∈ g.terminals
  | .nonTerminal name => name ∈ g.nonTerminals
  | _ => False

/-- The right side is the empty word alone or a non-empty sequence of declared symbols. -/
def RightSide (g : Grammar) (right : List Symbol) : Prop :=
  right = [.epsilon] ∨ right ≠ [] ∧ ∀ symbol ∈ right, g.Declared symbol

/-- What every sequence of declarations keeps: names are declared once, as one kind, and none is
    reserved; each production belongs to a declared non-terminal and has a proper right side; no two
    productions share a number. -/
structure WellFormed (g : Grammar) : Prop where
  terminals_nodup : g.terminals.Nodup
  nonTerminals_nodup : g.nonTerminals.Nodup
  kinds_disjoint : ∀ name ∈ g.terminals, name ∉ g.nonTerminals
  names_free : ∀ name ∈ g.terminals ++ g.nonTerminals, ¬ Reserved name
  left_declared : ∀ production ∈ g.productions, production.left ∈ g.nonTerminals
  right_proper : ∀ production ∈ g.productions, g.RightSide production.right
  ids_nodup : (g.productions.map Production.id).Nodup

end Grammar

end Predictive
